import LogMining.Proofs.Refine.Longest
import Mathlib.Data.List.Nodup
import Mathlib.Order.Lattice.Nat

/-!
# Values between delimiters

Words that hold different values between the same delimiters, behind the same key, are divided at the
delimiters, whatever the values have in common. The exception is a sign that separates a key from its value:
if all values begin alike up to such a sign, the front goes on to the last one of them.
-/

namespace LogMining.Affixes

def between (key : List Char) (pair : Char × Char) (value : List Char) : List Char :=
  key ++ pair.1 :: (value ++ [pair.2])

def delimited (key : String) (pair : Char × Char) (value : String) : String :=
  key ++ String.singleton pair.1 ++ value ++ String.singleton pair.2

/-- No character of a value opens or closes one. -/
def IsPlain (value : List Char) : Prop := ∀ c ∈ value, ∀ pair ∈ delimiters, c ≠ pair.1 ∧ c ≠ pair.2

-- The instances are given, since that for finite types would go through all characters there are.
instance : DecidablePred IsPlain := fun value =>
  @List.decidableBAll _ _ (fun c => List.decidableBAll (fun pair : Char × Char => c ≠ pair.1 ∧ c ≠ pair.2) _) value

theorem IsPlain.not_mem {value : List Char} {pair : Char × Char} (h : IsPlain value) (hpair : pair ∈ delimiters) :
    pair.1 ∉ value ∧ pair.2 ∉ value :=
  ⟨fun hmem => (h _ hmem pair hpair).1 rfl, fun hmem => (h _ hmem pair hpair).2 rfl⟩

/-- All values begin with the same `n` characters, the last of which separates a key from its value. -/
def SharesKey (values : List (List Char)) (n : Nat) : Prop :=
  ∃ key : List Char, key.length = n ∧ (key.getLast? = some '=' ∨ key.getLast? = some ':') ∧
    ∀ value ∈ values, key <+: value

theorem toList_delimited (key : String) (pair : Char × Char) (value : String) :
    (delimited key pair value).toList = between key.toList pair value.toList := by
  simp [delimited, between]

theorem length_between (key : List Char) (pair : Char × Char) (value : List Char) :
    (between key pair value).length = key.length + value.length + 2 := by
  simp only [between, List.length_append, List.length_cons, List.length_nil]
  omega

theorem SharesKey.ne_zero {values : List (List Char)} {n : Nat} (h : SharesKey values n) : n ≠ 0 := by
  rintro rfl
  obtain ⟨key, hlength, hsep, -⟩ := h
  rw [List.length_eq_zero_iff.mp hlength] at hsep
  simp at hsep

theorem SharesKey.le_length {values : List (List Char)} {n : Nat} (h : SharesKey values n) :
    ∀ value ∈ values, n ≤ value.length := by
  obtain ⟨key, rfl, -, hkey⟩ := h
  exact fun value hvalue => (hkey value hvalue).length_le

theorem suffix_between (key : List Char) (pair : Char × Char) (value : List Char) :
    [pair.2] <:+ between key pair value := ⟨key ++ pair.1 :: value, by simp [between]⟩

theorem exists_ne_of_nodup {α : Type} {l : List α} (hlength : 2 ≤ l.length) (hnodup : l.Nodup) :
    ∀ a ∈ l, ∃ b ∈ l, b ≠ a := by
  intro a ha
  by_contra hnone
  simp only [not_exists, not_and, not_not] at hnone
  rw [List.eq_replicate_of_mem hnone, List.nodup_replicate] at hnodup
  omega

section Shared

variable {key part value value' : List Char} {c : Char} {pair : Char × Char} {values : List (List Char)}

theorem eq_of_prefix_of_not_mem (h : value ++ [c] <+: value' ++ [c]) (hvalue' : c ∉ value') :
    value = value' := by
  rcases List.prefix_concat_iff.mp h with heq | hbefore
  · exact List.append_cancel_right heq
  · exact absurd (hbefore.subset (by simp)) hvalue'

theorem eq_of_suffix_of_not_mem (h : c :: value <:+ key ++ c :: value') (hvalue : c ∉ value)
    (hvalue' : c ∉ value') : value = value' := by
  rcases List.suffix_or_suffix_of_suffix h (List.suffix_append key (c :: value')) with h | h
  · rcases List.suffix_cons_iff.mp h with heq | h
    · exact (List.cons.inj heq).2
    · exact absurd (h.subset List.mem_cons_self) hvalue'
  · rcases List.suffix_cons_iff.mp h with heq | h
    · exact (List.cons.inj heq).2.symm
    · exact absurd (h.subset List.mem_cons_self) hvalue

section Different

variable (htwo : ∀ value ∈ values, ∃ value' ∈ values, value' ≠ value)

include htwo

theorem forall_prefix_iff (hplain : ∀ value ∈ values, c ∉ value) :
    (∀ value ∈ values, part <+: value ++ [c]) ↔ ∀ value ∈ values, part <+: value := by
  constructor
  · intro h value hvalue
    rcases List.prefix_concat_iff.mp (h value hvalue) with rfl | hpart
    · obtain ⟨value', hvalue', hne⟩ := htwo value hvalue
      exact absurd (eq_of_prefix_of_not_mem (h value' hvalue') (hplain value' hvalue')).symm hne
    · exact hpart
  · exact fun h value hvalue => (h value hvalue).trans (List.prefix_append value [c])

theorem forall_suffix_iff (hplain : ∀ value ∈ values, c ∉ value) :
    (∀ value ∈ values, part <:+ key ++ c :: value) ↔ ∀ value ∈ values, part <:+ value := by
  constructor
  · intro h value hvalue
    obtain ⟨value', hvalue', hne⟩ := htwo value hvalue
    -- otherwise the other value would come right behind the same character
    have hnot : ¬c :: value <:+ part := fun hpart => hne
      (eq_of_suffix_of_not_mem (hpart.trans (h value' hvalue')) (hplain value hvalue)
        (hplain value' hvalue')).symm
    rcases List.suffix_or_suffix_of_suffix (h value hvalue) (List.suffix_append key _) with hpart | hpart
    · rcases List.suffix_cons_iff.mp hpart with rfl | hpart
      · exact absurd List.suffix_rfl hnot
      · exact hpart
    · exact absurd hpart hnot
  · intro h value hvalue
    exact (h value hvalue).trans ((List.suffix_cons c value).trans (List.suffix_append key _))

theorem exists_shared_prefix_iff (hne : values ≠ []) (hplain : ∀ value ∈ values, pair.2 ∉ value) (n : Nat) :
    (∃ front : List Char, front.length = key.length + 1 + n ∧
        ∀ word ∈ values.map (between key pair), front <+: word) ↔
      ∃ part : List Char, part.length = n ∧ ∀ value ∈ values, part <+: value := by
  constructor
  · rintro ⟨front, hlength, hfront⟩
    rw [List.forall_mem_map] at hfront
    obtain ⟨value, hvalue⟩ := List.exists_mem_of_ne_nil values hne
    have hopened : key ++ [pair.1] <+: between key pair value := ⟨value ++ [pair.2], by simp [between]⟩
    obtain ⟨part, rfl⟩ : key ++ [pair.1] <+: front := by
      refine List.prefix_of_prefix_length_le hopened (hfront value hvalue) ?_
      simp only [List.length_append, List.length_cons, List.length_nil]
      omega
    refine ⟨part, ?_, (forall_prefix_iff htwo hplain).mp fun value hvalue => ?_⟩
    · rw [List.length_append, List.length_append, List.length_singleton] at hlength
      exact Nat.add_left_cancel hlength
    · simpa [between] using hfront value hvalue
  · rintro ⟨part, rfl, hpart⟩
    refine ⟨key ++ [pair.1] ++ part, by simp only [List.length_append, List.length_singleton],
      List.forall_mem_map.mpr fun value hvalue => ?_⟩
    simpa [between] using (hpart value hvalue).trans (List.prefix_append value [pair.2])

theorem isGreatest_shared_suffix {back : Nat} (hplain : ∀ value ∈ values, pair.1 ∉ value)
    (hback : IsGreatest {n | ∃ part : List Char, part.length = n ∧ ∀ value ∈ values, part <:+ value} back) :
    IsGreatest {n | ∃ part : List Char, part.length = n ∧
      ∀ word ∈ values.map (between key pair), part <:+ word} (back + 1) := by
  have hbetween : ∀ value, between key pair value = key ++ pair.1 :: value ++ [pair.2] := by
    simp [between]
  constructor
  · obtain ⟨part, rfl, hpart⟩ := hback.1
    refine ⟨part ++ [pair.2], List.length_append, List.forall_mem_map.mpr fun value hvalue => ?_⟩
    rw [hbetween]
    exact List.suffix_concat_iff.mpr (.inr ⟨part, rfl, (forall_suffix_iff htwo hplain).mpr hpart value hvalue⟩)
  · rintro n ⟨part, rfl, hpart⟩
    rw [List.forall_mem_map] at hpart
    rcases List.eq_nil_or_concat' part with rfl | ⟨part, c, rfl⟩
    · exact Nat.zero_le _
    · have hpart : ∀ value ∈ values, part <:+ key ++ pair.1 :: value := by
        intro value hvalue
        have hword := hpart value hvalue
        rw [hbetween] at hword
        rcases List.suffix_concat_iff.mp hword with hnil | ⟨part', heq, hpart'⟩
        · exact absurd hnil (by simp)
        · rwa [(List.append_inj' heq rfl).1]
      rw [List.length_append, List.length_singleton, Nat.succ_le_succ_iff]
      exact hback.2 ⟨part, rfl, (forall_suffix_iff htwo hplain).mp hpart⟩

end Different

end Shared

section Fields

variable {key first : List Char} {pair : Char × Char} {others : List (List Char)} {back n : Nat}

theorem fieldAt_opening (hpair : pair ∈ delimiters) (value : List Char) :
    FieldAt (between key pair value) (back + 1) key.length := by
  have hlast : [pair.2] <:+ (between key pair value).drop ((between key pair value).length - (back + 1)) := by
    refine List.suffix_of_suffix_length_le (suffix_between key pair value) (List.drop_suffix _ _) ?_
    rw [List.length_drop, length_between, List.length_singleton]
    omega
  exact ⟨pair.1, by simp [between], .inr (.inr ⟨pair.2, hpair, hlast.subset List.mem_cons_self⟩)⟩

theorem getElem?_between (hn : n < first.length) :
    (between key pair first)[key.length + 1 + n]? = first[n]? := by
  rw [between, List.getElem?_append_right (by omega), show key.length + 1 + n - key.length = n + 1 by omega,
    List.getElem?_cons_succ, List.getElem?_append_left hn]

theorem fieldAt_value_iff (hplain : IsPlain first) (hn : n < first.length) :
    FieldAt (between key pair first) back (key.length + 1 + n) ↔ first[n]? = some '=' ∨ first[n]? = some ':' := by
  constructor
  · rintro ⟨c, hc, hfield⟩
    rw [getElem?_between hn] at hc
    rcases hfield with rfl | rfl | ⟨close, hpair, -⟩
    · exact .inl hc
    · exact .inr hc
    · exact absurd (List.mem_of_getElem? hc) (hplain.not_mem hpair).1
  · rintro (h | h)
    · exact ⟨_, (getElem?_between hn).trans h, .inl rfl⟩
    · exact ⟨_, (getElem?_between hn).trans h, .inr (.inl rfl)⟩

theorem fieldAt_shared_iff (htwo : ∀ value ∈ first :: others, ∃ value' ∈ first :: others, value' ≠ value)
    (hplain : ∀ value ∈ first :: others, IsPlain value) (hpair : pair ∈ delimiters) :
    (key.length + 1 + n < commonLength (between key pair first) (others.map (between key pair)) ∧
        FieldAt (between key pair first) back (key.length + 1 + n)) ↔
      SharesKey (first :: others) (n + 1) := by
  have hclosing : ∀ value ∈ first :: others, pair.2 ∉ value := fun value hvalue =>
    ((hplain value hvalue).not_mem hpair).2
  rw [← Nat.succ_le_iff, le_commonLength_iff, ← List.map_cons (f := between key pair), Nat.succ_eq_add_one,
    Nat.add_assoc, exists_shared_prefix_iff htwo (List.cons_ne_nil _ _) hclosing]
  -- the last of the characters that are shared is the one at which a field may begin
  have hlast : ∀ part : List Char, part.length = n + 1 → part <+: first →
      (FieldAt (between key pair first) back (key.length + 1 + n) ↔
        part.getLast? = some '=' ∨ part.getLast? = some ':') := by
    intro part hlength hpart
    have hn : n < first.length := by
      have hle := hpart.length_le
      omega
    rw [fieldAt_value_iff (hplain first List.mem_cons_self) hn, List.getLast?_eq_getElem?, hlength,
      Nat.add_one_sub_one]
    obtain ⟨rest, rfl⟩ := hpart
    rw [List.getElem?_append_left (by omega)]
  constructor
  · rintro ⟨⟨part, hlength, hpart⟩, hfield⟩
    exact ⟨part, hlength, (hlast part hlength (hpart first List.mem_cons_self)).mp hfield, hpart⟩
  · rintro ⟨part, hlength, hsep, hpart⟩
    exact ⟨⟨part, hlength, hpart⟩, (hlast part hlength (hpart first List.mem_cons_self)).mpr hsep⟩

theorem begins_opening (hpair : pair ∈ delimiters) (value : List Char) :
    Begins (between key pair value) (back + 1) key.length { front := key.length + 1, back := 1 } := by
  have hopening : FieldAt (between key pair value) (back + 1) key.length := fieldAt_opening hpair value
  obtain ⟨c, hc, hfield⟩ := hopening
  obtain rfl : c = pair.1 := by simpa [between, eq_comm] using hc
  rcases hfield with hsep | hsep | ⟨close, hclose, hmem⟩
  · exact absurd (.inl hsep) (ne_separator_of_mem_delimiters hpair)
  · exact absurd (.inr hsep) (ne_separator_of_mem_delimiters hpair)
  · rw [← closer?_eq_some_iff] at hclose
    obtain rfl : pair.2 = close := Option.some.inj ((closer?_eq_some_iff.mpr hpair).symm.trans hclose)
    refine .delimiter hc hpair hmem ⟨⟨[], rfl, suffix_between key pair value⟩, ?_⟩
    rintro n ⟨tail, rfl, -⟩
    exact Nat.succ_le_succ (Nat.zero_le _)

section Last

variable (hpair : pair ∈ delimiters) (htwo : ∀ value ∈ first :: others, ∃ value' ∈ first :: others, value' ≠ value)
  (hplain : ∀ value ∈ first :: others, IsPlain value)

include hpair htwo hplain

theorem lt_commonLength_between :
    key.length < commonLength (between key pair first) (others.map (between key pair)) := by
  have hclosing : ∀ value ∈ first :: others, pair.2 ∉ value := fun value hvalue =>
    ((hplain value hvalue).not_mem hpair).2
  refine le_commonLength_iff.mpr ?_
  rw [← List.map_cons (f := between key pair)]
  exact (exists_shared_prefix_iff (n := 0) htwo (List.cons_ne_nil _ _) hclosing).mpr
    ⟨[], rfl, fun value _ => List.nil_prefix⟩

/-- Unless the values share a key, the last field begins at the opening delimiter. -/
theorem isGreatest_field_opening (hno : ∀ n, ¬SharesKey (first :: others) n) :
    IsGreatest {j | j < commonLength (between key pair first) (others.map (between key pair)) ∧
      FieldAt (between key pair first) (back + 1) j} key.length := by
  refine ⟨⟨lt_commonLength_between hpair htwo hplain, fieldAt_opening hpair first⟩, fun j hj => ?_⟩
  by_contra hlt
  obtain ⟨n, rfl⟩ := Nat.exists_eq_add_of_le (Nat.succ_le_of_lt (Nat.lt_of_not_le hlt))
  exact hno (n + 1) ((fieldAt_shared_iff htwo hplain hpair).mp hj)

/-- If they do, it begins at the end of the longest one. -/
theorem isGreatest_field_key {n : Nat} (hn : IsGreatest {n | SharesKey (first :: others) n} n) :
    IsGreatest {j | j < commonLength (between key pair first) (others.map (between key pair)) ∧
      FieldAt (between key pair first) (back + 1) j} (key.length + n) := by
  obtain ⟨m, rfl⟩ := Nat.exists_eq_add_one_of_ne_zero hn.1.ne_zero
  constructor
  · rw [← Nat.add_assoc, Nat.add_right_comm]
    exact (fieldAt_shared_iff htwo hplain hpair).mpr hn.1
  · intro j hj
    by_contra hlt
    obtain ⟨k, rfl⟩ := Nat.exists_eq_add_of_le (show key.length + 1 ≤ j by omega)
    have hle := hn.2 ((fieldAt_shared_iff htwo hplain hpair).mp hj)
    omega

end Last

theorem begins_key {n : Nat} (hn : SharesKey (first :: others) n) :
    Begins (between key pair first) (back + 1) (key.length + n)
      { front := key.length + n + 1, back := back + 1 } := by
  obtain ⟨m, rfl⟩ := Nat.exists_eq_add_one_of_ne_zero hn.ne_zero
  have hm := hn.le_length first List.mem_cons_self
  obtain ⟨part, hlength, hsep, hpart⟩ := hn
  obtain ⟨rest, rfl⟩ := hpart first List.mem_cons_self
  have hget : (between key pair (part ++ rest))[key.length + (m + 1)]? = part.getLast? := by
    rw [Nat.add_comm m, ← Nat.add_assoc, getElem?_between (by omega), List.getElem?_append_left (by omega),
      List.getLast?_eq_getElem?, hlength, Nat.add_one_sub_one]
  exact .separator (by rwa [hget])

end Fields

section Words

variable {key first : List Char} {pair : Char × Char} {others : List (List Char)} {back shortest : Nat}
  (hpair : pair ∈ delimiters) (htwo : ∀ value ∈ first :: others, ∃ value' ∈ first :: others, value' ≠ value)
  (hplain : ∀ value ∈ first :: others, IsPlain value)
  (hback : IsGreatest {n | ∃ part : List Char, part.length = n ∧ ∀ value ∈ first :: others, part <:+ value} back)
  (hshortest : IsLeast {n | ∃ value ∈ first :: others, value.length = n} shortest)

include hpair htwo hplain hback hshortest

theorem ofChars_between {j : Nat} {a : Affixes}
    (hj : IsGreatest {j | j < commonLength (between key pair first) (others.map (between key pair)) ∧
      FieldAt (between key pair first) (back + 1) j} j)
    (ha : Begins (between key pair first) (back + 1) j a) :
    ofChars (between key pair first) (others.map (between key pair)) =
      { a with back := min a.back (key.length + shortest + 2 - a.front) } := by
  have hopening : ∀ value ∈ first :: others, pair.1 ∉ value := fun value hvalue =>
    ((hplain value hvalue).not_mem hpair).1
  have hlength : (commonLength (between key pair first).reverse ((others.map (between key pair)).map List.reverse)) =
      back + 1 :=
    (isGreatest_commonLength_reverse _ _).unique (isGreatest_shared_suffix htwo hopening hback)
  have hleast : (others.map (between key pair)).foldl (fun n word => min n word.length)
      (between key pair first).length = key.length + shortest + 2 := by
    refine (isLeast_foldl_min List.length _ _).unique ?_
    rw [← List.map_cons (f := between key pair)]
    constructor
    · obtain ⟨value, hvalue, rfl⟩ := hshortest.1
      exact ⟨_, List.mem_map_of_mem hvalue, length_between key pair value⟩
    · rintro n ⟨word, hword, rfl⟩
      obtain ⟨value, hvalue, rfl⟩ := List.mem_map.mp hword
      have hle := hshortest.2 ⟨value, hvalue, rfl⟩
      rw [length_between]
      omega
  rw [← cut_iff.mp (hlength ▸ Cut.field hj ha), hleast]

end Words

/-- Different values between the same delimiters are divided at the delimiters if and only if they share no key.
If they do, the front goes on to the end of the longest one, and the back is as long as it can be. -/
theorem ofWords_delimited {pair : Char × Char} (hpair : pair ∈ delimiters) (key : String) {values : List String}
    (hlength : 2 ≤ values.length) (hnodup : values.Nodup)
    (hplain : ∀ value ∈ values, IsPlain value.toList) :
    let words := values.map (delimited key pair)
    let chars := values.map String.toList
    (ofWords words = .ok { front := key.length + 1, back := 1 } ↔ ∀ n, ¬SharesKey chars n) ∧
      ∀ n back shortest, IsGreatest {n | SharesKey chars n} n →
        IsGreatest {n | ∃ part : List Char, part.length = n ∧ ∀ value ∈ chars, part <:+ value} back →
        IsLeast {n | ∃ value ∈ chars, value.length = n} shortest →
        ofWords words = .ok { front := key.length + 1 + n, back := min (back + 1) (shortest + 1 - n) } := by
  intro words chars
  obtain ⟨first, others, rfl⟩ := List.exists_cons_of_length_pos (Nat.lt_of_lt_of_le Nat.zero_lt_two hlength)
  have hwords : ofWords words = .ok (ofChars (between key.toList pair first.toList)
      ((others.map String.toList).map (between key.toList pair))) := by
    simp only [words, List.map_cons, ofWords, List.map_map, toList_delimited, Function.comp_def]
  have htwo : ∀ value ∈ chars, ∃ value' ∈ chars, value' ≠ value :=
    exists_ne_of_nodup (by rwa [List.length_map]) (List.Nodup.map (fun _ _ => String.toList_inj.mp) hnodup)
  have hplain : ∀ value ∈ chars, IsPlain value := List.forall_mem_map.mpr hplain
  have hkey : ∀ n back shortest, IsGreatest {n | SharesKey chars n} n →
      IsGreatest {n | ∃ part : List Char, part.length = n ∧ ∀ value ∈ chars, part <:+ value} back →
      IsLeast {n | ∃ value ∈ chars, value.length = n} shortest →
      ofWords words = .ok { front := key.length + 1 + n, back := min (back + 1) (shortest + 1 - n) } := by
    intro n back shortest hn hback hshortest
    rw [hwords, ofChars_between hpair htwo hplain hback hshortest (isGreatest_field_key hpair htwo hplain hn)
      (begins_key hn.1), String.length_toList, Except.ok.injEq, Affixes.mk.injEq]
    dsimp only
    exact ⟨by omega, congrArg (min (back + 1)) (by omega)⟩
  refine ⟨⟨fun hopening n hn => ?_, fun hno => ?_⟩, hkey⟩
  · have hbounded : BddAbove {n | SharesKey chars n} :=
      ⟨first.toList.length, fun m hm => hm.le_length _ List.mem_cons_self⟩
    have hgreatest : IsGreatest {n | SharesKey chars n} (sSup {n | SharesKey chars n}) :=
      ⟨Nat.sSup_mem ⟨n, hn⟩ hbounded, fun m hm => le_csSup hbounded hm⟩
    rw [hkey _ _ _ hgreatest (isGreatest_commonLength_reverse _ _) (isLeast_foldl_min List.length _ _),
      Except.ok.injEq, Affixes.mk.injEq] at hopening
    have hne := hgreatest.1.ne_zero
    omega
  · have hshortest := isLeast_foldl_min List.length first.toList (others.map String.toList)
    rw [hwords, ofChars_between hpair htwo hplain (isGreatest_commonLength_reverse _ _) hshortest
      (isGreatest_field_opening hpair htwo hplain hno) (begins_opening hpair _), String.length_toList,
      Except.ok.injEq, Affixes.mk.injEq]
    exact ⟨rfl, min_eq_left (by dsimp only; omega)⟩

/-- The values in brackets begin with different keys. -/
theorem ofWords_delimited_of_two_values :
    ('[', ']') ∈ delimiters ∧ 2 ≤ ["a=1", "b=1"].length ∧ ["a=1", "b=1"].Nodup ∧
      (∀ value ∈ ["a=1", "b=1"], IsPlain value.toList) ∧ (∀ n, ¬SharesKey (["a=1", "b=1"].map String.toList) n) ∧
      ofWords (["a=1", "b=1"].map (delimited "x:" ('[', ']'))) = .ok { front := 3, back := 1 } := by
  have hplain : ∀ value ∈ ["a=1", "b=1"], IsPlain value.toList := by decide
  have hno : ∀ n, ¬SharesKey (["a=1", "b=1"].map String.toList) n := by
    rintro n ⟨key, -, hsep, hkey⟩
    obtain ⟨rest, ha⟩ := hkey ['a', '=', '1'] List.mem_cons_self
    obtain ⟨rest', hb⟩ := hkey ['b', '=', '1'] (List.mem_cons_of_mem _ List.mem_cons_self)
    cases key with
    | nil => simp at hsep
    | cons c key =>
        have hc : c = 'a' := (List.cons.inj ha).1
        have hc' : c = 'b' := (List.cons.inj hb).1
        exact absurd (hc.symm.trans hc') (by decide)
  have hpair : ('[', ']') ∈ delimiters := by decide
  exact ⟨hpair, by decide, by decide, hplain, hno,
    (ofWords_delimited hpair "x:" (by decide) (by decide) hplain).1.mpr hno⟩

/-- Two values in quotes begin with the same key, and are cut behind it. -/
theorem not_delimited_of_two_values :
    ¬∀ pair ∈ delimiters, ∀ (key : String) (values : List String), 2 ≤ values.length → values.Nodup →
      (∀ value ∈ values, IsPlain value.toList) →
        ofWords (values.map (delimited key pair)) = .ok { front := key.length + 1, back := 1 } := by
  intro h
  have hplain : ∀ value ∈ ["a=1", "a=2"], IsPlain value.toList := by decide
  have hcut : ofWords (["a=1", "a=2"].map (delimited "" ('"', '"'))) = .ok { front := 3, back := 1 } := by
    decide +kernel
  have hwhole := h ('"', '"') (by decide) "" ["a=1", "a=2"] (by decide) (by decide) hplain
  rw [hcut] at hwhole
  exact absurd hwhole (by decide)

end LogMining.Affixes
