import LogMining.Proofs.Refine.Affixes
import Mathlib.Data.List.Infix
import Mathlib.Order.Bounds.Basic

/-!
# The longest affixes and the last field

What `Affixes.ofWords` finds is told without reference to how it is found: the longest front and the longest
back that the words share, the last place within the front at which a field begins, and the length of the
shortest word, which keeps front and back apart.
-/

namespace LogMining

section Shared

variable {base : List Char} {others : List (List Char)}

theorem le_zero_iff_of_shared {left right : List Char} {n : Nat}
    (h : ∀ front, front <+: left → front <+: right → front = []) :
    n ≤ 0 ↔ ∃ front, front.length = n ∧ front <+: left ∧ front <+: right := by
  rw [Nat.le_zero]
  constructor
  · rintro rfl
    exact ⟨[], rfl, List.nil_prefix, List.nil_prefix⟩
  · rintro ⟨front, rfl, hleft, hright⟩
    rw [h front hleft hright, List.length_nil]

theorem le_sharedLength_iff {left right : List Char} {n : Nat} :
    n ≤ sharedLength left right ↔ ∃ front, front.length = n ∧ front <+: left ∧ front <+: right := by
  fun_induction sharedLength left right generalizing n with
  | case1 left d right ih =>
      cases n with
      | zero => exact iff_of_true (Nat.zero_le _) ⟨[], rfl, List.nil_prefix, List.nil_prefix⟩
      | succ n =>
          rw [Nat.succ_le_succ_iff, ih]
          constructor
          · rintro ⟨front, hlength, hleft, hright⟩
            exact ⟨d :: front, congrArg Nat.succ hlength, (List.prefix_cons_inj d).mpr hleft,
              (List.prefix_cons_inj d).mpr hright⟩
          · rintro ⟨front, hlength, hleft, hright⟩
            obtain ⟨c, front, rfl⟩ := List.exists_cons_of_length_eq_add_one hlength
            exact ⟨front, Nat.succ.inj hlength, (List.cons_prefix_cons.mp hleft).2,
              (List.cons_prefix_cons.mp hright).2⟩
  | case2 c left d right hne =>
      refine le_zero_iff_of_shared fun front hleft hright => ?_
      cases front with
      | nil => rfl
      | cons e front =>
          exact absurd ((List.cons_prefix_cons.mp hleft).1.symm.trans (List.cons_prefix_cons.mp hright).1) hne
  | case3 left right hnil =>
      refine le_zero_iff_of_shared fun front hleft hright => ?_
      cases front with
      | nil => rfl
      | cons e front =>
          obtain ⟨left, rfl⟩ := hleft
          obtain ⟨right, rfl⟩ := hright
          exact (hnil e _ e _ rfl rfl).elim

theorem le_commonLength_iff {n : Nat} :
    n ≤ commonLength base others ↔
      ∃ front, front.length = n ∧ ∀ word ∈ base :: others, front <+: word := by
  rw [commonLength, le_foldl_min_iff]
  constructor
  · rintro ⟨hbase, hothers⟩
    refine ⟨base.take n, List.length_take_of_le hbase, List.forall_mem_cons.mpr
      ⟨List.take_prefix n base, fun word hword => ?_⟩⟩
    obtain ⟨front, rfl, hfront, hword⟩ := le_sharedLength_iff.mp (hothers word hword)
    rwa [← List.prefix_iff_eq_take.mp hfront]
  · rintro ⟨front, rfl, hfront⟩
    obtain ⟨hbase, hothers⟩ := List.forall_mem_cons.mp hfront
    exact ⟨hbase.length_le, fun word hword => le_sharedLength_iff.mpr ⟨front, rfl, hbase, hothers word hword⟩⟩

theorem isGreatest_commonLength (base : List Char) (others : List (List Char)) :
    IsGreatest {n | ∃ front : List Char, front.length = n ∧ ∀ word ∈ base :: others, front <+: word}
      (commonLength base others) :=
  ⟨le_commonLength_iff.mp le_rfl, fun _ hn => le_commonLength_iff.mpr hn⟩

/-- The longest back that words share, which is the longest front of the words read backwards. -/
theorem isGreatest_commonLength_reverse (base : List Char) (others : List (List Char)) :
    IsGreatest {n | ∃ back : List Char, back.length = n ∧ ∀ word ∈ base :: others, back <:+ word}
      (commonLength base.reverse (others.map List.reverse)) := by
  have hback : ∀ n, (∃ back : List Char, back.length = n ∧ ∀ word ∈ base :: others, back <:+ word) ↔
      n ≤ commonLength base.reverse (others.map List.reverse) := by
    intro n
    rw [le_commonLength_iff, ← List.map_cons]
    constructor
    · rintro ⟨back, rfl, hback⟩
      refine ⟨back.reverse, List.length_reverse, List.forall_mem_map.mpr fun word hword => ?_⟩
      exact List.reverse_prefix.mpr (hback word hword)
    · rintro ⟨front, rfl, hfront⟩
      refine ⟨front.reverse, List.length_reverse, fun word hword => ?_⟩
      have hword := List.forall_mem_map.mp hfront word hword
      rwa [← List.reverse_prefix, List.reverse_reverse]
  exact ⟨(hback _).mpr le_rfl, fun n hn => (hback n).mp hn⟩

theorem isLeast_foldl_min {α : Type} (f : α → Nat) (a : α) (more : List α) :
    IsLeast {n | ∃ b ∈ a :: more, f b = n} (more.foldl (fun m b => min m (f b)) (f a)) := by
  have hmem : ∀ init, more.foldl (fun m b => min m (f b)) init = init ∨
      ∃ b ∈ more, f b = more.foldl (fun m b => min m (f b)) init := by
    induction more with
    | nil => exact fun init => .inl rfl
    | cons b more ih =>
        intro init
        rw [List.foldl_cons]
        rcases ih (min init (f b)) with hinit | ⟨c, hc, heq⟩
        · rw [hinit]
          rcases min_choice init (f b) with h | h
          · exact .inl h
          · exact .inr ⟨b, List.mem_cons_self, h.symm⟩
        · exact .inr ⟨c, List.mem_cons_of_mem b hc, heq⟩
  constructor
  · rcases hmem (f a) with h | ⟨b, hb, h⟩
    · exact ⟨a, List.mem_cons_self, h.symm⟩
    · exact ⟨b, List.mem_cons_of_mem a hb, h⟩
  · rintro n ⟨b, hb, rfl⟩
    obtain ⟨ha, hmore⟩ := (le_foldl_min_iff f more (f a) _).mp le_rfl
    rcases List.mem_cons.mp hb with rfl | hb
    · exact ha
    · exact hmore b hb

end Shared

namespace Affixes

/-- The delimiters that open a value, each with the one that closes it. -/
def delimiters : List (Char × Char) := [('"', '"'), ('\'', '\''), ('[', ']'), ('(', ')'), ('<', '>')]

/-- A field begins at a place of a word, so that the front must not go on past it: the character there separates
a key from its value, or it opens a value that is closed within the last `back` characters. -/
def FieldAt (word : List Char) (back j : Nat) : Prop :=
  ∃ c, word[j]? = some c ∧ (c = '=' ∨ c = ':' ∨
    ∃ close, (c, close) ∈ delimiters ∧ close ∈ word.drop (word.length - back))

/-- The affixes of a field that begins at a place of a word. A delimited value goes on to the last place at
which it can be closed. -/
inductive Begins (word : List Char) (back j : Nat) : Affixes → Prop
  | separator (h : word[j]? = some '=' ∨ word[j]? = some ':') : Begins word back j { front := j + 1, back }
  | delimiter {c close : Char} {n : Nat} (hopen : word[j]? = some c) (hpair : (c, close) ∈ delimiters)
      (hclose : close ∈ word.drop (word.length - back))
      (hn : IsLeast {n | ∃ tail, (close :: tail).length = n ∧ close :: tail <:+ word} n) :
      Begins word back j { front := j + 1, back := n }

/-- What is cut off a word that shares a front and a back of the given lengths with others, of which the
shortest one has the given length. -/
inductive Cut (word : List Char) (front back shortest : Nat) : Affixes → Prop
  | whole (h : ∀ j < front, ¬FieldAt word back j) :
      Cut word front back shortest { front, back := min back (shortest - front) }
  | field {j : Nat} {a : Affixes} (h : IsGreatest {j | j < front ∧ FieldAt word back j} j)
      (hbegins : Begins word back j a) :
      Cut word front back shortest { a with back := min a.back (shortest - a.front) }

theorem closer?_eq_some_iff {c close : Char} : closer? c = some close ↔ (c, close) ∈ delimiters := by
  unfold closer? delimiters
  split <;> simp_all [eq_comm]

theorem isSeparator_iff {c : Char} : isSeparator c = true ↔ c = '=' ∨ c = ':' := by
  simp [isSeparator]

theorem ne_separator_of_mem_delimiters {c close : Char} (h : (c, close) ∈ delimiters) :
    ¬(c = '=' ∨ c = ':') := by
  rintro (rfl | rfl) <;> simp [delimiters] at h

variable {word : List Char} {back j : Nat} {a : Affixes}

theorem Begins.unique {a' : Affixes} (h : Begins word back j a) (h' : Begins word back j a') : a = a' := by
  cases h with
  | separator h =>
      cases h' with
      | separator => rfl
      | delimiter hopen hpair =>
          refine absurd ?_ (ne_separator_of_mem_delimiters hpair)
          simpa [hopen] using h
  | delimiter hopen hpair hclose hn =>
      cases h' with
      | separator h =>
          refine absurd ?_ (ne_separator_of_mem_delimiters hpair)
          simpa [hopen] using h
      | delimiter hopen' hpair' hclose' hn' =>
          obtain rfl := Option.some.inj (hopen.symm.trans hopen')
          rw [← closer?_eq_some_iff] at hpair hpair'
          obtain rfl := Option.some.inj (hpair.symm.trans hpair')
          rw [hn.unique hn']

theorem Begins.fieldAt (h : Begins word back j a) : FieldAt word back j := by
  cases h with
  | separator h =>
      rcases h with h | h
      · exact ⟨_, h, .inl rfl⟩
      · exact ⟨_, h, .inr (.inl rfl)⟩
  | delimiter hopen hpair hclose hn => exact ⟨_, hopen, .inr (.inr ⟨_, hpair, hclose⟩)⟩

theorem exists_suffix_iff {c : Char} {n : Nat} :
    (∃ tail, (c :: tail).length = n ∧ c :: tail <:+ word) ↔ ∃ i, n = i + 1 ∧ word.reverse[i]? = some c := by
  constructor
  · rintro ⟨tail, rfl, before, rfl⟩
    refine ⟨tail.length, rfl, ?_⟩
    simp
  · rintro ⟨i, rfl, hi⟩
    obtain ⟨hlt, hget⟩ := List.getElem?_eq_some_iff.mp hi
    rw [List.length_reverse] at hlt
    rw [List.getElem_reverse] at hget
    have hdrop := List.drop_eq_getElem_cons (l := word) (i := word.length - 1 - i) (by omega)
    rw [hget] at hdrop
    refine ⟨_, ?_, hdrop ▸ List.drop_suffix _ word⟩
    rw [List.length_cons, List.length_drop]
    omega

/-- The back of a word, read backwards, ends with the shortest end of the word that begins with a character. -/
theorem endWith?_eq_some {c : Char} {n : Nat} (h : endWith? c (word.reverse.take back) = some n) :
    c ∈ word.drop (word.length - back) ∧
      IsLeast {n | ∃ tail, (c :: tail).length = n ∧ c :: tail <:+ word} n := by
  rw [endWith?, Option.map_eq_some_iff] at h
  obtain ⟨i, hi, rfl⟩ := h
  obtain ⟨hlt, hc, hfirst⟩ := List.findIdx?_eq_some_iff_getElem.mp hi
  rw [beq_iff_eq] at hc
  refine ⟨?_, ?_, ?_⟩
  · have hmem := List.getElem_mem hlt
    rwa [hc, List.take_reverse, List.mem_reverse] at hmem
  · refine exists_suffix_iff.mpr ⟨i, rfl, ?_⟩
    rw [← hc, List.getElem_take, List.getElem?_eq_getElem]
  · intro m hm
    obtain ⟨k, rfl, hk⟩ := exists_suffix_iff.mp hm
    by_contra hlt'
    have hki : k < i := by omega
    have hklt : k < word.reverse.length := (List.getElem?_eq_some_iff.mp hk).1
    refine hfirst k hki ?_
    rw [beq_iff_eq, List.getElem_take, ← Option.some.injEq, ← List.getElem?_eq_getElem hklt, hk]

theorem endWith?_eq_none {c : Char} (h : endWith? c (word.reverse.take back) = none) :
    c ∉ word.drop (word.length - back) := by
  rw [endWith?, Option.map_eq_none_iff, List.findIdx?_eq_none_iff] at h
  intro hmem
  rw [← List.mem_reverse, ← List.take_reverse] at hmem
  exact absurd (h c hmem) (by simp)

/-- At the last place of a front, either a field begins, at which the front is cut, or the place before it is
looked at. -/
theorem fieldCut?_cons {c : Char} {before : List Char} (hback : back ≤ word.length)
    (hc : word[before.length]? = some c) :
    (∃ a, Begins word back before.length a ∧
      fieldCut? (word.reverse.take back) (c :: before) = some a) ∨
    ¬FieldAt word back before.length ∧
      fieldCut? (word.reverse.take back) (c :: before) = fieldCut? (word.reverse.take back) before := by
  rw [fieldCut?]
  cases hcloser : closer? c with
  | some close =>
      have hpair := closer?_eq_some_iff.mp hcloser
      cases hend : endWith? close (word.reverse.take back) with
      | some n =>
          obtain ⟨hclose, hn⟩ := endWith?_eq_some hend
          exact .inl ⟨_, .delimiter hc hpair hclose hn, by simp only [hend]⟩
      | none =>
          refine .inr ⟨?_, by simp only [hend]⟩
          rintro ⟨c', hc', hfield⟩
          obtain rfl := Option.some.inj (hc.symm.trans hc')
          rcases hfield with h | h | ⟨close', hpair', hclose⟩
          · exact ne_separator_of_mem_delimiters hpair (.inl h)
          · exact ne_separator_of_mem_delimiters hpair (.inr h)
          · rw [← closer?_eq_some_iff, hcloser, Option.some.injEq] at hpair'
            exact endWith?_eq_none hend (hpair' ▸ hclose)
  | none =>
      by_cases hsep : isSeparator c = true
      · have hlength : (word.reverse.take back).length = back := by
          rw [List.length_take, List.length_reverse, min_eq_left hback]
        have hbegins : Begins word back before.length { front := before.length + 1, back } := by
          refine .separator ?_
          rw [hc, Option.some_inj, Option.some_inj]
          exact isSeparator_iff.mp hsep
        exact .inl ⟨_, hbegins, by simp only [if_pos hsep, hlength]⟩
      · refine .inr ⟨?_, by simp only [if_neg hsep]⟩
        rintro ⟨c', hc', hfield⟩
        obtain rfl := Option.some.inj (hc.symm.trans hc')
        rcases hfield with h | h | ⟨close, hpair, -⟩
        · exact hsep (isSeparator_iff.mpr (.inl h))
        · exact hsep (isSeparator_iff.mpr (.inr h))
        · rw [← closer?_eq_some_iff, hcloser] at hpair
          cases hpair

theorem fieldCut?_cases {front : Nat} (hfront : front ≤ word.length) (hback : back ≤ word.length) :
    (fieldCut? (word.reverse.take back) (word.take front).reverse = none ∧
      ∀ j < front, ¬FieldAt word back j) ∨
    ∃ j a, fieldCut? (word.reverse.take back) (word.take front).reverse = some a ∧
      IsGreatest {j | j < front ∧ FieldAt word back j} j ∧ Begins word back j a := by
  induction front with
  | zero => exact .inl ⟨rfl, fun j hj => absurd hj (Nat.not_lt_zero j)⟩
  | succ k ih =>
      have hlength : (word.take k).reverse.length = k := by
        rw [List.length_reverse, List.length_take_of_le (by omega)]
      have hc : word[(word.take k).reverse.length]? = some word[k] := by
        rw [hlength, List.getElem?_eq_getElem]
      have hstep := fieldCut?_cons hback hc
      rw [hlength] at hstep
      rw [List.take_succ_eq_append_getElem hfront, List.reverse_append, List.reverse_singleton,
        List.singleton_append]
      rcases hstep with ⟨a, hbegins, hcut⟩ | ⟨hnot, hcut⟩
      · exact .inr ⟨k, a, hcut, ⟨⟨Nat.lt_succ_self k, hbegins.fieldAt⟩, fun j hj => Nat.le_of_lt_succ hj.1⟩,
          hbegins⟩
      · -- no field begins at the last place, so the one before the others decides
        have hlt : ∀ j, j < k + 1 → FieldAt word back j → j < k := by
          intro j hj hfield
          refine lt_of_le_of_ne (Nat.le_of_lt_succ hj) ?_
          rintro rfl
          exact hnot hfield
        rw [hcut]
        rcases ih (by omega) with ⟨hnone, hno⟩ | ⟨j, a, hsome, hj, hbegins⟩
        · exact .inl ⟨hnone, fun j hj hfield => hno j (hlt j hj hfield) hfield⟩
        · exact .inr ⟨j, a, hsome, ⟨⟨Nat.lt_succ_of_lt hj.1.1, hj.1.2⟩,
            fun j' hj' => hj.2 ⟨hlt j' hj'.1 hj'.2, hj'.2⟩⟩, hbegins⟩

/-- The affixes of words are the ones that are cut off the first of them, and no other ones. -/
theorem cut_iff {others : List (List Char)} {a : Affixes} :
    Cut word (commonLength word others) (commonLength word.reverse (others.map List.reverse))
      (others.foldl (fun n other => min n other.length) word.length) a ↔ a = ofChars word others := by
  have hfront := (commonLength_le word others).1
  have hback := (commonLength_le word.reverse (others.map List.reverse)).1
  rw [List.length_reverse] at hback
  rw [ofChars]
  generalize commonLength word others = front at hfront ⊢
  generalize commonLength word.reverse (others.map List.reverse) = back at hback ⊢
  generalize others.foldl (fun n other => min n other.length) word.length = shortest
  rcases fieldCut?_cases hfront hback with ⟨hcut, hno⟩ | ⟨j, b, hcut, hj, hbegins⟩
  · constructor
    · intro h
      cases h with
      | whole => rw [hcut]; rfl
      | field hj _ => exact absurd hj.1.2 (hno _ hj.1.1)
    · rintro rfl
      rw [hcut]
      exact .whole hno
  · constructor
    · intro h
      cases h with
      | whole hno => exact absurd hj.1.2 (hno _ hj.1.1)
      | field hj' hbegins' =>
          obtain rfl := hj.unique hj'
          rw [hcut, hbegins.unique hbegins']
          rfl
    · rintro rfl
      rw [hcut]
      exact .field hj hbegins

/-- The affixes of words are told by the longest front and the longest back that the words share, by the last
field that begins within that front and by the length of the shortest word. What is cut off is the same for all
of the words, and leaves a middle of each. -/
theorem exists_ofWords_eq (base : String) (others : List String) :
    let words := (base :: others).map String.toList
    ∃ a front back shortest, ofWords (base :: others) = .ok a ∧
      IsGreatest {n | ∃ p : List Char, p.length = n ∧ ∀ word ∈ words, p <+: word} front ∧
      IsGreatest {n | ∃ s : List Char, s.length = n ∧ ∀ word ∈ words, s <:+ word} back ∧
      IsLeast {n | ∃ word ∈ words, word.length = n} shortest ∧
      (∀ a', Cut base.toList front back shortest a' ↔ a' = a) ∧
      ∃ p s : List Char, p.length = a.front ∧ s.length = a.back ∧
        ∀ word ∈ words, ∃ middle, word = p ++ middle ++ s := by
  intro words
  have hwords : words = base.toList :: others.map String.toList := rfl
  have hbase := front_add_back_ofChars_le
    (List.mem_cons_self : base.toList ∈ base.toList :: others.map String.toList)
  rw [hwords]
  refine ⟨ofChars base.toList (others.map String.toList), _, _, _, rfl, isGreatest_commonLength _ _,
    isGreatest_commonLength_reverse _ _, isLeast_foldl_min List.length _ _, fun a' => cut_iff,
    _, _, List.length_take_of_le (by omega), ?_, fun word hword => ⟨_, eq_append_of_ofChars hword⟩⟩
  rw [List.length_drop]
  omega

/-- The front stops before the quoted value, and the back begins with the last quote. -/
example : ofWords ["k=\"a-1\";", "k=\"a-2\";"] = .ok { front := 3, back := 2 } := by decide +kernel

end Affixes

end LogMining
