import LogMining.Proofs.Growth.Members

/-!
# Tallies of lines

`Slots.Accounts` says that the line ends of a node and the slots below it count the lines that came there:
each line that goes on does so with a word of exactly one slot, each value counts the lines that go on
with it, and below a slot the rests of these lines are counted in the same way. Inserting a line adds it
to what is counted.
-/

namespace LogMining.Slots

/-- What remains of the lines that begin with one of the words. -/
def through (words : List String) (lines : List (List String)) : List (List String) :=
  lines.filterMap fun
    | [] => none
    | word :: rest => if word ∈ words then some rest else none

/-- No word is in two slots of a chain, and every line that does not end goes on with a word of the
chain. -/
structure Covers (slots : Slots) (lines : List (List String)) : Prop where
  nodup : slots.words.Nodup
  mem : ∀ word rest, word :: rest ∈ lines → word ∈ slots.words

def Tallies : Slots → List (List String) → Prop
  | nil, _ => True
  | slot _ values ends below beside, lines =>
    (∀ t ∈ values, t.occurs = lines.countP fun line => line.head? = some t.word) ∧
      ends = (through (values.map Token.word) lines).count [] ∧
      below.Covers (through (values.map Token.word) lines) ∧
      below.Tallies (through (values.map Token.word) lines) ∧ beside.Tallies lines

/-- The line ends of a node and the chain below it count lines. -/
structure Accounts (p : Int × Slots) (lines : List (List String)) : Prop where
  ends : p.1 = lines.count []
  covers : p.2.Covers lines
  tallies : p.2.Tallies lines

variable {slots rest : Slots} {lines : List (List String)} {word : String} {line : List String}
  {id : Nat} {values : List Token} {ends : Int} {below beside : Slots}

theorem tallies_slot :
    (slot id values ends below beside).Tallies lines ↔
      (∀ t ∈ values, t.occurs = lines.countP fun line => line.head? = some t.word) ∧
        Accounts (ends, below) (through (values.map Token.word) lines) ∧ beside.Tallies lines := by
  constructor
  · rintro ⟨hvalues, hends, hcovers, hbelow, hbeside⟩
    exact ⟨hvalues, ⟨hends, hcovers, hbelow⟩, hbeside⟩
  · rintro ⟨hvalues, ⟨hends, hcovers, hbelow⟩, hbeside⟩
    exact ⟨hvalues, hends, hcovers, hbelow, hbeside⟩

theorem through_append_cons (words : List String) (h : word ∈ words) (line : List String) :
    through words (lines ++ [word :: line]) = through words lines ++ [line] := by
  simp [through, List.filterMap_append, h]

theorem through_append_of_not (words : List String) (h : ∀ w ∈ line.head?, w ∉ words) :
    through words (lines ++ [line]) = through words lines := by
  cases line with
  | nil => simp [through, List.filterMap_append]
  | cons w line => simp [through, List.filterMap_append, h w rfl]

theorem through_append_word (words : List String) (h : ∀ rest, word :: rest ∉ lines) :
    through (words ++ [word]) lines = through words lines := by
  apply List.filterMap_congr
  rintro (_ | ⟨w, line⟩) hline
  · rfl
  · have hne : w ≠ word := by
      rintro rfl
      exact h line hline
    simp [hne]

theorem through_nil (lines : List (List String)) : through [] lines = [] := by
  rw [through, List.filterMap_eq_nil_iff]
  rintro (_ | ⟨w, line⟩) _ <;> simp

theorem through_singleton_append (h : ∀ rest, word :: rest ∉ lines) (line : List String) :
    through [word] (lines ++ [word :: line]) = [line] := by
  have hthrough := through_append_word [] h
  rw [List.nil_append, through_nil] at hthrough
  rw [through_append_cons _ (List.mem_singleton_self word), hthrough, List.nil_append]

theorem mem_through_iff {words : List String} {rest : List String} :
    rest ∈ through words lines ↔ ∃ word ∈ words, word :: rest ∈ lines := by
  rw [through, List.mem_filterMap]
  constructor
  · rintro ⟨_ | ⟨word, line⟩, hline, hrest⟩
    · cases hrest
    · dsimp only at hrest
      split at hrest
      · next hword =>
        cases hrest
        exact ⟨word, hword, hline⟩
      · cases hrest
  · rintro ⟨word, hword, hline⟩
    exact ⟨word :: rest, hline, if_pos hword⟩

theorem tallies_iff : slots.Tallies lines ↔ ∀ m ∈ slots.members,
    (∀ t ∈ m.values, t.occurs = lines.countP fun line => line.head? = some t.word) ∧
      Accounts m.inside (through m.words lines) := by
  induction slots with
  | nil => simp [Tallies]
  | slot id values ends below beside _ ihBeside =>
      rw [tallies_slot, ihBeside, members_slot, List.forall_mem_cons, and_assoc]
      rfl

theorem countP_append_cons (word w : String) (line : List String) (lines : List (List String)) :
    ((lines ++ [word :: line]).countP fun line => line.head? = some w) =
      (lines.countP fun line => line.head? = some w) + if word = w then 1 else 0 := by
  simp [List.countP_append, List.countP_singleton]

theorem mem_countWord {t : Token} (h : t ∈ Tree.countWord word values)
    (hnodup : (values.map Token.word).Nodup) :
    (t.word = word ∧ ∃ u ∈ values, u.word = word ∧ t = { u with occurs := u.occurs + 1 }) ∨
      t.word ≠ word ∧ t ∈ values := by
  induction values with
  | nil => simp [Tree.countWord] at h
  | cons u values ih =>
      rw [List.map_cons, List.nodup_cons] at hnodup
      rw [Tree.countWord] at h
      split at h
      · next hu =>
        rcases List.mem_cons.mp h with rfl | ht
        · exact .inl ⟨hu, u, List.mem_cons_self, hu, rfl⟩
        · refine .inr ⟨?_, List.mem_cons_of_mem u ht⟩
          intro heq
          exact hnodup.1 (hu ▸ heq ▸ List.mem_map_of_mem ht)
      · next hu =>
        rcases List.mem_cons.mp h with rfl | ht
        · exact .inr ⟨hu, List.mem_cons_self⟩
        · rcases ih ht hnodup.2 with ⟨hword, v, hv, hvw, htv⟩ | ⟨hword, ht⟩
          · exact .inl ⟨hword, v, List.mem_cons_of_mem u hv, hvw, htv⟩
          · exact .inr ⟨hword, List.mem_cons_of_mem u ht⟩

theorem Covers.countP_eq_zero (h : slots.Covers lines) (hword : word ∉ slots.words) :
    (lines.countP fun line => line.head? = some word) = 0 := by
  rw [List.countP_eq_zero]
  rintro (_ | ⟨w, line⟩) hline
  · simp
  · have hmem := h.mem w line hline
    have hne : w ≠ word := by
      rintro rfl
      exact hword hmem
    simpa using hne

theorem occurs_append_of_not {line : List String} (hword : word ∉ values.map Token.word)
    (h : ∀ u ∈ values, u.occurs = lines.countP fun line => line.head? = some u.word) :
    ∀ u ∈ values, u.occurs = (lines ++ [word :: line]).countP fun line => line.head? = some u.word := by
  intro u hu
  have hne : word ≠ u.word := fun heq => hword (heq ▸ List.mem_map_of_mem hu)
  rw [countP_append_cons, if_neg hne, Nat.add_zero, h u hu]

theorem occurs_countWord {line : List String} (hnodup : (values.map Token.word).Nodup)
    (h : ∀ u ∈ values, u.occurs = lines.countP fun line => line.head? = some u.word) :
    ∀ u ∈ Tree.countWord word values,
      u.occurs = (lines ++ [word :: line]).countP fun line => line.head? = some u.word := by
  intro u hu
  rcases mem_countWord hu hnodup with ⟨huw, v, hv, hvw, rfl⟩ | ⟨huw, hu⟩
  · rw [countP_append_cons, if_pos hvw.symm, Int.natCast_add, ← h v hv]
    rfl
  · rw [countP_append_cons, if_neg huw.symm, Nat.add_zero, h u hu]

theorem accounts_nil : Accounts (0, nil) [] where
  ends := rfl
  covers := ⟨List.nodup_nil, by simp⟩
  tallies := trivial

section Grow

variable {members' : List Member} {t : Token} {next : Option String}
  {grown : Int × Slots → Int × Slots}

theorem Covers.enters {slots' : Slots} (h : slots.Covers lines)
    (henters : Enters t next grown slots.members slots'.members) :
    slots'.Covers (lines ++ [t.word :: line]) := by
  refine ⟨?_, ?_⟩
  · rw [← flatMap_words]
    apply henters.nodup_words
    rw [flatMap_words]
    exact h.nodup
  · intro w rest hmem
    rw [← flatMap_words, henters.mem_words_iff, flatMap_words]
    rcases List.mem_append.mp hmem with hmem | hmem
    · exact .inl (h.mem w rest hmem)
    · exact .inr (List.cons.inj (List.mem_singleton.mp hmem)).1

theorem Tallies.enters {slots' : Slots} (h : slots.Tallies lines) (hcovers : slots.Covers lines)
    (hone : t.occurs = 1) (henters : Enters t next grown slots.members slots'.members)
    (hgrown : ∀ {p lines}, Accounts p lines → Accounts (grown p) (lines ++ [line])) :
    slots'.Tallies (lines ++ [t.word :: line]) := by
  rw [tallies_iff] at h ⊢
  have hnodup := flatMap_words slots ▸ hcovers.nodup
  have hnone : t.word ∉ slots.members.flatMap Member.words → ∀ rest, t.word :: rest ∉ lines := by
    intro hnot rest hmem
    rw [flatMap_words] at hnot
    exact hnot (hcovers.mem _ rest hmem)
  have hzero : t.word ∉ slots.members.flatMap Member.words →
      (lines.countP fun line => line.head? = some t.word) = 0 := by
    intro hnot
    rw [flatMap_words] at hnot
    exact hcovers.countP_eq_zero hnot
  intro m' hm'
  -- a slot that is left alone, one that counts the word, one that the word joins, or one that is opened for it
  rcases henters.cases_member hnodup hm' with ⟨hm, hnot⟩ | ⟨m, hm, hword, rfl⟩ |
    ⟨hword, m, hm, -, rfl⟩ | ⟨hword, rfl⟩
  · obtain ⟨hvalues, haccounts⟩ := h m' hm
    refine ⟨occurs_append_of_not hnot hvalues, ?_⟩
    rw [through_append_of_not _ (by simpa using hnot)]
    exact haccounts
  · obtain ⟨hvalues, haccounts⟩ := h m hm
    refine ⟨occurs_countWord ((List.nodup_flatMap.mp hnodup).1 m hm) hvalues, ?_⟩
    rw [Member.words_countWord, through_append_cons _ hword]
    exact hgrown haccounts
  · obtain ⟨hvalues, haccounts⟩ := h m hm
    have hnot : t.word ∉ m.words := fun hmem => hword (List.mem_flatMap_of_mem hm hmem)
    refine ⟨?_, ?_⟩
    · intro u hu
      rcases List.mem_append.mp hu with hu | hu
      · exact occurs_append_of_not hnot hvalues u hu
      · rw [List.mem_singleton.mp hu, countP_append_cons, if_pos rfl, hzero hword]
        rfl
    · rw [Member.words_append, through_append_cons _ (by simp), through_append_word _ (hnone hword)]
      exact hgrown haccounts
  · refine ⟨?_, ?_⟩
    · intro u hu
      rw [List.mem_singleton.mp hu, countP_append_cons, if_pos rfl, hzero hword, hone]
      rfl
    · rw [Member.words_singleton, through_singleton_append (hnone hword)]
      exact hgrown accounts_nil

/-- Inserting a line adds it to the lines that are counted. -/
theorem accounts_grow (fresh : Nat) {tokens : List Token} (hone : ∀ t ∈ tokens, t.occurs = 1)
    {p : Int × Slots} (h : Accounts p lines) :
    Accounts (grow true fresh tokens p) (lines ++ [tokens.map Token.word]) := by
  induction tokens generalizing fresh p lines with
  | nil =>
      obtain ⟨ends, below⟩ := p
      have hends : ends = lines.count [] := h.ends
      refine ⟨by simp [grow_nil, hends], ⟨h.covers.nodup, ?_⟩, ?_⟩
      · intro word rest hmem
        exact h.covers.mem word rest (by simpa using hmem)
      · rw [grow_nil, tallies_iff]
        intro m hm
        rw [List.map_nil, through_append_of_not _ (by simp)]
        simpa using tallies_iff.mp h.tallies m hm
  | cons t more ih =>
      obtain ⟨ends, below⟩ := p
      obtain ⟨fresh', hends, henters⟩ := enters_grow fresh ends below t more
      refine ⟨?_, h.covers.enters henters, ?_⟩
      · have hcount : ends = lines.count [] := h.ends
        rw [hends, hcount]
        simp
      · exact h.tallies.enters h.covers (hone t List.mem_cons_self) henters
          (ih fresh' fun u hu => hone u (List.mem_cons_of_mem t hu))

end Grow

theorem Grown.accounts {p : Int × Slots} (h : Grown lines p) : Accounts p lines := by
  induction h with
  | empty => exact accounts_nil
  | insert fresh hone _ ih => exact accounts_grow fresh hone ih

end LogMining.Slots
