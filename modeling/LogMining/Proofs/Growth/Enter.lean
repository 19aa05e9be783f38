import LogMining.Proofs.Growth.Lines

/-!
# The slot that a line enters

The insertion of a token and of the rest of its line changes one slot of a chain or adds one. So
`Slots.grow` has three forms, one for each place that a token may get: the slot that holds its word is
counted and grown, the slot that leads to the next word gets another value and is grown, or a slot of its
own is grown from nothing.
-/

namespace LogMining.Slots

/-- The chain with the values of its first slot changed, and its line ends and what is below it. -/
def enter (change : List Token → List Token) (grown : Int × Slots → Int × Slots) (slots : Slots) :
    Slots :=
  (slots.mapValues change).mapBelow grown

theorem enter_slot (change : List Token → List Token) (grown : Int × Slots → Int × Slots) (id : Nat)
    (values : List Token) (ends : Int) (below beside : Slots) :
    (slot id values ends below beside).enter change grown =
      slot id (change values) (grown (ends, below)).1 (grown (ends, below)).2 beside := rfl

theorem changeFrom_changeFrom {word : String} {test : Slots → Bool} {f g : Slots → Slots}
    {slots rest : Slots} (hrest : slots.from? test = some rest)
    (hword : test = holdsWord word ∨ word ∉ slots.words)
    (hchange : holdsWord word (f rest) = true) :
    (slots.changeFrom test f).changeFrom (holdsWord word) g =
      slots.changeFrom test fun slots => g (f slots) := by
  induction slots with
  | nil => simp at hrest
  | slot id values ends below beside _ ihBeside =>
      rw [from?_slot] at hrest
      rw [changeFrom_slot, changeFrom_slot]
      -- the word is in the slot that is changed, and in none before it
      split at hrest
      · next htest =>
        cases hrest
        rw [if_pos htest, if_pos htest]
        cases hf : f (slot id values ends below beside) with
        | nil =>
            rw [hf] at hchange
            cases hchange
        | slot id' values' ends' below' beside' =>
            rw [hf] at hchange
            rw [changeFrom_slot, if_pos hchange]
      · next htest =>
        have hnot : ¬holdsWord word (slot id values ends below (beside.changeFrom test f)) := by
          rw [holdsWord_slot]
          rcases hword with rfl | hword
          · rwa [holdsWord_slot] at htest
          · exact fun hmem => hword (List.mem_append_left _ hmem)
        rw [if_neg htest, if_neg htest, changeFrom_slot, if_neg hnot]
        rw [ihBeside hrest (hword.imp_right fun h hmem => h (List.mem_append_right _ hmem))]

theorem changeFrom_append {word : String} {slots more : Slots} {g : Slots → Slots}
    (h : word ∉ slots.words) (hmore : holdsWord word more = true) :
    (slots.append more).changeFrom (holdsWord word) g = slots.append (g more) := by
  induction slots with
  | nil =>
      cases more with
      | nil => cases hmore
      | slot id values ends below beside =>
          rw [append_nil, append_nil, changeFrom_slot, if_pos hmore]
  | slot id values ends below beside _ ihBeside =>
      rw [words_slot, List.mem_append, not_or] at h
      rw [append_slot, append_slot, changeFrom_slot, if_neg, ihBeside h.2]
      rw [holdsWord_slot]
      exact h.1

variable {t : Token} {below rest : Slots}

theorem grow_of_mem (fresh : Nat) (ends : Int) (more : List Token) (h : t.word ∈ below.words) :
    ∃ fresh', grow true fresh (t :: more) (ends, below) =
      (ends, below.changeFrom (holdsWord t.word)
        (enter (Tree.countWord t.word) (grow true fresh' more))) := by
  obtain ⟨rest, hrest⟩ : ∃ rest, below.from? (holdsWord t.word) = some rest := by
    rw [← Option.isSome_iff_exists, Option.isSome_iff_ne_none, ne_eq, from?_holdsWord_eq_none_iff]
    exact not_not_intro h
  obtain ⟨htest, id, values, ends', below', beside, rfl⟩ := from?_eq_some hrest
  have hholds : holdsWord t.word
      ((slot id values ends' below' beside).mapValues (Tree.countWord t.word)) = true := by
    rw [mapValues, holdsWord_slot, map_word_countWord]
    exact (holdsWord_slot ..).mp htest
  refine ⟨if below.opens t.word (more.head?.map Token.word) then fresh + 1 else fresh, ?_⟩
  rw [grow_cons _ _ _ (.inr rfl), place_of_mem h, changeFrom_changeFrom hrest (.inl rfl) hholds]
  rfl

theorem grow_of_leadsTo (fresh : Nat) (ends : Int) {more : List Token} (h : t.word ∉ below.words)
    (hrest : below.from? (leadsTo (more.head?.map Token.word)) = some rest) :
    ∃ fresh', grow true fresh (t :: more) (ends, below) =
      (ends, below.changeFrom (leadsTo (more.head?.map Token.word))
        (enter (· ++ [{ t with occurs := 1 }]) (grow true fresh' more))) := by
  obtain ⟨-, id, values, ends', below', beside, rfl⟩ := from?_eq_some hrest
  have hholds : holdsWord t.word
      ((slot id values ends' below' beside).mapValues (· ++ [{ t with occurs := 1 }])) = true := by
    rw [mapValues, holdsWord_slot]
    simp
  refine ⟨if below.opens t.word (more.head?.map Token.word) then fresh + 1 else fresh, ?_⟩
  rw [grow_cons _ _ _ (.inr rfl), place_of_leadsTo h hrest,
    changeFrom_changeFrom hrest (.inr h) hholds]
  rfl

theorem grow_of_opens (fresh : Nat) (ends : Int) {more : List Token} (h : t.word ∉ below.words)
    (hrest : below.from? (leadsTo (more.head?.map Token.word)) = none) :
    ∃ fresh', grow true fresh (t :: more) (ends, below) =
      (ends, below.append (slot fresh [t] (grow true fresh' more (0, nil)).1
        (grow true fresh' more (0, nil)).2 nil)) := by
  refine ⟨if below.opens t.word (more.head?.map Token.word) then fresh + 1 else fresh, ?_⟩
  rw [grow_cons _ _ _ (.inr rfl), place_of_opens h hrest,
    changeFrom_append h ((holdsWord_slot ..).mpr (by simp))]
  rfl

end LogMining.Slots
