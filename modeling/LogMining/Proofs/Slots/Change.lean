import LogMining.Proofs.Slots.Held

/-!
# Changing one slot of a chain

An insertion looks for the first slot of a chain that passes a test and changes the chain from there.
`Slots.from?` is the chain from that slot on and `Slots.changeFrom` the whole chain after the change.
If no slot passes, `Slots.append` adds one at the end. On a tree that holds the chain it is enough to
replace the part from the slot on.
-/

namespace LogMining

namespace Slots

/-- The chain from the first slot on that passes a test. -/
def from? (test : Slots → Bool) : Slots → Option Slots
  | nil => none
  | slot id values lineEnds below beside =>
    if test (slot id values lineEnds below beside) then
      some (slot id values lineEnds below beside)
    else beside.from? test

/-- The chain with a change made from the first slot on that passes a test. -/
def changeFrom (test : Slots → Bool) (change : Slots → Slots) : Slots → Slots
  | nil => nil
  | slot id values lineEnds below beside =>
    if test (slot id values lineEnds below beside) then
      change (slot id values lineEnds below beside)
    else slot id values lineEnds below (beside.changeFrom test change)

def append : Slots → Slots → Slots
  | nil, more => more
  | slot id values lineEnds below beside, more =>
    slot id values lineEnds below (beside.append more)

def mapValues (change : List Token → List Token) : Slots → Slots
  | nil => nil
  | slot id values lineEnds below beside => slot id (change values) lineEnds below beside

def mapBelow (change : Int × Slots → Int × Slots) : Slots → Slots
  | nil => nil
  | slot id values lineEnds below beside =>
    slot id values (change (lineEnds, below)).1 (change (lineEnds, below)).2 beside

variable {test : Slots → Bool} {change : Slots → Slots}

@[simp] theorem from?_nil : nil.from? test = none := rfl

@[simp] theorem changeFrom_nil : nil.changeFrom test change = nil := rfl

@[simp] theorem append_nil (more : Slots) : nil.append more = more := rfl

@[simp] theorem append_slot (more : Slots) (id : Nat) (values : List Token) (ends : Int)
    (below beside : Slots) :
    (slot id values ends below beside).append more =
      slot id values ends below (beside.append more) := rfl

theorem from?_slot (id : Nat) (values : List Token) (ends : Int) (below beside : Slots) :
    (slot id values ends below beside).from? test =
      if test (slot id values ends below beside) then some (slot id values ends below beside)
      else beside.from? test := rfl

theorem changeFrom_slot (id : Nat) (values : List Token) (ends : Int) (below beside : Slots) :
    (slot id values ends below beside).changeFrom test change =
      if test (slot id values ends below beside) then change (slot id values ends below beside)
      else slot id values ends below (beside.changeFrom test change) := rfl

theorem first_mapValues (f : List Token → List Token) (slots : Slots) :
    (slots.mapValues f).first = slots.first := by
  cases slots <;> rfl

theorem first_mapBelow (f : Int × Slots → Int × Slots) (slots : Slots) :
    (slots.mapBelow f).first = slots.first := by
  cases slots <;> rfl

theorem first_changeFrom (hfirst : ∀ slots, (change slots).first = slots.first) (slots : Slots) :
    (slots.changeFrom test change).first = slots.first := by
  cases slots with
  | nil => rfl
  | slot id values ends below beside =>
      rw [changeFrom_slot]
      split
      · exact hfirst _
      · rfl

theorem first_append {slots : Slots} (more : Slots) (h : slots ≠ nil) :
    (slots.append more).first = slots.first := by
  cases slots with
  | nil => exact absurd rfl h
  | slot id values ends below beside => rfl

/-- What is found begins with a slot that passes the test. -/
theorem from?_eq_some {slots rest : Slots} (h : slots.from? test = some rest) :
    test rest = true ∧
      ∃ id values ends below beside, rest = slot id values ends below beside := by
  induction slots with
  | nil => simp at h
  | slot id values ends below beside _ ihBeside =>
      rw [from?_slot] at h
      split at h
      · next htest =>
        cases h
        exact ⟨htest, id, values, ends, below, beside, rfl⟩
      · exact ihBeside h

theorem words_from?_subset {slots rest : Slots} (h : slots.from? test = some rest) :
    rest.words ⊆ slots.words := by
  induction slots with
  | nil => simp at h
  | slot id values ends below beside _ ihBeside =>
      rw [from?_slot] at h
      split at h
      · cases h
        exact List.Subset.refl _
      · exact fun word hword => List.mem_append_right _ (ihBeside h hword)

theorem proper_from? {slots rest : Slots} (hproper : slots.Proper)
    (h : slots.from? test = some rest) : rest.Proper := by
  induction slots with
  | nil => simp at h
  | slot id values ends below beside _ ihBeside =>
      rw [from?_slot] at h
      split at h
      · cases h
        exact hproper
      · exact ihBeside hproper.2.2.2 h

theorem proper_changeFrom {slots : Slots} (hproper : slots.Proper)
    (hchange : ∀ rest, slots.from? test = some rest → rest.Proper → (change rest).Proper) :
    (slots.changeFrom test change).Proper := by
  induction slots with
  | nil => trivial
  | slot id values ends below beside _ ihBeside =>
      rw [changeFrom_slot]
      rw [from?_slot] at hchange
      split
      · next htest => exact hchange _ (if_pos htest) hproper
      · next htest =>
        refine ⟨hproper.1, hproper.2.1, hproper.2.2.1, ihBeside hproper.2.2.2 fun rest hrest => ?_⟩
        exact hchange rest ((if_neg htest).trans hrest)

theorem proper_append {slots more : Slots} (hproper : slots.Proper) (hmore : more.Proper) :
    (slots.append more).Proper := by
  induction slots with
  | nil => exact hmore
  | slot id values ends below beside _ ihBeside =>
      exact ⟨hproper.1, hproper.2.1, hproper.2.2.1, ihBeside hproper.2.2.2⟩

end Slots

namespace Tree

variable {tree tree' : Tree} {parent : Option NodeId} {slots rest : Slots} {test : Slots → Bool}

theorem Holds.from? (h : tree.Holds parent slots) (hrest : slots.from? test = some rest) :
    tree.Holds parent rest := by
  induction slots with
  | nil => simp at hrest
  | slot id values ends below beside _ ihBeside =>
      rw [Slots.from?_slot] at hrest
      split at hrest
      · cases hrest
        exact h
      · exact ihBeside h.beside hrest

namespace Replaces

theorem changeFrom {change : Slots → Slots} (h : tree.Holds parent slots)
    (hfirst : ∀ slots, (change slots).first = slots.first) (hrest : slots.from? test = some rest)
    (hchange : tree.Replaces tree' parent rest (change rest)) :
    tree.Replaces tree' parent slots (slots.changeFrom test change) := by
  induction slots with
  | nil => simp at hrest
  | slot id values ends below beside _ ihBeside =>
      rw [Slots.from?_slot] at hrest
      rw [Slots.changeFrom_slot]
      split at hrest
      · next htest =>
        cases hrest
        rw [if_pos htest]
        exact hchange
      · next htest =>
        rw [if_neg htest]
        exact lift_beside h (ihBeside h.beside hrest) (Slots.first_changeFrom hfirst beside)

theorem append {last : NodeId} (h : tree.Holds parent slots) (values : List Token) (ends : Int)
    (hlast : slots.chain.getLast? = some last) :
    ∃ n ∈ slots.ids, last = n ∧ tree.Replaces
      (setAt n (fun node => { node with sibling := some (tree.size : Int) })
        ⟨tree.nodes.push (some { values, parent, lineEnds := ends })⟩)
      parent slots (slots.append (.slot tree.size values ends .nil .nil)) := by
  induction slots with
  | nil => simp at hlast
  | slot id values' ends' below beside _ ihBeside =>
      cases beside with
      | nil =>
          have hid : id < tree.size := h.spells.lt_size (by simp)
          have hlast' : last = id := by simpa using hlast.symm
          refine ⟨id, by simp, hlast', around_beside h (created tree parent values ends)
            (fun n hn => ?_) (size_setAt ..) ?_⟩
          · rw [get?_setAt, if_neg hn.symm]
          · rw [get?_setAt, if_pos rfl, get?_push, if_neg (Nat.ne_of_lt hid), h.spells.1]
            rfl
      | slot id'' values'' ends'' below'' beside'' =>
          rw [Slots.chain_slot, Slots.chain_slot, List.getLast?_cons_cons] at hlast
          obtain ⟨n, hmem, hn, hbeside⟩ := ihBeside h.beside hlast
          have hmem' := List.mem_append_right below.ids hmem
          exact ⟨n, List.mem_cons_of_mem _ hmem', hn, lift_beside h hbeside (Slots.first_append _ (by simp))⟩

end Replaces

end Tree

end LogMining
