import LogMining.Proofs.Slots.Held

/-!
# Whole trees

`tree.Comprises ends below` says that a tree consists of a root, at which `ends` lines end, with the
slots `below` it, and of no other nodes. A step that replaces what is below the root leads from a whole
tree to a whole tree, since it deletes the nodes that it drops.
-/

namespace LogMining

def Slots.root (lineEnds : Int) (below : Slots) : Slots :=
  .slot 0 [{ word := Tree.rootWord }] lineEnds below .nil

namespace Tree

/-- A tree is the root with the given slots below it, each of which has values. -/
structure Comprises (tree : Tree) (ends : Int) (below : Slots) : Prop where
  holds : tree.Holds none (Slots.root ends below)
  live : ∀ n node, tree.get? n = some node → n ∈ (Slots.root ends below).ids
  proper : below.Proper

theorem comprises_empty : empty.Comprises 0 .nil where
  holds := ⟨by simp [Slots.root, spells_slot, get?, empty], by simp [Slots.root]⟩
  live n node h := by
    have hlt : n < 1 := lt_size_of_get? h
    simp [Slots.root]
    omega
  proper := trivial

theorem mem_below_ids {tree : Tree} {ends : Int} {below : Slots} {n : Nat} {node : Node}
    (h : tree.Comprises ends below) (hnode : tree.get? n = some node) (hn : n ≠ 0) :
    n ∈ below.ids := by
  have hmem := h.live n node hnode
  simpa [Slots.root, hn] using hmem

/-- A whole tree is read in one way only. -/
theorem Comprises.unique {tree : Tree} {ends ends' : Int} {below below' : Slots}
    (h : tree.Comprises ends below) (h' : tree.Comprises ends' below') :
    ends = ends' ∧ below = below' := by
  have hroot := h.holds.spells.unique h'.holds.spells rfl
  rw [Slots.root, Slots.root, Slots.slot.injEq] at hroot
  exact ⟨hroot.2.2.1, hroot.2.2.2.1⟩

theorem Comprises.replaces {tree tree' : Tree} {ends ends' : Int} {below below' : Slots}
    (h : tree.Comprises ends below)
    (hroot : tree.Replaces tree' none (Slots.root ends below) (Slots.root ends' below'))
    (hproper : below'.Proper) : tree'.Comprises ends' below' where
  holds := hroot.toHolds
  live n node hnode := by
    by_contra hn'
    by_cases hn : n ∈ (Slots.root ends below).ids
    · rw [hroot.gone n hn hn'] at hnode
      cases hnode
    · rw [hroot.kept n hn hn'] at hnode
      exact hn (h.live n node hnode)
  proper := hproper

end Tree

end LogMining
