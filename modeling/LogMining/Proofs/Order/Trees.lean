import LogMining.Proofs.Order.Exchange
import LogMining.Proofs.Order.Permute

/-!
# The order of the lines of a log

The tree that lines grow into is the same in any order of the lines, up to the order of the slots of a
chain and of the values of a slot, if and only if the lines are unambiguous.
-/

namespace LogMining

namespace Tree

/-- Two trees are equal up to the order of the slots of a chain and of the values of a slot. -/
def Alike (tree tree' : Tree) : Prop :=
  ∃ ends below below', tree.Comprises ends below ∧ tree'.Comprises ends below' ∧
    Slots.Alike below below'

variable {tree tree' : Tree} {p q : Int × Slots}

theorem alike_iff (h : tree.Comprises p.1 p.2) (h' : tree'.Comprises q.1 q.2) :
    tree.Alike tree' ↔ p.1 = q.1 ∧ Slots.Alike p.2 q.2 := by
  constructor
  · rintro ⟨ends, below, below', htree, htree', halike⟩
    obtain ⟨rfl, rfl⟩ := htree.unique h
    obtain ⟨hends, rfl⟩ := htree'.unique h'
    exact ⟨hends, halike⟩
  · rintro ⟨hends, halike⟩
    exact ⟨p.1, p.2, q.2, h, hends ▸ h', halike⟩

theorem exists_grown (lines : List (List Token))
    (hone : ∀ line ∈ lines, ∀ t ∈ line, t.occurs = 1) :
    ∃ tree p, (insertLines lines).run empty = .ok () tree ∧ tree.Comprises p.1 p.2 ∧
      Slots.Grown (lines.map fun line => line.map Token.word) p := by
  obtain ⟨tree, ends, below, hrun, htree, hgrown⟩ := run_insertLines_empty lines
  exact ⟨tree, (ends, below), hrun, htree, hgrown hone⟩

/-- Lines grow into the same tree in any order, up to the order of the slots of a chain and of the values
of a slot, if and only if they are unambiguous. -/
theorem alike_in_any_order_iff (lines : List (List Token))
    (hone : ∀ line ∈ lines, ∀ t ∈ line, t.occurs = 1) :
    (∀ lines', lines'.Perm lines →
      ∃ tree tree', (insertLines lines).run empty = .ok () tree ∧
        (insertLines lines').run empty = .ok () tree' ∧ tree.Alike tree') ↔
      Slots.Unambiguous (lines.map fun line => line.map Token.word) := by
  obtain ⟨tree, p, hrun, htree, hp⟩ := exists_grown lines hone
  constructor
  · intro h
    -- the tree of every order has the like of the tree of the given one
    have horder : ∀ first, first.Perm (lines.map fun line => line.map Token.word) →
        ∃ q, Slots.Grown first q ∧ p.1 = q.1 ∧ Slots.Alike p.2 q.2 := by
      intro first hfirst
      rw [← List.filterMap_eq_map] at hfirst
      obtain ⟨lines', hperm, rfl⟩ := Slots.exists_perm_filterMap hfirst
      rw [List.filterMap_eq_map]
      obtain ⟨tree', q, hrun', htree', hq⟩ :=
        exists_grown lines' fun line hline => hone line (hperm.subset hline)
      obtain ⟨_, _, hfirst, hsecond, halike⟩ := h lines' hperm
      cases hrun.symm.trans hfirst
      cases hrun'.symm.trans hsecond
      exact ⟨q, hq, (alike_iff htree htree').mp halike⟩
    refine Slots.OrderFree.unambiguous ?_ fun line hline =>
      (List.sublist_flatten_of_mem hline).length_le
    intro first second hfirst hsecond
    obtain ⟨q, hq, hends, halike⟩ := horder first hfirst
    obtain ⟨q', hq', hends', halike'⟩ := horder second hsecond
    exact ⟨q, q', hq, hq', hends.symm.trans hends', halike.symm.trans halike'⟩
  · intro h lines' hperm
    obtain ⟨tree', q, hrun', htree', hq⟩ :=
      exists_grown lines' fun line hline => hone line (hperm.subset hline)
    exact ⟨tree, tree', hrun, hrun', (alike_iff htree htree').mpr (h.alike (hperm.map _) hp hq)⟩

/-- Two lines that differ in their first words grow into one slot with two values in any order. -/
theorem alike_in_any_order_of_two_lines :
    (∀ line ∈ ([[{ word := "bob" }, { word := "login" }], [{ word := "alice" }, { word := "login" }]] :
        List (List Token)), ∀ t ∈ line, t.occurs = 1) ∧
      ∀ lines', lines'.Perm [[{ word := "bob" }, { word := "login" }],
          [{ word := "alice" }, { word := "login" }]] →
        ∃ tree tree', (insertLines [[{ word := "bob" }, { word := "login" }],
            [{ word := "alice" }, { word := "login" }]]).run empty = .ok () tree ∧
          (insertLines lines').run empty = .ok () tree' ∧ tree.Alike tree' := by
  have hrest : ∀ word rest, word :: rest ∈ [["bob", "login"], ["alice", "login"]] →
      rest = ["login"] := by
    rintro word rest hline
    rcases List.mem_pair.mp hline with heq | heq
    · exact (List.cons.inj heq).2
    · exact (List.cons.inj heq).2
  exact ⟨by decide, (alike_in_any_order_iff _ (by decide)).mpr (Slots.unambiguous_of_rest hrest)⟩

/-- Three lines in two orders of which the second one only makes two words share a slot. -/
theorem not_alike_of_three_lines :
    List.Perm [[{ word := "a" }, { word := "y" }], [{ word := "b" }, { word := "y" }],
        [{ word := "a" }, { word := "x" }]]
      ([[{ word := "a" }, { word := "x" }], [{ word := "b" }, { word := "y" }],
        [{ word := "a" }, { word := "y" }]] : List (List Token)) ∧
    ¬∃ tree tree', (insertLines [[{ word := "a" }, { word := "x" }],
        [{ word := "b" }, { word := "y" }], [{ word := "a" }, { word := "y" }]]).run empty =
          .ok () tree ∧
      (insertLines [[{ word := "a" }, { word := "y" }], [{ word := "b" }, { word := "y" }],
        [{ word := "a" }, { word := "x" }]]).run empty = .ok () tree' ∧ tree.Alike tree' := by
  refine ⟨by decide, ?_⟩
  rintro ⟨tree, tree', hrun, hrun', halike⟩
  obtain ⟨_, p, hfirst, htree, hp⟩ := exists_grown [[{ word := "a" }, { word := "x" }],
    [{ word := "b" }, { word := "y" }], [{ word := "a" }, { word := "y" }]] (by decide)
  obtain ⟨_, q, hsecond, htree', hq⟩ := exists_grown [[{ word := "a" }, { word := "y" }],
    [{ word := "b" }, { word := "y" }], [{ word := "a" }, { word := "x" }]] (by decide)
  cases hrun.symm.trans hfirst
  cases hrun'.symm.trans hsecond
  have happart : Slots.Grown ([["a", "x"], ["b", "y"]] ++ [["a", "y"]]) p := hp
  have htogether : Slots.Grown ([["a", "y"], ["b", "y"]] ++ [["a", "x"]]) q := hq
  exact Slots.not_alike_of_exchange (by decide) rfl rfl (by decide) htogether happart
    ((alike_iff htree htree').mp halike).2.symm

end Tree

end LogMining
