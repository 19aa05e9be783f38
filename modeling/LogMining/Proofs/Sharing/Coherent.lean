import LogMining.Proofs.Sharing.Stable

/-!
# Coherent slots

The words of a slot are together because the same word comes after each of them, and that word begins the
first of the slots below. The lines that show it can be followed in the tree to the slot and on to the one
below, no matter how many lines have been inserted after them.
-/

namespace LogMining.Tree

/-- A line, followed from the root, passes a node at a word and goes on with `next`. -/
def PassesTo (tree : Tree) (words : List String) (id : NodeId) (word next : String) : Prop :=
  ∃ k, (tree.route root words)[k]? = some id ∧ words[k]? = some word ∧ words[k + 1]? = some next

/-- The values of a node are there for the sake of what comes after them. -/
structure Coherent (tree : Tree) (lines : List (List String)) : Prop where
  /-- A node with several values has a child. -/
  child : ∀ n node, tree.get? n = some node → 2 ≤ node.values.length → node.child.isSome
  /-- Some line leads from each value of a node to the first word of the first child. -/
  next : ∀ n node child, tree.get? n = some node → n ≠ 0 → node.child = some child →
    ∃ node' first, tree.node child = .ok node' ∧ node'.firstWord = .ok first ∧
      ∀ t ∈ node.values, ∃ line ∈ lines, tree.PassesTo line n t.word first

/-- The node at a place and the chain below it are traced by what remains of those lines that come to it.
Each of these lines can be followed to the node and on from there. -/
structure TracedAt (tree : Tree) (n : Nat) (node : Node) (below : Slots)
    (lines here : List (List String)) : Prop where
  holds : tree.Holds (some (n : Int)) below
  child : node.child = below.first
  member : Slots.Member.Traced ⟨node.values, (node.lineEnds, below)⟩ here
  traces : below.Traces (Slots.through (node.values.map Token.word) here)
  passed : ∀ word ∈ node.values.map Token.word, ∀ rest, word :: rest ∈ here →
    ∃ before ids, before ++ word :: rest ∈ lines ∧ ids.length = before.length ∧
      tree.route root (before ++ word :: rest) = ids ++ (n : Int) :: below.route rest

variable {tree : Tree} {parent : Option NodeId} {slots below : Slots} {lines : List (List String)}
  {ends : Int} {n : Nat} {node : Node}

theorem Holds.exists_traced_slot (h : tree.Holds parent slots) (hnodup : slots.words.Nodup)
    (htraced : slots.Traced lines) (hn : n ∈ slots.ids) :
    ∃ parent' values ends below beside here,
      tree.Holds parent' (.slot n values ends below beside) ∧
      (Slots.slot n values ends below beside).Traced here ∧
      ∀ word ∈ values.map Token.word, ∀ rest, word :: rest ∈ here →
        ∃ before ids, before ++ word :: rest ∈ lines ∧ ids.length = before.length ∧
          slots.route (before ++ word :: rest) = ids ++ (n : Int) :: below.route rest := by
  induction slots generalizing parent lines with
  | nil => simp at hn
  | slot id values ends below beside ihBelow ihBeside =>
      obtain ⟨-, htraces, hbeside⟩ := Slots.traced_slot.mp htraced
      simp only [Slots.ids_slot, List.mem_cons, List.mem_append] at hn
      rcases hn with rfl | hn | hn
      · refine ⟨parent, values, ends, below, beside, lines, h, htraced, ?_⟩
        intro word hword rest hline
        refine ⟨[], [], hline, rfl, ?_⟩
        rw [List.nil_append, List.nil_append, Slots.route_slot, if_pos hword]
      · obtain ⟨parent', values', ends', below', beside', here, hslot, htraced', hpassed⟩ :=
          ihBelow h.below htraces.covers.nodup htraces.traced hn
        refine ⟨parent', values', ends', below', beside', here, hslot, htraced', ?_⟩
        intro word hword rest hline
        obtain ⟨before, ids, hbefore, hlength, hroute⟩ := hpassed word hword rest hline
        obtain ⟨w, hw, hmem⟩ := Slots.mem_through_iff.mp hbefore
        refine ⟨w :: before, (id : Int) :: ids, hmem, by simp [hlength], ?_⟩
        rw [List.cons_append, Slots.route_slot, if_pos hw, hroute, List.cons_append]
      · obtain ⟨parent', values', ends', below', beside', here, hslot, htraced', hpassed⟩ :=
          ihBeside h.beside (List.nodup_append.mp hnodup).2.1 hbeside hn
        refine ⟨parent', values', ends', below', beside', here, hslot, htraced', ?_⟩
        intro word hword rest hline
        obtain ⟨before, ids, hbefore, hlength, hroute⟩ := hpassed word hword rest hline
        refine ⟨before, ids, hbefore, hlength, ?_⟩
        cases hbegin : before ++ word :: rest with
        | nil => simp at hbegin
        | cons w words =>
            rw [hbegin] at hroute
            -- the line leads to a slot beside this one, which does not hold its first word then
            have hin : w ∈ beside.words := by
              by_contra hnot
              rw [Slots.route_of_not_mem hnot] at hroute
              simp at hroute
            have hnot : w ∉ values.map Token.word := fun hmem =>
              (List.nodup_append.mp hnodup).2.2 w hmem w hin rfl
            rw [Slots.route_slot, if_neg hnot, hroute]

namespace Comprises

theorem route_root_eq_of_traces (h : tree.Comprises ends below) (htraces : below.Traces lines)
    (line : List String) : tree.route root line = below.route line :=
  route_eq h.holds htraces.covers.nodup htraces.traced.distinct line

theorem exists_tracedAt (h : tree.Comprises ends below) (htraces : below.Traces lines)
    (hnode : tree.get? n = some node) (hn : n ≠ 0) :
    ∃ below' here, tree.TracedAt n node below' lines here := by
  obtain ⟨parent', values, ends', below', beside, here, hholds, htraced, hpassed⟩ :=
    h.holds.below.exists_traced_slot htraces.covers.nodup htraces.traced (mem_below_ids h hnode hn)
  obtain rfl : node = _ := Option.some.inj (hnode.symm.trans hholds.spells.1)
  obtain ⟨hmember, htraces', -⟩ := Slots.traced_slot.mp htraced
  refine ⟨below', here, hholds.below, rfl, hmember, htraces', ?_⟩
  intro word hword rest hline
  obtain ⟨before, ids, hbefore, hlength, hroute⟩ := hpassed word hword rest hline
  exact ⟨before, ids, hbefore, hlength, (h.route_root_eq_of_traces htraces _).trans hroute⟩

theorem coherent (h : tree.Comprises ends below) (htraces : below.Traces lines) :
    tree.Coherent lines where
  child n node hnode hlength := by
    by_cases hn : n = 0
    · subst hn
      obtain rfl : node = _ := Option.some.inj (hnode.symm.trans h.holds.spells.1)
      simp at hlength
    · obtain ⟨below', here, htraced⟩ := h.exists_tracedAt htraces hnode hn
      have hne := htraced.member.below hlength
      rw [htraced.child, Option.isSome_iff_ne_none, ne_eq, Slots.first_eq_none_iff]
      exact hne
  next n node child hnode hn hchild := by
    obtain ⟨below', here, htraced⟩ := h.exists_tracedAt htraces hnode hn
    rw [htraced.child] at hchild
    cases below' with
    | nil => cases hchild
    | slot id values ends below' beside =>
        obtain rfl := Option.some.inj hchild
        obtain ⟨first, more, rfl⟩ := List.exists_cons_of_ne_nil
          (Slots.traced_slot.mp htraced.traces.traced).1.nonempty
        refine ⟨_, first.word, node_of_get? htraced.holds.spells.1, rfl, ?_⟩
        intro t ht
        have hword := List.mem_map_of_mem (f := Token.word) ht
        obtain ⟨rest, hrest, hhead⟩ := htraced.member.next first.word rfl t.word hword
        obtain ⟨before, ids, hline, hlength, hroute⟩ := htraced.passed t.word hword rest hrest
        refine ⟨_, hline, before.length, ?_, ?_, ?_⟩
        · rw [hroute, ← hlength]
          simp
        · simp
        · rw [List.getElem?_append_right (by omega), Nat.add_sub_cancel_left, List.getElem?_cons_succ,
            ← List.head?_eq_getElem?, hhead]

end Comprises

/-- In a tree that has grown from lines the slots are coherent. -/
theorem coherent_of_insertLines (lines : List (List Token)) :
    ∃ tree, (insertLines lines).run empty = .ok () tree ∧
      tree.Coherent (lines.map fun line => line.map Token.word) := by
  obtain ⟨tree, ends, below, hrun, htree, htraces⟩ := exists_traces lines
  exact ⟨tree, hrun, htree.coherent htraces⟩

end LogMining.Tree
