import LogMining.Proofs.Growth.Lines
import LogMining.Proofs.Refine.Parts
import LogMining.Proofs.Slots.Linked

/-!
# Line ends where a node is split

A node that is split gives way to a chain of nodes, one for the common front of its values, one for what
remains of them and one for the common back. The first node of the chain is the node itself and keeps its
line ends; the others are new, and no line ends there. So lines that ended at the node do not end behind
their last token any more but behind the first part of it. Nothing is lost only where no line ended.
-/

namespace LogMining

namespace Tree

/-- A node and those to which first children lead from it, as far as the given number of nodes. -/
def descent (tree : Tree) : Nat → Option NodeId → Except Fault (List Node)
  | n + 1, some id => do
    let node ← tree.node id
    return node :: (← tree.descent n node.child)
  | _, _ => .ok []

/-- Several lines end at the last of some nodes and none at the others. -/
def EndLast (nodes : List Node) (ends : Int) : Prop :=
  nodes.map Node.lineEnds = List.replicate (nodes.length - 1) 0 ++ [ends]

/-- In a tree the given nodes have taken the place of one that has been split. -/
structure Split (tree : Tree) (id : NodeId) (node : Node) (a : Affixes) (parts : List Node) :
    Prop where
  descent : tree.descent parts.length (some id) = .ok parts
  values : parts.map Node.values = a.pieces node.values
  /-- The chain goes on where the node went on. -/
  child : parts.getLast?.bind Node.child = node.child
  /-- There is no choice between the parts. -/
  alone : ∀ part ∈ parts.tail, part.sibling = none
  /-- The first part keeps the line ends. -/
  lineEnds : parts.map Node.lineEnds = node.lineEnds :: List.replicate (parts.length - 1) 0

end Tree

namespace Slots

def column : Option NodeId → Nat → Slots → List Node
  | parent, n + 1, slot id values lineEnds below beside =>
    { values, parent, child := below.first, sibling := beside.first, lineEnds } ::
      below.column (some (id : Int)) n
  | _, _, _ => []

section Stacked

variable (parent : Option NodeId) (fresh : Nat) (more : List (List Token)) (below : Slots)

theorem length_column_stack :
    ((stack fresh more below).column parent more.length).length = more.length := by
  induction more generalizing parent fresh with
  | nil => cases below <;> rfl
  | cons values more ih => exact congrArg Nat.succ (ih _ (fresh + 1))

theorem map_values_column_stack :
    ((stack fresh more below).column parent more.length).map Node.values = more := by
  induction more generalizing parent fresh with
  | nil => cases below <;> rfl
  | cons values more ih => exact congrArg (List.cons values) (ih _ (fresh + 1))

theorem map_lineEnds_column_stack :
    ((stack fresh more below).column parent more.length).map Node.lineEnds =
      List.replicate more.length 0 := by
  induction more generalizing parent fresh with
  | nil => cases below <;> rfl
  | cons values more ih => exact congrArg (List.cons 0) (ih _ (fresh + 1))

theorem sibling_of_mem_column_stack :
    ∀ node ∈ (stack fresh more below).column parent more.length, node.sibling = none := by
  induction more generalizing parent fresh with
  | nil => cases below <;> exact fun _ h => absurd h List.not_mem_nil
  | cons values more ih => exact List.forall_mem_cons.mpr ⟨rfl, ih _ (fresh + 1)⟩

theorem child_getLast?_column_stack (id : Nat) (values : List Token) (ends : Int) (beside : Slots) :
    ((slot id values ends (stack fresh more below) beside).column parent
      (more.length + 1)).getLast?.bind Node.child = below.first := by
  induction more generalizing parent fresh id values ends beside with
  | nil => cases below <;> rfl
  | cons values' more ih =>
      have hrest := ih (some (id : Int)) (fresh + 1) fresh values' 0 nil
      rw [column] at hrest
      rw [column, stack, List.length_cons, column, List.getLast?_cons_cons]
      exact hrest

end Stacked

end Slots

namespace Tree

variable {tree : Tree} {parent : Option NodeId} {slots below beside : Slots} {id n : Nat}
  {values : List Token} {ends : Int} {a : Affixes} {node : Node}

theorem descent_eq (h : tree.Spells parent slots) (n : Nat) :
    tree.descent n slots.first = .ok (slots.column parent n) := by
  induction n generalizing parent slots with
  | zero => cases slots <;> rfl
  | succ n ih =>
      cases slots with
      | nil => rfl
      | slot id values ends below beside =>
          rw [Slots.first_slot, descent, node_of_get? h.1]
          simp only [bind, Except.bind, ih h.2.1]
          rfl

/-- A tree in which a slot has been split has the parts of it. -/
theorem exists_split
    (h : tree.Spells parent ((Slots.slot id values ends below beside).factored n))
    (ha : Token.affixes? values = some a) :
    ∃ parts, tree.Split id
      { values, parent, child := below.first, sibling := beside.first, lineEnds := ends } a parts ∧
      2 ≤ parts.length := by
  obtain ⟨head, more, hpieces, hfactored⟩ :=
    Slots.exists_factored_eq n id values ends below beside
  rw [Token.pieces_of_some ha] at hpieces
  rw [hfactored] at h
  have hlength : ((Slots.slot id head ends (.stack n more below) beside).column parent
      (more.length + 1)).length = more.length + 1 :=
    congrArg Nat.succ (Slots.length_column_stack _ n more below)
  refine ⟨Slots.column parent (more.length + 1) (.slot id head ends (.stack n more below) beside),
    ⟨?_, ?_, ?_, ?_, ?_⟩, ?_⟩
  · rw [hlength]
    exact descent_eq h (more.length + 1)
  · rw [hpieces]
    exact congrArg (List.cons head) (Slots.map_values_column_stack _ n more below)
  · exact Slots.child_getLast?_column_stack parent n more below id head ends beside
  · exact Slots.sibling_of_mem_column_stack _ n more below
  · rw [hlength]
    exact congrArg (List.cons ends) (Slots.map_lineEnds_column_stack _ n more below)
  · have htwo := Token.two_le_length_pieces ha
    rw [hpieces] at htwo
    rw [hlength]
    exact htwo

theorem Split.endLast_iff {nodeId : NodeId} {parts : List Node} (h : tree.Split nodeId node a parts)
    (hlength : 2 ≤ parts.length) : EndLast parts node.lineEnds ↔ node.lineEnds = 0 := by
  obtain ⟨k, hk⟩ : ∃ k, parts.length - 1 = k + 1 := ⟨parts.length - 2, by omega⟩
  rw [EndLast, h.lineEnds, hk]
  constructor
  · intro heq
    rw [List.replicate_succ, List.cons_append] at heq
    exact (List.cons.inj heq).1
  · intro hzero
    rw [hzero, ← List.replicate_succ, ← List.replicate_succ']

theorem Comprises.exists_split {pass : Pass} (h : pass.tree.Comprises ends below)
    (hnode : pass.tree.get? n = some node) (ha : node.affixes? = .ok (some a)) :
    ∃ pass' parts, (Pass.factor n).run pass = .ok true pass' ∧
      pass'.tree.Split n node a parts ∧ 2 ≤ parts.length := by
  obtain ⟨parent, values, ends', below', beside, hslot, -⟩ :=
    h.holds.exists_slot (h.live n node hnode)
  obtain rfl : node = _ := Option.some.inj (hnode.symm.trans hslot.spells.1)
  rw [Pass.affixes?_eq] at ha
  have haffixes := Except.ok.inj ha
  obtain ⟨pass', hrun, hreplaces⟩ := Pass.run_factor hslot
  rw [haffixes] at hrun
  obtain ⟨parts, hsplit, hlength⟩ := Tree.exists_split hreplaces.spells haffixes
  exact ⟨pass', parts, hrun, hsplit, hlength⟩

/-- Splitting a node of a tree that has grown from lines leaves the line ends behind the last part of it
if and only if no line ends at the node. -/
theorem endLast_of_factor_iff (lines : List (List Token)) :
    ∃ tree, (insertLines lines).run empty = .ok () tree ∧
      ∀ n node a, tree.get? n = some node → node.affixes? = .ok (some a) →
        ∀ pass : Pass, pass.tree = tree → ∃ pass' parts,
          (Pass.factor n).run pass = .ok true pass' ∧ pass'.tree.Split n node a parts ∧
          (EndLast parts node.lineEnds ↔ node.lineEnds = 0) := by
  obtain ⟨tree, ends, below, hrun, htree, -⟩ := run_insertLines_empty lines
  refine ⟨tree, hrun, ?_⟩
  rintro n node a hnode ha pass rfl
  obtain ⟨pass', parts, hfactor, hsplit, hlength⟩ := htree.exists_split hnode ha
  exact ⟨pass', parts, hfactor, hsplit, hsplit.endLast_iff hlength⟩

/-- Two lines with assignments share a slot at which a third line ends. The slot keeps the line end when
it is split into the name and the two numbers. -/
theorem not_endLast_of_three_lines :
    ∃ tree node a pass' parts,
      (insertLines [[{ word := "a=1" }, { word := "x" }], [{ word := "a=2" }, { word := "x" }],
        [{ word := "a=1" }]]).run empty = .ok () tree ∧
      tree.get? 1 = some node ∧ node.affixes? = .ok (some a) ∧ node.lineEnds = 1 ∧
      (Pass.factor (1 : Nat)).run { tree } = .ok true pass' ∧
      pass'.tree.Split (1 : Nat) node a parts ∧ ¬EndLast parts node.lineEnds := by
  obtain ⟨tree, ends, below, hrun, htree, -⟩ := run_insertLines_empty
    [[{ word := "a=1" }, { word := "x" }], [{ word := "a=2" }, { word := "x" }], [{ word := "a=1" }]]
  obtain ⟨node, hnode, ha, hends⟩ : ∃ node, tree.get? 1 = some node ∧
      node.affixes? = .ok (some { front := 2, back := 0 }) ∧ node.lineEnds = 1 := by
    cases hrun
    exact ⟨_, rfl, rfl, rfl⟩
  obtain ⟨pass', parts, hfactor, hsplit, hlength⟩ :=
    Comprises.exists_split (show ({ tree } : Pass).tree.Comprises ends below from htree) hnode ha
  refine ⟨tree, node, _, pass', parts, hrun, hnode, ha, hends, hfactor, hsplit, ?_⟩
  rw [hsplit.endLast_iff hlength, hends]
  decide

end Tree

end LogMining
