import LogMining.Proofs.Session.Calls
import Mathlib.Data.List.Forall2

/-!
# One order for all renderings

The loops that walk through a tree, outline it and dump it work off stacks of different shapes, and follow one and
the same order, the recursive pre-order of the nodes: a node, then what is below each of its children in turn, one
level deeper. `Tree.Preorder` tells that order by the children of nodes alone, and `Tree.LabelledBy` and
`Tree.ListedBy` what an outline and a dump show for a visit.
-/

namespace LogMining

namespace Tree

/-- The visits of nodes that are on one level, each of them followed by those of its children, one level
deeper, and of what is below these. -/
inductive Preorder (tree : Tree) : Int → List NodeId → List (Int × NodeId) → Prop
  | nil {level : Int} : tree.Preorder level [] []
  | node {level : Int} {id : NodeId} {ids children : List NodeId} {below after : List (Int × NodeId)}
      (hchildren : tree.children id = .ok children) (hbelow : tree.Preorder (level + 1) children below)
      (hafter : tree.Preorder level ids after) :
      tree.Preorder level (id :: ids) ((level, id) :: (below ++ after))

variable {terminal : Terminal} {tree : Tree} {parent : Option NodeId} {slots below : Slots} {ends : Int}

theorem Preorder.unique {level : Int} {ids : List NodeId} {visits visits' : List (Int × NodeId)}
    (h : tree.Preorder level ids visits) (h' : tree.Preorder level ids visits') : visits = visits' := by
  induction h generalizing visits' with
  | nil =>
      cases h'
      rfl
  | node hchildren _ _ ihBelow ihAfter =>
      cases h' with
      | node hchildren' hbelow hafter =>
          cases hchildren.symm.trans hchildren'
          rw [ihBelow hbelow, ihAfter hafter]

end Tree

/-- The last node to be created is not the last one to be visited. -/
example :
    (Session.after {} [.addLine "a b", .addLine "c d", .addLine "a e"]).tree.walk.toOption =
      some [(0, 0), (1, 1), (2, 2), (2, 5), (1, 3), (2, 4)] := by
  decide +kernel

end LogMining
