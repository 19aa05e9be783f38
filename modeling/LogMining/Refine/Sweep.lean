import LogMining.Refine.Collapse
import LogMining.Refine.Factor

/-!
# Refining a whole tree

A sweep goes through the tree from the child of the root, a node before what is below it and that
before its siblings. A node that is the only alternative is joined with its children as far as
possible; then what its values have in common is split off. The nodes that are split off are visited
in their turn, but their values are parts of words, so nothing more is split off them.
-/

namespace LogMining.Pass

def below (tree : Tree) (node : Node) : Except Fault (Option (NodeId × Bool)) :=
  match node.child with
  | none => .ok none
  | some child => do return some (child, (← tree.node child).sibling.isSome)

/-- Refines what is reached from a node by not more than the given number of links. `isChoice` tells
whether the chain to which the node belongs has more than one member. -/
def sweepFrom : Nat → NodeId → Bool → Step Pass Unit
  | 0, _, _ => throw .endless
  | n + 1, id, isChoice => do
    report "squashing"
    unless isChoice do collapseAll id
    let _ ← factor id
    let node ← ask (·.node id)
    match ← ask fun tree => below tree node with
    | none => pure ()
    | some (child, isChoice) => sweepFrom n child isChoice
    match node.sibling with
    | none => pure ()
    | some sibling => sweepFrom n sibling isChoice

/-- The number of links that a sweep can follow one after the other before it runs in a circle. Each of
`n` nodes is split at most once, which adds two, and no more than `3 * n` nodes are deleted, so there
are `4 * n` changes at most. Between two of them a sweep comes to each of `3 * n` nodes at most once as
a choice and once as the only alternative, and one more link may name a node that is not there. -/
def sweepLimit (tree : Tree) : Nat :=
  let nodes := 3 * tree.size
  (nodes + tree.size + 1) * (2 * nodes) + 1

def sweep : Step Pass Unit := do
  let root ← ask (·.node Tree.root)
  match ← ask fun tree => below tree root with
  | none => pure ()
  | some (child, isChoice) => sweepFrom (sweepLimit (← get).tree) child isChoice

end LogMining.Pass
