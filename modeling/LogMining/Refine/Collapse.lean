import LogMining.Refine.Pass

/-!
# Joining a node with its only child

Where a slot has one word and is always followed by the same word, the two are one literal. The node
takes over the word, the child and the line ends of the child, which is deleted. Placeholders are
never joined with anything, so they stay words of their own.
-/

namespace LogMining

/-- A child that can be joined with its parent, and the word that results. -/
structure Collapse where
  childId : NodeId
  child : Node
  word : String

namespace Tree

def collapse? (tree : Tree) (node : Node) : Except Fault (Option Collapse) :=
  match node.child, node.values with
  | some childId, [t] => do
    let child ← tree.node childId
    match child.sibling, child.values with
    | none, [u] =>
      if t.isPlaceholder || u.isPlaceholder then return none
      else return some { childId, child, word := t.word ++ " " ++ u.word }
    | _, _ => return none
  | _, _ => .ok none

end Tree

namespace Node

/-- The node after it has been joined with its child. The number of lines that ended at the node
itself is lost. -/
def collapsed (c : Collapse) (node : Node) : Node :=
  { node with
    values := node.values.map fun t => { t with word := c.word }
    child := c.child.child
    lineEnds := c.child.lineEnds }

end Node

namespace Pass

def collapseChild (id : NodeId) : Step Pass Bool := do
  let node ← ask (·.node id)
  match ← ask (·.collapse? node) with
  | none => return false
  | some c =>
    onTree (Tree.update id (Node.collapsed c))
    note [.squashed c.word]
    onTree (Tree.adopt id c.child.child)
    onTree (Tree.delete c.childId)
    count fun tally => { tally with squashed := tally.squashed + 1 }
    return true

def collapseWithin : Nat → NodeId → Step Pass Unit
  | 0, _ => throw .endless
  | n + 1, id => do if ← collapseChild id then collapseWithin n id

/-- Joins a node with its child as long as that is possible. Each time a node is deleted, so it comes
to an end. -/
def collapseAll (id : NodeId) : Step Pass Unit := do
  collapseWithin ((← get).tree.size + 1) id

end Pass

end LogMining
