import LogMining.Tree.Basic

/-!
# Walking through a tree

A walk visits a node, then everything below it, then its siblings with what is below them. Every node
is visited together with its level, which is one more than that of its parent. What is still to be
visited is kept on a stack of links, on which the child of a node lies above its sibling.
-/

namespace LogMining.Tree

/-- More links than come off a stack where no way leads round in a circle. A way without a circle has
at most as many links as there are nodes, and each of them leads to a child or to a sibling. -/
def stackLimit (tree : Tree) : Nat := Nat.pow 2 (tree.size + 2)

variable {m : Type → Type} [Monad m] [MonadExceptOf Fault m] {α : Type}

/-- The loop of a walk. On the stack are links, each with the level of the node that it leads to. The
answers to the visits made so far come last first. -/
def walkLoop (tree : Tree) (visit : Int → NodeId → m α) :
    Nat → List (Option NodeId × Int) → List α → m (List α)
  | _, [], answers => return answers.reverse
  | 0, _ :: _, _ => throw Fault.endless
  | n + 1, (none, _) :: stack, answers => walkLoop tree visit n stack answers
  | n + 1, (some id, level) :: stack, answers => do
    let node ← MonadExcept.ofExcept (tree.node id)
    let answer ← visit level id
    walkLoop tree visit n ((node.child, level + 1) :: (node.sibling, level) :: stack)
      (answer :: answers)

def visited (level : Int) (id : NodeId) : Except Fault (Int × NodeId) := .ok (level, id)

def walkFrom (tree : Tree) (start : NodeId) (level : Int) : Except Fault (List (Int × NodeId)) :=
  tree.walkLoop visited tree.stackLimit [(some start, level)] []

def walk (tree : Tree) : Except Fault (List (Int × NodeId)) := tree.walkFrom root 0

end LogMining.Tree
