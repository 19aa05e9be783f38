import LogMining.Tree.Walk

/-!
# The plain dump of a tree

A dump has one line per value. The line begins with the level of the node and a letter, which is `l`
for the first value of a node and `v` for the others, and is indented according to the level. Where
lines of the log end at a node, the line of its first value says how many.
-/

namespace LogMining

namespace Render

def atLeastTwo (n : Int) : String :=
  let digits := toString n
  String.ofList (List.replicate (2 - digits.length) ' ') ++ digits

def indent (level : Int) (letter : String) : String :=
  atLeastTwo level ++ letter ++ ":" ++ String.ofList (List.replicate (3 * level.toNat) ' ')

def nodeLines (level : Int) (node : Node) : Except Fault (List String) :=
  match node.values with
  | [] => .error .noValue
  | first :: more =>
    let ends := if node.lineEnds = 0 then "" else " [nterm " ++ toString node.lineEnds ++ "]"
    .ok ((indent level "l" ++ first.format ++ ends) ::
      more.map fun t => indent level "v" ++ t.format)

end Render

namespace Tree

def nodeLines (tree : Tree) (level : Int) (id : NodeId) : Except Fault (List String) := do
  Render.nodeLines level (← tree.node id)

variable {m : Type → Type} [Monad m] [MonadExceptOf Fault m]

/-- The lines of the dump of a tree. Every node is reported before its lines are written. -/
def dumpBy (tree : Tree) (report : m Unit) : m (List String) := do
  let visit (level : Int) (id : NodeId) : m (List String) := do
    report
    MonadExcept.ofExcept (tree.nodeLines level id)
  let blocks ← tree.walkLoop visit tree.stackLimit [(some root, 0)] []
  return blocks.flatten

def dump (tree : Tree) : Except Fault (List String) := tree.dumpBy (pure ())

end Tree

end LogMining
