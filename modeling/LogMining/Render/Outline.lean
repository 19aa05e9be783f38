import LogMining.Terminal
import LogMining.Tree.Walk

/-!
# The outline of a tree

An outline has one label per node, in which the values are written side by side. Labels are marked-up
text: placeholders stand out, and the number of lines that end at a node is dimmed.
-/

namespace LogMining

namespace Render

variable (terminal : Terminal)

def valueMarkup (t : Token) : String :=
  let text := terminal.escape t.format
  if t.special then "[bold cyan]" ++ text ++ "[/]" else text

def label (node : Node) : String :=
  let ends :=
    if node.lineEnds = 0 then "" else " [dim]\\[nterm " ++ toString node.lineEnds ++ "][/]"
  " | ".intercalate (node.values.map (valueMarkup terminal)) ++ ends

end Render

namespace Tree

variable {m : Type → Type} [Monad m] [MonadExceptOf Fault m] (terminal : Terminal)

/-- The loop that builds an outline. On the stack are links, each with the way to the branch below which the
node that it leads to belongs. -/
def outlineLoop (tree : Tree) (report : m Unit) :
    Nat → List (Option NodeId × List Nat) → Branches → m Branches
  | _, [], branches => return branches
  | 0, _ :: _, _ => throw Fault.endless
  | n + 1, (none, _) :: stack, branches => outlineLoop tree report n stack branches
  | n + 1, (some id, way) :: stack, branches => do
    report
    let node ← MonadExcept.ofExcept (tree.node id)
    let (own, branches) := branches.add way (Render.label terminal node)
    -- what is below the node comes before what is beside it
    outlineLoop tree report n ((node.child, own) :: (node.sibling, way) :: stack) branches

/-- The outline of a node and what is below it. The siblings of the node are left out, and the node itself is
not reported. -/
def outlineBy (tree : Tree) (report : m Unit) (start : NodeId) : m Outline := do
  let node ← MonadExcept.ofExcept (tree.node start)
  let branches ← tree.outlineLoop terminal report tree.stackLimit [(node.child, [])] .none
  return { label := Render.label terminal node, branches }

def outlineFrom (tree : Tree) (start : NodeId) : Except Fault Outline :=
  tree.outlineBy terminal (pure ()) start

def outline (tree : Tree) : Except Fault Outline := tree.outlineFrom terminal root

end Tree

end LogMining
