import LogMining.Step
import LogMining.Token.Basic

/-!
# The tree of a log

A node is a slot of a template: its values are the words that are interchangeable there. Its child
is the next slot of the line, and its siblings are the other ways to go on from the same parent, so
the alternatives at one place form a chain that begins at the child of the parent.

Nodes are kept in the order in which they were created, and refer to each other by their number in
that order. A deleted node leaves a gap, so no number is ever given to two nodes. Nothing prevents a
link from naming a node that is not there; the operations that follow links report it.
-/

namespace LogMining

/-- The number of a node in the order of creation. A negative number counts back from the node
created last, which is `-1`. -/
abbrev NodeId := Int

/-- A slot of the templates of a log. -/
structure Node where
  /-- The words that have been seen here. -/
  values : List Token
  /-- The slot before this one. -/
  parent : Option NodeId := none
  /-- The first of the slots that may come next. -/
  child : Option NodeId := none
  /-- The next alternative to this slot. -/
  sibling : Option NodeId := none
  /-- The number of lines that end here. -/
  lineEnds : Int := 0
deriving DecidableEq, Repr

namespace Node

def value? (node : Node) (word : String) : Option Token :=
  node.values.find? fun t => t.word == word

def firstWord (node : Node) : Except Fault String :=
  match node.values with
  | [] => .error .noValue
  | t :: _ => .ok t.word

end Node

/-- A tree, as the nodes that have been created. A deleted node is `none`. -/
structure Tree where
  nodes : Array (Option Node)
deriving DecidableEq, Repr

namespace Tree

def rootWord : String := "[ROOT]"

def root : NodeId := 0

def empty : Tree := ⟨#[some { values := [{ word := rootWord }] }]⟩

def size (tree : Tree) : Nat := tree.nodes.size

def live (tree : Tree) : Nat := tree.nodes.countP Option.isSome

/-- The place that a number names among the nodes, counted from the first one. -/
def place? (tree : Tree) (id : NodeId) : Option Nat :=
  if 0 ≤ id then some id.toNat
  else if 0 ≤ tree.size + id then some (tree.size + id).toNat
  else none

def locate (tree : Tree) (id : NodeId) : Except Fault (Nat × Node) :=
  match (tree.place? id).bind fun n => (tree.nodes[n]?).map (n, ·) with
  | some (n, some node) => .ok (n, node)
  | some (_, none) => .error (.deleted id)
  | none => .error .unknownNode

def node (tree : Tree) (id : NodeId) : Except Fault Node := (tree.locate id).map Prod.snd

def setAt (n : Nat) (change : Node → Node) (tree : Tree) : Tree :=
  ⟨tree.nodes.modify n (Option.map change)⟩

def update (id : NodeId) (change : Node → Node) : Step Tree Unit := do
  let (n, _) ← Step.query (·.locate id)
  modify (setAt n change)

def create (node : Node) : Step Tree NodeId := fun tree =>
  .ok tree.size ⟨tree.nodes.push (some node)⟩

def delete (id : NodeId) : Step Tree Unit := do
  let (n, _) ← Step.query (·.locate id)
  modify fun tree => ⟨tree.nodes.setIfInBounds n none⟩

/-- The number of links that can be followed one after the other before a node is met twice. Each of
them leads to another node, and one more may name a node that is not there. -/
def linkLimit (tree : Tree) : Nat := tree.size + 1

def chainWithin (tree : Tree) : Nat → Option NodeId → Except Fault (List NodeId)
  | _, none => .ok []
  | 0, some _ => .error .endless
  | n + 1, some id => do
    let node ← tree.node id
    return id :: (← tree.chainWithin n node.sibling)

def chain (tree : Tree) (first : Option NodeId) : Except Fault (List NodeId) :=
  tree.chainWithin tree.linkLimit first

def children (tree : Tree) (id : NodeId) : Except Fault (List NodeId) := do
  tree.chain (← tree.node id).child

/-- Gives the nodes of a chain another parent, one after the other, as far as they are reached by the
given number of links. -/
def adoptWithin (parent : NodeId) : Nat → Option NodeId → Step Tree Unit
  | _, none => pure ()
  | 0, some _ => throw .endless
  | n + 1, some id => do
    update id fun node => { node with parent := some parent }
    let node ← Step.query (·.node id)
    adoptWithin parent n node.sibling

def adopt (parent : NodeId) (first : Option NodeId) : Step Tree Unit := do
  adoptWithin parent (← get).linkLimit first

@[simp] theorem place?_natCast (tree : Tree) (n : Nat) : tree.place? n = some n := by
  simp [place?]

theorem locate_natCast {tree : Tree} {n : Nat} {node : Node} (h : tree.nodes[n]? = some (some node)) :
    tree.locate n = .ok (n, node) := by
  simp [locate, h]

theorem run_update {tree : Tree} {id : NodeId} {n : Nat} {node : Node}
    (h : tree.locate id = .ok (n, node)) (change : Node → Node) :
    (update id change).run tree = .ok () (setAt n change tree) := by
  rw [update, EStateM.run_bind, Step.run_query, h]
  rfl

theorem run_delete {tree : Tree} {id : NodeId} {n : Nat} {node : Node}
    (h : tree.locate id = .ok (n, node)) :
    (delete id).run tree = .ok () ⟨tree.nodes.setIfInBounds n none⟩ := by
  rw [delete, EStateM.run_bind, Step.run_query, h]
  rfl

@[simp] theorem run_create (tree : Tree) (node : Node) :
    (create node).run tree = .ok (tree.size : Int) ⟨tree.nodes.push (some node)⟩ := rfl

theorem getElem?_setAt (n : Nat) (change : Node → Node) (tree : Tree) (m : Nat) :
    (setAt n change tree).nodes[m]? =
      if n = m then (tree.nodes[m]?).map (Option.map change) else tree.nodes[m]? := by
  simp [setAt, Array.getElem?_modify]

@[simp] theorem chain_none (tree : Tree) : tree.chain none = .ok [] := by
  simp [chain, chainWithin]

@[simp] theorem size_setAt (n : Nat) (change : Node → Node) (tree : Tree) :
    (setAt n change tree).size = tree.size := by
  simp [setAt, size]

end Tree

end LogMining
