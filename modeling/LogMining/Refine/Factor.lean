import LogMining.Refine.Affixes
import LogMining.Refine.Pass
import LogMining.Text.Cut
import LogMining.Token.Merge

/-!
# Splitting off what the values of a node have in common

The common front of the values stays in the node, the rest of each value moves to a new child, and
the common back moves to a new child of that. The parts are no words of the line any more, which
their tokens tell. What remains of the values may turn out to have a known shape, and values that
have become equal are merged.

The lengths to be split off may be any numbers. Where they are not positive nothing is split off, and
where they exceed a value it is cut as far as it goes.
-/

namespace LogMining

namespace Token

def cut (part : List Char → List Char) (t : Token) : Token :=
  { t with word := String.ofList (part t.word.toList) }

def ofPart (part : List Char → List Char) (word : String) : Token :=
  { word := String.ofList (part word.toList), subword := true }

def dropLast (n : Int) (word : List Char) : List Char := Text.takeSigned (word.length - n) word

def takeLast (n : Int) (word : List Char) : List Char := Text.dropSigned (word.length - n) word

end Token

namespace Node

def cut (part : List Char → List Char) (node : Node) : Node :=
  { node with values := node.values.map (Token.cut part) }

def merged (node : Node) : Node := { node with values := Token.mergeDuplicates node.values }

/-- The node when its words have become parts of words: the tokens tell so, known shapes have been
replaced and equal words merged. -/
def settled (node : Node) : Node :=
  Node.merged { node with values := node.values.map fun t => { t with subword := true }.shaped }

end Node

namespace Tree

def splice (n : Nat) (id : NodeId) (child : Option NodeId) (values : List Token) :
    Step Tree NodeId := do
  let new ← create { values, parent := some id, child }
  adopt new child
  modify (setAt n fun node => { node with child := some new })
  return new

def splitFront (id : NodeId) (front : Int) : Step Tree NodeId := do
  let (n, node) ← Step.query (·.locate id)
  let word ← Step.query fun _ => node.firstWord
  modify (setAt n fun node => { node with values := [Token.ofPart (Text.takeSigned front) word] })
  let rest ← splice n id node.child node.values
  update rest (Node.cut (Text.dropSigned front))
  return rest

def splitBack (id : NodeId) (back : Int) : Step Tree Unit := do
  let (n, node) ← Step.query (·.locate id)
  let word ← Step.query fun _ => node.firstWord
  let _ ← splice n id node.child [Token.ofPart (Token.takeLast back) word]
  modify (setAt n (Node.cut (Token.dropLast back)))

/-- Splits front and back off the values of a node, and returns the node that holds what remains of
them. -/
def disjoin (id : NodeId) (front back : Int) : Step Tree NodeId := do
  let rest ← if 0 < front then splitFront id front else pure id
  let (n, _) ← Step.query (·.locate rest)
  if 0 < back then splitBack rest back
  modify (setAt n Node.settled)
  return rest

def mergeValues (id : NodeId) : Step Tree Nat := do
  let (n, node) ← Step.query (·.locate id)
  modify (setAt n Node.merged)
  return node.values.length - node.merged.values.length

end Tree

namespace Affixes

/-- The parts into which the affixes divide a word. -/
def parts (a : Affixes) (word : String) : Note :=
  let chars := word.toList
  let inner := chars.length - a.back
  .parts (String.ofList (chars.take a.front)) (String.ofList ((chars.take inner).drop a.front))
    (String.ofList (chars.drop inner))

/-- The notes on splitting the values of a node. Not more than five values are noted. -/
def notes (a : Affixes) (values : List Token) : List Note :=
  .affixes a.front a.back :: (values.take 5).map fun t => a.parts t.word

end Affixes

namespace Node

/-- What is to be split off the values of a node. Nothing is if there are less than two values, if
they are parts of words already, or if they have nothing in common. -/
def affixes? (node : Node) : Except Fault (Option Affixes) :=
  match node.values with
  | t :: _ :: _ =>
    if t.subword then .ok none
    else do
      let a ← Affixes.ofWords (node.values.map Token.word)
      return if a.front = 0 ∧ a.back = 0 then none else some a
  | _ => .ok none

end Node

namespace Pass

def disjoin (id : NodeId) (front back : Int) : Step Pass NodeId := do
  let rest ← onTree (Tree.disjoin id front back)
  count fun tally => { tally with disjoined := tally.disjoined + 1 }
  return rest

def factor (id : NodeId) : Step Pass Bool := do
  let node ← ask (·.node id)
  match ← ask fun _ => node.affixes? with
  | none => return false
  | some a =>
    note (a.notes node.values)
    let _ ← disjoin id a.front a.back
    return true

end Pass

end LogMining
