import LogMining.Console.Literal.Item

/-!
# The levels of a literal

The items outside of all brackets are one level of a literal, and those in each bracket another one.
An item is reached from the whole by going down, through one step after the other: which brackets it
is in, whether others stand before it there, and which operators it might be an operand of. There is
a step for an operator whether it is there or not, so even a single item is some steps down. Only
`depthLimit` of them can be taken, which makes brackets nest less deep the further to the right they
stand.
-/

namespace LogMining.Console.Literal

open Text

inductive Bracket where
  | round
  | curly
deriving DecidableEq, Repr

def Bracket.close? : Bracket → List Item → Option Item
  | .round => inRound?
  | .curly => inCurly?

/-- The number of steps from a bracket down to the first place in it. -/
def Bracket.steps : Bracket → Nat
  | .round => 28
  | .curly => 29

def stepsPast : Option Bracket → Nat → Nat
  | _, 0 => 0
  | none, _ + 1 => 2
  | some .round, 1 => 2
  | some .round, _ + 2 => 3
  | some .curly, _ + 1 => 1

/-- The number of steps that a sign adds which has been read last, with the items last first. A sign
between two numbers does not add any. -/
def signSteps : List Item → Nat
  | [.sign] => 1
  | .sign :: .comma :: _ => 1
  | .sign :: .colon :: _ => 1
  | _ => 0

def callSteps : Nat := 24

def depthLimit : Nat := 6000

structure Level where
  /-- The bracket that was opened, unless this is the level outside of all brackets. -/
  bracket : Option Bracket := none
  /-- The number of steps down to the first place. -/
  base : Nat := 25
  /-- The items, last first. -/
  items : List Item := []
  /-- The number of commas among the items. -/
  commas : Nat := 0
deriving Repr

namespace Level

def depth (l : Level) : Nat := l.base + stepsPast l.bracket l.commas + signSteps l.items

def push (i : Item) (l : Level) : Level :=
  { l with items := i :: l.items, commas := if i = .comma then l.commas + 1 else l.commas }

def inside (b : Bracket) (l : Level) : Level :=
  { bracket := some b
    base := l.depth + if l.items.head? = some .set then callSteps else b.steps }

def close? (b : Bracket) (l : Level) : Option Item :=
  if l.bracket = some b then b.close? l.items.reverse else none

end Level

end LogMining.Console.Literal
