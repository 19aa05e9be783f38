import LogMining.Console.Literal.Number
import LogMining.Console.Literal.Quoted
import LogMining.Text.Lines

/-!
# Values and what they are made of

Of a value only as much is kept as decides where it can stand: whether it is a number that can be
given a sign or be added to another one, and whether it can be a key. Values are made of items, in
which everything between two brackets has become a single item already.
-/

namespace LogMining.Console.Literal

open Text

/-- What is to be known of a value. -/
inductive Value where
  /-- A number, which may have a sign already. -/
  | number (kind : NumberKind) (signed : Bool)
  /-- Any other value. Sets and maps, and what contains one, cannot be keys. -/
  | other (canBeKey : Bool)
deriving DecidableEq, Repr

def Value.canBeKey : Value → Bool
  | .number .. => true
  | .other canBeKey => canBeKey

inductive Item where
  | value (v : Value)
  | quoted (kind : QuotedKind)
  /-- Two round brackets with nothing between them. -/
  | unit
  /-- The word that, followed by `unit`, denotes the empty set. -/
  | set
  | sign
  | comma
  | colon
deriving DecidableEq, Repr

/-- The value that items denote. A sign stands before a number without one, an imaginary number can
be added to a real one, and quoted texts of one kind are put together. -/
def valueOf? : List Item → Option Value
  | [.value v] => some v
  | [.unit] => some (.other true)
  | [.set, .unit] => some (.other false)
  | [.sign, .value (.number kind false)] => some (.number kind true)
  | [.value (.number .real _), .sign, .value (.number .imaginary false)] => some (.other true)
  | [.sign, .value (.number .real false), .sign, .value (.number .imaginary false)] =>
    some (.other true)
  | .quoted kind :: more => if more.all (· == .quoted kind) then some (.other true) else none
  | _ => none

def commaParts (items : List Item) : List (List Item) :=
  match (separated .comma items).reverse with
  | [] :: before => before.reverse
  | _ => separated .comma items

def inRound? (items : List Item) : Option Item :=
  match items with
  | [] => some .unit
  | [.set] => some .set
  | _ =>
    if items.contains .comma then do
      let values ← (commaParts items).mapM valueOf?
      return .value (.other (values.all Value.canBeKey))
    else (valueOf? items).map .value

def isElement (items : List Item) : Bool := (valueOf? items).any Value.canBeKey

def isEntry (items : List Item) : Bool :=
  match separated .colon items with
  | [key, value] => isElement key && (valueOf? value).isSome
  | _ => false

def inCurly? (items : List Item) : Option Item :=
  let parts := if items.isEmpty then [] else commaParts items
  if parts.all isEntry || parts.all isElement then some (.value (.other false)) else none

end LogMining.Console.Literal
