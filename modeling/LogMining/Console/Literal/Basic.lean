import LogMining.Console.Literal.Level
import LogMining.Console.Literal.Word
import LogMining.Text.Cut
import LogMining.Text.Pieces

/-!
# Literals

A literal is the written form of a value: a number, a quoted text, one of a few words, or a tuple, a
set or a map of such values. `isLiteral` reads a text from left to right and keeps the levels that
are open. When the bracket of a level is closed, all that stands in it becomes a single item of the
level around it.
-/

namespace LogMining.Console.Literal

open Text

/-- The smallest parts of a text in which a value is written. -/
inductive Lexeme where
  | blank
  | item (i : Item)
  | opening (b : Bracket)
  | closing (b : Bracket)
deriving DecidableEq, Repr

def word : Scan Lexeme := fun text =>
  let letters := text.takeWhile isWordChar
  let rest := text.dropWhile isWordChar
  if valueWords.contains (String.ofList letters) then some (.item (.value (.other true)), rest)
  else if isSetWord letters then some (.item .set, rest)
  else none

def mark : Scan Lexeme := fun
  | ' ' :: rest => some (.blank, rest)
  | '#' :: _ => some (.blank, [])
  | '(' :: rest => some (.opening .round, rest)
  | ')' :: rest => some (.closing .round, rest)
  | '\x7b' :: rest => some (.opening .curly, rest)
  | '\x7d' :: rest => some (.closing .curly, rest)
  | '+' :: rest => some (.item .sign, rest)
  | '-' :: rest => some (.item .sign, rest)
  | ',' :: rest => some (.item .comma, rest)
  | ':' :: rest => some (.item .colon, rest)
  | '.' :: '.' :: '.' :: rest => some (.item (.value (.other true)), rest)
  | _ => none

def lexeme : Scan Lexeme :=
  mark <|> (do return .item (.value (.number (← number) false)))
    <|> (do return .item (.quoted (← quoted))) <|> word

/-- Decides on the first lexeme of a text. Where there is none the whole text cannot be read. -/
def firstLexeme : Cutter (Option Lexeme) := fun c rest =>
  match lexeme (c :: rest) with
  | some (l, left) =>
    (some l, ⟨rest.drop (rest.length - left.length), length_drop_le _ _⟩)
  | none => (none, ⟨[], Nat.zero_le _⟩)

def Lexeme.steps : Lexeme → Nat
  | .item (.quoted _) => 2
  | _ => 0

structure Reader where
  /-- The innermost level that is open. -/
  level : Level := {}
  /-- The levels around it, the innermost first. -/
  outer : List Level := []

def nestingLimit : Nat := 200

/-- Reads one lexeme, unless it is too deep. Where a level is closed the next item could have stood,
so that place must not be too deep either. -/
def Reader.read? (r : Reader) (l : Lexeme) : Option Reader :=
  if depthLimit < r.level.depth + l.steps then none
  else
    match l with
    | .blank => some r
    | .item i => some { r with level := r.level.push i }
    | .opening b =>
      if r.outer.length < nestingLimit then
        some { level := r.level.inside b, outer := r.level :: r.outer }
      else none
    | .closing b =>
      match r.outer with
      | [] => none
      | around :: outer =>
        (r.level.close? b).map fun item => { level := around.push item, outer }

def Reader.readPiece? (r : Reader) (piece : Option Lexeme) : Option Reader := piece.bind r.read?

def Reader.isComplete (r : Reader) : Bool :=
  r.outer.isEmpty &&
    match inRound? r.level.items.reverse with
    | some (.value _) => true
    | _ => false

def isLiteral (text : List Char) : Bool :=
  !text.contains '\x00' &&
    ((pieces firstLexeme text).foldlM Reader.readPiece? {}).any Reader.isComplete

end LogMining.Console.Literal
