import LogMining.Shape.Match

/-!
# Tokens

A token is a word together with what is known about it: how often it has been seen, whether it was
cut out of a longer word, and whether it stands for a shape rather than for itself.
-/

namespace LogMining

/-- A word that has been seen at one place of a line. -/
structure Token where
  word : String
  /-- The number of lines that have this word here. -/
  occurs : Int := 1
  /-- The word is a part of the word of a line. -/
  subword : Bool := false
  /-- The word stands for all values of a shape. -/
  special : Bool := false
deriving DecidableEq, Repr

namespace Token

def isPlaceholder (t : Token) : Bool := t.word.front? == some Shape.marker

theorem isPlaceholder_iff (t : Token) :
    t.isPlaceholder = true ↔ t.word.toList.head? = some Shape.marker := by
  rw [isPlaceholder, String.front?_eq, beq_iff_eq]

/-- The token that stands for the shape of a word, if all of the word is a value of one shape. -/
def shaped? (t : Token) : Option Token :=
  (Shape.ofWord? t.word.toList).map fun shape =>
    { t with word := shape.placeholder, special := true }

/-- A token with its word replaced by the placeholder of its shape, if it has one. -/
def shaped (t : Token) : Token := t.shaped?.getD t

def format (t : Token) : String :=
  let tag := if t.subword then " \x7bsubword\x7d" else ""
  let count := if 1 < t.occurs then " \x7b" ++ toString t.occurs ++ "\x7d" else ""
  t.word ++ tag ++ count

def flagText (t : Token) : String :=
  (if t.subword then "s" else "") ++ (if t.special then "%" else "")

def debugText (t : Token) : String :=
  let word := String.ofList (t.word.toList.take 30)
  let flags := if t.flagText.isEmpty then "" else ", " ++ t.flagText
  "WordInfo('" ++ word ++ "', occurs=" ++ toString t.occurs ++ flags ++ ")"

end Token

end LogMining
