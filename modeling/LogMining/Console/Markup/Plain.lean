import LogMining.Console.Alphanumeric
import LogMining.Console.Display
import LogMining.Console.Literal.Basic
import LogMining.Console.Markup.Piece
import LogMining.Console.Markup.Style

/-!
# What marked-up text shows

`plain` reads marked-up text and returns what is displayed of it. Tags show nothing, but they are
read: a closing tag must have a tag to close, what a handler is called with must be a literal, and
colours must be complete.

Codes for emoji are looked for in each stretch of text by itself. A stretch ends at a tag, and a tag
that backslashes make ordinary text is a stretch of its own, as are the backslashes before any tag.
-/

namespace LogMining.Console.Markup

open Text

structure Tag where
  /-- The name as tags are compared. -/
  name : List Char
  /-- What follows the first equals sign. -/
  parameters : Option (List Char)
deriving DecidableEq, Repr

namespace Tag

def styleText (tag : Tag) : List Char :=
  match tag.parameters with
  | none => tag.name
  | some parameters => tag.name ++ ' ' :: parameters

/-- Whether the parameters of a tag for a handler can be read: a name and what the handler is called
with in round brackets, each of which can be left out, or else a literal. -/
def isCall (parameters : List Char) : Bool :=
  let call := withoutMargins parameters
  let arguments := call.dropWhile fun c => isNameChar c || c == '.'
  if arguments.isEmpty then true
  else if arguments.head? = some '(' && arguments.getLast? = some ')' then
    Literal.isLiteral arguments
  else Literal.isLiteral call

def checkStyle (tag : Tag) : Except Fault Unit := do
  let _ ← (Style.read tag.styleText).run

def checkClosed (tag : Tag) : Except Fault Unit :=
  if tag.name.head? = some '@' then
    if tag.parameters.all isCall then .ok () else .error unreadable
  else tag.checkStyle

end Tag

/-- The state of a reader of marked-up text. -/
structure Plain where
  /-- The stretches that have ended, as they are displayed, the latest first. -/
  shown : List (List Char) := []
  /-- The stretch that is read, last character first. -/
  stretch : List Char := []
  /-- The tags that are open, the latest first. -/
  opened : List Tag := []

namespace Plain

def unmatched : Fault := .refused "closing tag has nothing to close"

def endStretch (s : Plain) : Plain :=
  { s with shown := displayed s.stretch.reverse :: s.shown, stretch := [] }

def put (s : Plain) (text : List Char) : Plain := { s with stretch := text.reverse ++ s.stretch }

def putApart (s : Plain) (text : List Char) : Plain := (s.endStretch.put text).endStretch

def openTag (s : Plain) (tag : Tag) : Plain := { s with opened := tag :: s.opened }

def closeTag (s : Plain) (test : Tag → Bool) : Except Fault Plain := do
  let some tag := s.opened.find? test | throw unmatched
  tag.checkClosed
  return { s with opened := s.opened.eraseP test }

/-- Reads the inside of a tag. The name ends at the first equals sign. A closing tag without a name
closes the latest open tag, one with a name the latest open tag of that name. -/
def readTag (s : Plain) (inside : List Char) : Except Fault Plain := do
  match inside.takeWhile (· != '=') with
  | '/' :: name =>
    let name := withoutMargins name
    if name.isEmpty then s.closeTag fun _ => true
    else
      let name ← normalName name
      s.closeTag (·.name == name)
  | name => return s.openTag ⟨← normalName name, (inside.dropWhile (· != '=')).tail?⟩

/-- Reads one piece. Before a tag every two backslashes stand for one, and a single one left over
makes the tag ordinary text. Before a bracket that begins no tag one backslash is dropped. -/
def read (s : Plain) : Piece → Except Fault Plain
  | .char n c => .ok (s.put (slashText (if c = '[' then n - 1 else n) ++ [c]))
  | .slashes n => .ok (s.put (slashText n))
  | .tag n inside =>
    let s := s.putApart (slashText (n / 2))
    if n % 2 = 1 then .ok (s.putApart (tagText inside)) else s.readTag inside

end Plain

def plain (markup : String) : Except Fault String := do
  let s ← (pieces firstPiece markup.toList).foldlM Plain.read {}
  s.opened.forM Tag.checkStyle
  return String.ofList s.endStretch.shown.reverse.flatten

end LogMining.Console.Markup
