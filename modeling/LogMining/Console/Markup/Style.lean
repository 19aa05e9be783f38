import LogMining.Console.Markup.Colour
import LogMining.Text.Words

/-!
# Styles

A style is written in words: attributes, which may be switched off, a colour, the colour of the
background, and a link. The text of a style does not show in what is displayed, but tags are
compared by it, so two ways to write the same style name the same tag.
-/

namespace LogMining.Console.Markup

open Text

inductive Attribute where
  | bold | dim | italic | underline | blink | rapidBlink | reverse | conceal | strike
  | doubleUnderline | frame | encircle | overline
deriving DecidableEq, Repr

namespace Attribute

def all : List Attribute :=
  [bold, dim, italic, underline, blink, rapidBlink, reverse, conceal, strike, doubleUnderline,
   frame, encircle, overline]

def spellings : Attribute → List String
  | bold => ["bold", "b"]
  | dim => ["dim", "d"]
  | italic => ["italic", "i"]
  | underline => ["underline", "u"]
  | blink => ["blink"]
  | rapidBlink => ["blink2"]
  | reverse => ["reverse", "r"]
  | conceal => ["conceal", "c"]
  | strike => ["strike", "s"]
  | doubleUnderline => ["underline2", "uu"]
  | frame => ["frame"]
  | encircle => ["encircle"]
  | overline => ["overline", "o"]

def name (a : Attribute) : String := a.spellings.headD ""

def ofWord? (word : List Char) : Option Attribute :=
  all.find? fun a => a.spellings.contains (String.ofList word)

end Attribute

structure Style where
  /-- The attributes that are switched, the latest first. -/
  switches : List (Attribute × Bool) := []
  colour : Option (List Char) := none
  background : Option (List Char) := none
  link : Option (List Char) := none
deriving Repr

namespace Style

def readWords (style : Style) : List (List Char) → Reading Style
  | [] => return style
  | word :: rest =>
    let small := lower word
    if small = "on".toList then
      match rest with
      | [] => failure
      | colour :: rest => do readWords { style with background := some (← Colour.read colour) } rest
    else if small = "not".toList then
      match rest with
      | [] => failure
      | switched :: rest => do
        let some a := Attribute.ofWord? switched | failure
        readWords { style with switches := (a, false) :: style.switches } rest
    else if small = "link".toList then
      match rest with
      | [] => failure
      | link :: rest => readWords { style with link := some link } rest
    else
      match Attribute.ofWord? small with
      | some a => readWords { style with switches := (a, true) :: style.switches } rest
      | none => do readWords { style with colour := some (← Colour.read small) } rest

def read (text : List Char) : Reading Style := readWords {} (words text)

def switchText (style : Style) (a : Attribute) : List (List Char) :=
  match style.switches.lookup a with
  | none => []
  | some true => [a.name.toList]
  | some false => [("not " ++ a.name).toList]

/-- The one text that stands for a style, however it was written. -/
def text (style : Style) : List Char :=
  let parts := Attribute.all.flatMap style.switchText ++ style.colour.toList ++
    style.background.toList.map ("on ".toList ++ ·) ++ style.link.toList.map ("link ".toList ++ ·)
  if parts.isEmpty then "none".toList else [' '].intercalate parts

end Style

/-- The name of a tag as tags are compared: the text of its style, or the name in small letters if
it is no style. -/
def normalName (name : List Char) : Except Fault (List Char) := do
  match ← (Style.read name).run with
  | some style => return style.text
  | none => return lower (withoutMargins name)

end LogMining.Console.Markup
