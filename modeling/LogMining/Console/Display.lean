import LogMining.Console.Emoji
import LogMining.Console.Width
import LogMining.Text.Lines

/-!
# Displayed text

A display shows emoji in place of their codes, ends its lines at line feeds and fills them up with
spaces where tabs stand. Characters that would move the cursor are not shown.
-/

namespace LogMining.Console

open Text

/-- The bell, the backspace, and the characters that lead to another line or back to its beginning.
A line feed is none of them, since it ends a line. -/
def cursorCharacters : List Char := ['\x07', '\x08', '\x0b', '\x0c', '\x0d']

def displayed (text : List Char) : List Char :=
  (withEmoji text).filter (!cursorCharacters.contains ·)

def tabDistance : Nat := 8

/-- The part of a line up to a tab, filled up with spaces to the next tab stop. There is at least
one space. -/
def filledUp (part : List Char) : List Char :=
  let spaced := part ++ [' ']
  spaced ++ List.replicate ((tabDistance - width spaced % tabDistance) % tabDistance) ' '

def joinTabbed : List (List Char) → List Char
  | [] => []
  | [last] => last
  | part :: more => filledUp part ++ joinTabbed more

def withoutTabs (line : List Char) : List Char := joinTabbed (separated '\t' line)

def displayLines (text : String) : List String :=
  (separated '\n' (displayed text.toList)).map fun line => String.ofList (withoutTabs line)

end LogMining.Console
