import LogMining.Text.Cut
import LogMining.Text.Utf8

/-!
# The lines of an input

A line ends at a line feed and nowhere else; a carriage return stays within its line. Lines that are
too long are cut, and lines in which nothing is left are skipped. Bytes are cut into lines first and
decoded line by line, so bytes that are not UTF-8 never spoil the next line.
-/

namespace LogMining.Text

variable {α : Type} [DecidableEq α]

def consPiece (a : α) : List (List α) → List (List α)
  | [] => [[a]]
  | piece :: more => (a :: piece) :: more

/-- The pieces of a list between the occurrences of a separator, which belongs to none of them. -/
def separated (sep : α) (l : List α) : List (List α) :=
  l.foldr (fun a pieces => if a = sep then [] :: pieces else consPiece a pieces) [[]]

@[simp] theorem separated_nil (sep : α) : separated sep [] = [[]] := rfl

theorem separated_cons (sep a : α) (l : List α) :
    separated sep (a :: l) =
      if a = sep then [] :: separated sep l else consPiece a (separated sep l) := rfl

namespace Lines

def defaultLength : Int := 32767

/-- Cuts every line to at most `length` characters and leaves out the lines that are empty then. -/
def trim (length : Int) (lines : List (List Char)) : List String :=
  ((lines.map (takeSigned length)).filter (!·.isEmpty)).map String.ofList

def ofText (length : Int) (text : String) : List String :=
  trim length (separated '\n' text.toList)

def ofBytes (length : Int) (bytes : List UInt8) : List String :=
  trim length ((separated 0x0A bytes).map Utf8.decode)

end Lines

end LogMining.Text
