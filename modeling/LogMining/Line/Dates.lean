import LogMining.Shape.Match
import LogMining.Text.Cut
import LogMining.Text.Pieces

/-!
# The dates of a line

Dates contain blanks, so they are replaced before a line is cut into words. A line is read from left
to right: where a date begins, all of it becomes one segment, and any other character is a segment
by itself. Whether a date begins somewhere depends on the rest of the line from there on alone, as
it was before anything in it was replaced.
-/

namespace LogMining.Line

/-- The parts of a line. -/
inductive Segment where
  /-- A date of the given shape with its characters. -/
  | date (shape : Shape) (span : List Char)
  /-- A character with which no date begins. -/
  | char (c : Char)
deriving DecidableEq, Repr

namespace Segment

def source : Segment → List Char
  | date _ span => span
  | char c => [c]

def text : Segment → List Char
  | date shape _ => shape.placeholder.toList
  | char c => [c]

end Segment

/-- The shape of the date with which a text begins, and the number of characters of the date after
its first one. -/
def date? (text : List Char) : Option (Shape × Nat) :=
  Shape.ofLines.findSome? fun shape =>
    match shape.length? text with
    | some (n + 1) => some (shape, n)
    | _ => none

def firstSegment : Text.Cutter Segment := fun c rest =>
  match date? (c :: rest) with
  | some (shape, n) => (.date shape (c :: rest.take n), ⟨rest.drop n, Text.length_drop_le n rest⟩)
  | none => Text.takeOne (.char c) rest

def segments (line : List Char) : List Segment := Text.pieces firstSegment line

/-- A line with every date replaced by its placeholder. -/
def maskDates (line : String) : String :=
  String.ofList ((segments line.toList).flatMap Segment.text)

end LogMining.Line
