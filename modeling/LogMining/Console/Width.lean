import LogMining.Console.Width.Table
import LogMining.Text.Range

/-!
# Widths of texts

The width of a text is the number of cells of a terminal that it takes up. Each character has a
width of its own, but a joiner draws the next character into the one before it, and the emoji
variant of a narrow character takes up two cells.
-/

namespace LogMining.Console

open Text

def cells (c : Char) : Nat :=
  if inRanges zeroWidthRanges c.toNat then 0
  else if inRanges doubleWidthRanges c.toNat then 2
  else 1

/-- The number of cells of a text that follows the given character, which can still be widened. -/
def widthAfter (last : Option Char) : List Char → Nat
  | [] => 0
  | '\u200d' :: _ :: rest => widthAfter last rest
  | '\u200d' :: [] => 0
  | '\ufe0f' :: rest =>
    (if last.any (inRanges widenedRanges ·.toNat) then 1 else 0) + widthAfter none rest
  | c :: rest => cells c + widthAfter (if cells c = 0 then last else some c) rest

def width (text : List Char) : Nat := widthAfter none text

end LogMining.Console
