import LogMining.Text.Range

/-!
# Blank characters

The words of a line are separated by blanks. Which characters are blank is a table: the white space
of Unicode together with the four separators U+001C to U+001F.
-/

namespace LogMining.Text

def blankRanges : List (Nat × Nat) :=
  [(0x09, 0x0D), (0x1C, 0x20), (0x85, 0x85), (0xA0, 0xA0), (0x1680, 0x1680), (0x2000, 0x200A),
   (0x2028, 0x2029), (0x202F, 0x202F), (0x205F, 0x205F), (0x3000, 0x3000)]

def isBlank (c : Char) : Bool := inRanges blankRanges c.toNat

def isInk (c : Char) : Bool := !isBlank c

def withoutMargins (text : List Char) : List Char :=
  ((text.dropWhile isBlank).reverse.dropWhile isBlank).reverse

end LogMining.Text
