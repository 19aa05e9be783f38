/-!
# Scanners

A scanner reads something at the beginning of a text and leaves the rest, or fails. Digits are the
ten ASCII digits. The scanners here never have to give characters back: each takes the longest
stretch it can, and what may follow it never begins with a character it would have taken.
-/

namespace LogMining.Text

/-- Reads a value at the beginning of a text and leaves the rest, or fails. -/
abbrev Scan := StateT (List Char) Option

def number (digits : List Char) : Nat :=
  digits.foldl (fun n d => 10 * n + (d.toNat - '0'.toNat)) 0

def hexValue? (c : Char) : Option Nat :=
  if c.isDigit then some (c.toNat - '0'.toNat)
  else if 'a' ≤ c.toLower && c.toLower ≤ 'f' then some (c.toLower.toNat - 'a'.toNat + 10)
  else none

def isDigitOf (base : Nat) (c : Char) : Bool := (hexValue? c).any (· < base)

def numberTo (base : Nat) (digits : List Char) : Nat :=
  digits.foldl (fun n c => base * n + (hexValue? c).getD 0) 0

namespace Scan

def char (c : Char) : Scan Unit := fun
  | [] => none
  | d :: rest => if d = c then some ((), rest) else none

def digitRun : Scan (List Char) := fun text =>
  let digits := text.takeWhile Char.isDigit
  if digits.isEmpty then none else some (digits, text.dropWhile Char.isDigit)

def exactly (n : Nat) : Scan Nat := fun text =>
  let digits := text.take n
  if digits.length = n ∧ digits.all Char.isDigit then some (number digits, text.drop n) else none

/-- Reads two digits, or one where no second one follows, and returns their number. -/
def oneOrTwo : Scan Nat := fun text =>
  let digits := (text.take 2).takeWhile Char.isDigit
  if digits.isEmpty then none else some (number digits, text.drop digits.length)

def optional {α : Type} (scan : Scan α) : Scan (Option α) := fun text =>
  match scan text with
  | some (a, rest) => some (some a, rest)
  | none => some (none, text)

def followedBy (p : List Char → Bool) : Scan Unit := fun text =>
  if p text then some ((), text) else none

def length? {α : Type} (scan : Scan α) (text : List Char) : Option Nat :=
  (scan text).map fun (_, rest) => text.length - rest.length

end Scan

end LogMining.Text
