import LogMining.Text.Lines
import LogMining.Text.Scan

/-!
# Written numbers

A number is written with digits to the base ten, with a point and an exponent if need be, or as a
whole number to another base. An underscore may stand between two digits, and the letter j makes a
number imaginary.
-/

namespace LogMining.Console.Literal

open Text

/-- What is to be known of a number in order to tell where it can stand. -/
inductive NumberKind where
  | real
  /-- A whole number to which no imaginary one can be added, since it is too large to be rounded. -/
  | vast
  | imaginary
deriving DecidableEq, Repr

def wholeLength : Nat := 4300

/-- Whether digits denote a whole number. It begins with a zero only if it is zero. -/
def isWhole (digits : List Char) : Bool :=
  digits.all (· == '0') || (digits.head? != some '0' && digits.length ≤ wholeLength)

def isWordChar (c : Char) : Bool := c.isAlphanum || c == '_' || 0x80 ≤ c.toNat

def base? : Char → Option Nat
  | 'x' | 'X' => some 16
  | 'o' | 'O' => some 8
  | 'b' | 'B' => some 2
  | _ => none

/-- The least whole number that rounding to 53 binary digits carries to `2 ^ 1024`. -/
def vastFrom : Nat := Nat.pow 2 1024 - Nat.pow 2 970

def wholeKind (n : Nat) : NumberKind := if n < vastFrom then .real else .vast

/-- Reads the longest run of digits and underscores, in which each underscore stands between two
digits, and returns the digits. -/
def digits (base : Nat) : Scan (List Char) := fun text =>
  let inRun := fun c => isDigitOf base c || c == '_'
  let run := text.takeWhile inRun
  if (separated '_' run).all (!·.isEmpty) then
    some (run.filter (· != '_'), text.dropWhile inRun)
  else none

def digitsIfAny : Scan (List Char) := fun text =>
  if text.head?.any fun c => c.isDigit || c == '_' then digits 10 text
  else some ([], text)

def oneOf (cs : List Char) : Scan Unit := fun
  | [] => none
  | c :: rest => if cs.contains c then some ((), rest) else none

def basedNumber : Scan NumberKind := do
  Scan.char '0'
  let letter ← fun
    | [] => none
    | c :: rest => some (c, rest)
  let some base := base? letter | failure
  let _ ← Scan.optional (Scan.char '_')
  return wholeKind (numberTo base (← digits base))

def exponent : Scan Unit := do
  oneOf ['e', 'E']
  let _ ← Scan.optional (oneOf ['+', '-'])
  let _ ← digits 10

def decimalNumber : Scan NumberKind := do
  let whole ← digitsIfAny
  let point ← Scan.optional (Scan.char '.')
  let fraction ← if point.isSome then digitsIfAny else pure []
  let exponent ← Scan.optional exponent
  let imaginary ← Scan.optional (oneOf ['j', 'J'])
  guard (!whole.isEmpty || !fraction.isEmpty)
  if imaginary.isSome then return .imaginary
  if point.isSome || exponent.isSome then return .real
  guard (isWhole whole)
  return wholeKind (numberTo 10 whole)

def number : Scan NumberKind := do
  let kind ← basedNumber <|> decimalNumber
  Scan.followedBy fun rest => !rest.head?.any isWordChar
  return kind

end LogMining.Console.Literal
