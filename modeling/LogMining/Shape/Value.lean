import LogMining.Text.Scan

/-!
# Values within one word

Scanners for the shapes that contain no blank: numbers, times of day, durations and IPv4 addresses.
Each reads a value at the beginning of a text and leaves what follows it, whatever that is. Whether
a whole word has a shape is decided by the length that was read.
-/

namespace LogMining.Text.Scan

def integer : Scan Unit := do
  let _ ← digitRun

def timeOfDay : Scan Unit := do
  let hour ← exactly 2
  char ':'
  let minute ← exactly 2
  char ':'
  let second ← exactly 2
  guard (hour ≤ 23 ∧ minute ≤ 59 ∧ second ≤ 59)

def duration : Scan Unit := do
  let _ ← digitRun
  char ':'
  let minute ← exactly 2
  char ':'
  let second ← exactly 2
  guard (minute ≤ 59 ∧ second ≤ 59)

def isOctet (digits : List Char) : Bool := digits.length ≤ 3 && number digits ≤ 255

def ipv4 : Scan Unit := do
  let a ← digitRun
  char '.'
  let b ← digitRun
  char '.'
  let c ← digitRun
  char '.'
  let d ← digitRun
  guard ([a, b, c, d].all isOctet)

end LogMining.Text.Scan
