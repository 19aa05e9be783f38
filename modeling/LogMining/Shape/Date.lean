import LogMining.Text.Scan

/-!
# Dates

The two forms of date that log lines begin with. Both scanners read the fields of the date first and
check their ranges at the end. The month of the first form is read without regard to case; beyond
ASCII that lets only the long s, U+017F, stand for the s of September.
-/

namespace LogMining.Text.Scan

def monthNames : List String :=
  ["jan", "feb", "mar", "apr", "may", "jun", "jul", "aug", "sep", "oct", "nov", "dec"]

/-- The lower case of an ASCII letter, and `s` for the long s. -/
def foldCase (c : Char) : Char := if c = '\u017f' then 's' else c.toLower

def month : Scan Unit := fun text =>
  if String.ofList ((text.take 3).map foldCase) ∈ monthNames then some ((), text.drop 3) else none

def noDigit (text : List Char) : Bool := !text.head?.any Char.isDigit

/-- Whether a text is at its end or goes on with a space. A last line feed counts as the end. -/
def spaceOrEnd : List Char → Bool
  | [] => true
  | ['\n'] => true
  | c :: _ => c = ' '

def rfc3164 : Scan Unit := do
  month
  char ' '
  let _ ← optional (char ' ')
  let day ← oneOrTwo
  char ' '
  let year ← optional do
    let year ← exactly 4
    char ' '
    return year
  let hour ← oneOrTwo
  char ':'
  let minute ← oneOrTwo
  char ':'
  let second ← oneOrTwo
  followedBy noDigit
  let _ ← optional (char ':')
  guard (1 ≤ day ∧ day ≤ 31)
  guard (∀ y ∈ year, 1967 ≤ y ∧ y ≤ 2099)
  guard (hour ≤ 23 ∧ minute ≤ 59 ∧ second ≤ 60)

def zone : Scan (Option (Nat × Nat)) := fun
  | 'Z' :: rest => some (none, rest)
  | c :: rest =>
    if c = '+' ∨ c = '-' then
      (do let hour ← exactly 2
          char ':'
          let minute ← exactly 2
          return some (hour, minute) : Scan (Option (Nat × Nat))) rest
    else none
  | [] => none

def rfc5424 : Scan Unit := do
  let _ ← exactly 4
  char '-'
  let month ← exactly 2
  char '-'
  let day ← exactly 2
  char 'T'
  let hour ← exactly 2
  char ':'
  let minute ← exactly 2
  char ':'
  let second ← exactly 2
  let _ ← optional do
    char '.'
    digitRun
  let zone ← zone
  followedBy spaceOrEnd
  guard (1 ≤ month ∧ month ≤ 12 ∧ 1 ≤ day ∧ day ≤ 31)
  guard (hour ≤ 23 ∧ minute ≤ 59 ∧ second ≤ 60)
  guard (∀ z ∈ zone, z.1 ≤ 23 ∧ z.2 ≤ 59)

end LogMining.Text.Scan
