import LogMining.Text.Cut
import LogMining.Text.Pieces

/-!
# Control sequences of terminals

A terminal takes an escape character and an opening bracket, parameters, intermediate characters and
a final character for an order, such as the choice of a colour. Logs may contain such sequences, and
the dumps that are printed leave them out.
-/

namespace LogMining.Console

open Text

def isParameter (c : Char) : Bool := '0' ≤ c && c ≤ '?'

def isIntermediate (c : Char) : Bool := ' ' ≤ c && c ≤ '/'

def isFinal (c : Char) : Bool := '@' ≤ c && c ≤ '~'

def afterControl? : List Char → Option (List Char)
  | '[' :: rest =>
    match (rest.dropWhile isParameter).dropWhile isIntermediate with
    | c :: left => if isFinal c then some left else none
    | [] => none
  | _ => none

theorem length_of_afterControl? {text left : List Char} (h : afterControl? text = some left) :
    left.length ≤ text.length := by
  unfold afterControl? at h
  split at h
  · next rest =>
    have hdrop := (List.dropWhile_sublist (p := isParameter) (l := rest)).length_le
    split at h
    · next c tail hd =>
      have htail := length_of_dropWhile hd
      split at h
      · cases h
        exact Nat.le_succ_of_le (Nat.le_trans htail hdrop)
      · cases h
    · cases h
  · cases h

/-- Decides on the first piece of a text: a control sequence, which shows nothing, or a character. -/
def firstShown : Cutter (Option Char) := fun c rest =>
  if c = '\x1b' then
    match h : afterControl? rest with
    | some left => (none, ⟨left, length_of_afterControl? h⟩)
    | none => takeOne (some c) rest
  else takeOne (some c) rest

def withoutControl (text : String) : String :=
  String.ofList ((pieces firstShown text.toList).filterMap id)

end LogMining.Console
