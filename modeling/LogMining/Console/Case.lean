import LogMining.Console.Case.Table
import LogMining.Text.Range

/-!
# Small letters

A text is turned into small letters letter by letter, with two exceptions: the capital I with a dot
becomes a letter and a combining dot, and a capital sigma at the end of a word becomes the final
small sigma.
-/

namespace LogMining.Console

open Text

def beginsCased (text : List Char) : Bool :=
  (text.find? fun c => !inRanges caseIgnorableRanges c.toNat).any (inRanges casedRanges ·.toNat)

def CaseRun.covers (r : CaseRun) (n : Nat) : Bool :=
  r.first ≤ n && n ≤ r.last && (n - r.first) % r.step == 0

def smallLetter (c : Char) : Char :=
  match caseRuns.find? (·.covers c.toNat) with
  | some r => Char.ofNat (r.small + (c.toNat - r.first))
  | none => c

/-- The small letters of a text, of which the part before it is given last character first. -/
def lowerAfter (before : List Char) : List Char → List Char
  | [] => []
  | c :: rest =>
    let small :=
      if c = 'İ' then ['i', '\u0307']
      else if c = 'Σ' && beginsCased before && !beginsCased rest then ['ς']
      else [smallLetter c]
    small ++ lowerAfter (c :: before) rest

def lower (text : List Char) : List Char := lowerAfter [] text

end LogMining.Console
