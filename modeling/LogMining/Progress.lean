import LogMining.Step

/-!
# Progress of a run

A run goes through phases, each of which has a label and counts the units that are done. A phase
ends when a unit of another label is reported or when the run is finished. Progress that is not
enabled counts nothing.
-/

namespace LogMining

/-- What is known of the progress of a run. -/
structure Progress where
  /-- Whether anything is counted at all. -/
  enabled : Bool := false
  /-- The number of units after which a display is brought up to date. -/
  refreshEvery : Int := 100
  /-- The label of the phase that is open. -/
  label : Option String := none
  /-- The units counted in the open phase, or in the last one if none is open. -/
  count : Nat := 0
  /-- The phases that have ended, with their units. -/
  closed : Array (String × Nat) := #[]
deriving Repr

namespace Progress

def close (p : Progress) : Progress :=
  match p.label with
  | none => p
  | some label => { p with label := none, closed := p.closed.push (label, p.count) }

/-- Ends the open phase if its label is another one, and begins the phase of the given label. -/
def enter (label : String) (p : Progress) : Progress :=
  if p.label = some label then p else { p.close with label := some label, count := 0 }

/-- Reports that a unit is done. The unit has been counted even if the display cannot be brought up
to date. -/
def report (label : String) : Step Progress Unit := fun p =>
  if p.enabled then
    let p := p.enter label
    let p := { p with count := p.count + 1 }
    if p.refreshEvery = 0 then .error .zeroRefresh p else .ok () p
  else .ok () p

def finish (p : Progress) : Progress := if p.enabled then p.close else p

def doneLine (phase : String × Nat) : String :=
  phase.1 ++ ": " ++ toString phase.2 ++ " - done"

def doneLines (p : Progress) : List String := p.closed.toList.map doneLine

def addTotal (phase : String × Nat) : List (String × Nat) → List (String × Nat)
  | [] => [phase]
  | (label, n) :: rest =>
    if label = phase.1 then (label, n + phase.2) :: rest else (label, n) :: addTotal phase rest

def totals (p : Progress) : List (String × Nat) :=
  p.closed.toList.foldl (fun totals phase => addTotal phase totals) []

end Progress

end LogMining
