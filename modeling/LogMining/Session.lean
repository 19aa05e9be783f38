import LogMining.Refine.Sweep
import LogMining.Render.Dump
import LogMining.Render.Outline
import LogMining.Tree.Growth

/-!
# Mining sessions

A session takes in the lines of a log, refines the tree that has grown, and renders it, in any order
and any number of times. It reports every line read, every node refined and every node rendered to
its progress, which never changes what is mined.
-/

namespace LogMining

/-- The state of a mining run. -/
structure Session where
  tree : Tree := .empty
  pending : Pending := {}
  progress : Progress := {}
  /-- The number of lines taken in. -/
  lines : Nat := 0
  /-- The number of nodes before the tree was last refined. -/
  nodesBefore : Option Nat := none
  /-- What the last refinement changed. -/
  tally : Tally := {}
  /-- Whether notes are taken of what is decided in refining. -/
  keepsNotes : Bool := false
  /-- The notes of all refinements. -/
  notes : Array Note := #[]

structure Stats where
  lines : Nat
  nodesBefore : Nat
  nodes : Nat
  squashed : Nat
  disjoined : Nat
deriving DecidableEq, Repr

namespace Session

variable {α : Type}

def onProgress (step : Step Progress α) : Step Session α := fun s =>
  Step.mapState (fun progress => { s with progress }) (step.run s.progress)

def onGrowth (step : Step (Tree × Pending) α) : Step Session α :=
  fun ⟨tree, pending, progress, lines, nodesBefore, tally, keepsNotes, notes⟩ =>
    Step.mapState
      (fun (tree, pending) =>
        ⟨tree, pending, progress, lines, nodesBefore, tally, keepsNotes, notes⟩)
      (step.run (tree, pending))

/-- Refines in a pass that takes over the tree, the progress and the notes, and counts anew. -/
def onPass (step : Step Pass α) : Step Session α :=
  fun ⟨tree, pending, progress, lines, nodesBefore, _, keepsNotes, notes⟩ =>
    Step.mapState
      (fun ⟨tree, progress, tally, keepsNotes, notes⟩ =>
        ⟨tree, pending, progress, lines, nodesBefore, tally, keepsNotes, notes⟩)
      (step.run { tree, progress, tally := {}, keepsNotes, notes })

def addLine (line : String) : Step Session NodeId := do
  onProgress (Progress.report "reading")
  let id ← onGrowth (Tree.insertLine line)
  modify fun s => { s with lines := s.lines + 1 }
  return id

def addLines (lines : List String) : Step Session Nat := do
  lines.forM fun line => do let _ ← addLine line
  return lines.length

def refine : Step Session Unit := do
  modify fun s => { s with nodesBefore := some s.tree.live }
  onPass Pass.sweep

def process (lines : List String) : Step Session Unit := do
  let _ ← addLines lines
  refine

def stats (s : Session) : Stats :=
  { lines := s.lines
    nodesBefore := s.nodesBefore.getD s.tree.live
    nodes := s.tree.live
    squashed := s.tally.squashed
    disjoined := s.tally.disjoined }

/-- The dump of the tree. Every node is reported. -/
def dump : Step Session (List String) := do
  (← get).tree.dumpBy (onProgress (Progress.report "print"))

/-- The outline of the tree. Every node but the top one is reported. -/
def outline (terminal : Terminal) : Step Session Outline := do
  (← get).tree.outlineBy terminal (onProgress (Progress.report "print")) Tree.root

def drawing (terminal : Terminal) : Step Session (List String) := do
  let outline ← outline terminal
  Step.query fun _ => terminal.draw outline

def finish (s : Session) : Session := { s with progress := s.progress.finish }

end Session

end LogMining
