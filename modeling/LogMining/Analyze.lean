import LogMining.Session
import LogMining.Text.Lines

/-!
# Analyzing a log

The whole of one run: the lines of the input are taken in, the tree is printed, refined and printed
again. What has been printed stays printed when the run fails, and progress is ended either way.
-/

namespace LogMining

structure Options where
  /-- Print the tree before it is refined, too. -/
  initialTree : Bool := true
  /-- Draw outlines instead of dumps. -/
  pretty : Bool := false
  /-- Print the figures of the run. -/
  measure : Bool := false
  /-- Report progress. -/
  reportProgress : Bool := false
  /-- Tell of the decisions in refining. -/
  verbose : Bool := false
  /-- The number of tokens that can be pending. -/
  pendingCapacity : Int := 8
  /-- The number of characters of a line that are kept. -/
  lineLength : Int := Text.Lines.defaultLength

/-- What a run has printed, and the code with which it exits. -/
structure Outcome where
  exitCode : Nat
  /-- The lines on the standard output. -/
  output : List String
  /-- The texts that are printed on the standard error, without those that tell of notes. -/
  errors : List String
  /-- The notes that were taken. -/
  notes : List Note

structure Run where
  session : Session
  printed : Array String := #[]

namespace Run

variable {α : Type}

def onSession (step : Step Session α) : Step Run α := fun ⟨session, printed⟩ =>
  Step.mapState (fun session => ⟨session, printed⟩) (step.run session)

def print (terminal : Terminal) (options : Options) : Step Run Unit := do
  let lines ← onSession
    (if options.pretty then Session.drawing terminal
      else do return (← Session.dump).map terminal.echo)
  modify fun run => { run with printed := run.printed ++ lines }

def analyze (terminal : Terminal) (options : Options) (input : List UInt8) : Step Run Unit := do
  let _ ← onSession (Session.addLines (Text.Lines.ofBytes options.lineLength input))
  if options.initialTree then print terminal options
  onSession Session.refine
  print terminal options

end Run

def Stats.report (s : Stats) : List String :=
  ["", "=== Mining Results ===",
   "Lines processed: " ++ toString s.lines,
   "Nodes before refinement: " ++ toString s.nodesBefore,
   "Nodes after refinement: " ++ toString s.nodes,
   "Chains squashed: " ++ toString s.squashed,
   "Prefix/suffix splits: " ++ toString s.disjoined]

/-- The line that tells of a fault. Only a fault that other settings would mend is told of. -/
def Fault.report : Fault → List String
  | .overflow capacity => ["Error: " ++ (Fault.overflow capacity).message]
  | _ => []

/-- What a run over an input prints and how it exits. No figures are printed after a fault. -/
def analyze (terminal : Terminal) (options : Options) (input : List UInt8) : Outcome :=
  let session : Session :=
    { pending := { capacity := options.pendingCapacity }
      progress := { enabled := options.reportProgress }
      keepsNotes := options.verbose }
  let result := (Run.analyze terminal options input).run { session }
  let run := Step.state result
  let session := run.session.finish
  let (exitCode, report) :=
    match result with
    | .ok _ _ => (0, if options.measure then session.stats.report else [])
    | .error fault _ => (1, fault.report)
  { exitCode, output := run.printed.toList, errors := session.progress.doneLines ++ report
    notes := session.notes.toList }

end LogMining
