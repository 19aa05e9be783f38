import LogMining.Progress
import LogMining.Terminal

/-!
# Reporting on a terminal

A reporter shows the progress of a run on a terminal. A phase that begins is put on the display as a task, and
when it ends, its task is taken off and the line that tells of it is printed. The terminal may refuse either, and
then the reporter is left in the middle of that: a phase without a task, or a phase whose units are part of the
totals though no line tells of them.

Sessions report under labels of plain words, which are displayed as they are, and keep the progress alone.
-/

namespace LogMining

structure Reporter where
  progress : Progress := {}
  /-- The number of tasks that the display has had, after which the next one is numbered. -/
  tasks : Nat := 0
  /-- The task that was given to the open phase. -/
  task : Option Nat := none
  /-- Whether that task is on the display. -/
  isShown : Bool := false
  /-- What was added to the totals without a line that tells of it. -/
  untold : Array (String × Nat) := #[]
deriving Repr

namespace Reporter

variable (terminal : Terminal)

/-- Ends the open phase. Its units are added to the totals first, then its task is taken off the display, and
last its line is printed. -/
def close : Step Reporter Unit := fun r =>
  match r.progress.label with
  | none => .ok () r
  | some label =>
    let phase := (label, r.progress.count)
    let untold := r.untold.push phase
    if r.isShown then
      match terminal.print (Progress.doneLine phase) with
      | .ok _ => .ok () { r with progress := r.progress.close, task := none, isShown := false }
      | .error fault => .error fault { r with isShown := false, untold }
    else .error (.noTask r.task) { r with untold }

/-- Begins a phase, which has a label before it has a task. -/
def start (label : String) : Step Reporter Unit := fun r =>
  let begun := { r with
    progress := { r.progress with label := some label, count := 0 }, tasks := r.tasks + 1 }
  match terminal.addTask label with
  | .ok _ => .ok () { begun with task := some r.tasks, isShown := true }
  | .error fault => .error fault begun

def refresh : Step Reporter Unit := fun r =>
  if r.progress.refreshEvery = 0 then .error .zeroRefresh r
  else if (r.progress.count : Int) % r.progress.refreshEvery = 0 ∧ r.isShown = false then
    .error (.noTask r.task) r
  else .ok () r

def enter (label : String) : Step Reporter Unit := fun r =>
  if r.progress.label = some label then .ok () r
  else (do close terminal; start terminal label : Step Reporter Unit).run r

def countUnit : Step Reporter Unit :=
  modify fun r => { r with progress := { r.progress with count := r.progress.count + 1 } }

def report (label : String) : Step Reporter Unit := fun r =>
  if r.progress.enabled then
    (do enter terminal label; countUnit; refresh : Step Reporter Unit).run r
  else .ok () r

/-- Ends the run. The display is stopped, and begins to number its tasks anew. -/
def finish : Step Reporter Unit := fun r =>
  if r.progress.enabled then
    (do close terminal; modify fun r => { r with tasks := 0 } : Step Reporter Unit).run r
  else .ok () r

/-- Does something, and ends the run whether that fails or not. A fault at the end hides the one before. -/
def during (body : Step Reporter Unit) : Step Reporter Unit := fun r =>
  match body.run r with
  | .ok _ r => (finish terminal).run r
  | .error fault r =>
    match (finish terminal).run r with
    | .ok _ r => .error fault r
    | .error fault r => .error fault r

def doneLines (r : Reporter) : List String := r.progress.doneLines

def shownLines (r : Reporter) : List (List String) :=
  r.doneLines.map fun text => (terminal.print text).toOption.getD []

def totals (r : Reporter) : List (String × Nat) :=
  Progress.totals { r.progress with closed := r.progress.closed ++ r.untold }

section

variable {terminal} {r : Reporter} {label : String}

theorem run_enter_of_open (h : r.progress.label = some label) : (enter terminal label).run r = .ok () r :=
  if_pos h

theorem run_enter_of_ne (h : r.progress.label ≠ some label) :
    (enter terminal label).run r =
      (do close terminal; start terminal label : Step Reporter Unit).run r :=
  if_neg h

theorem run_report_of_enabled (h : r.progress.enabled = true) :
    (report terminal label).run r =
      (do enter terminal label; countUnit; refresh : Step Reporter Unit).run r :=
  if_pos h

theorem run_report_of_not (h : r.progress.enabled ≠ true) : (report terminal label).run r = .ok () r :=
  if_neg h

theorem run_finish_of_enabled (h : r.progress.enabled = true) :
    (finish terminal).run r =
      (do close terminal; modify fun r => { r with tasks := 0 } : Step Reporter Unit).run r :=
  if_pos h

theorem run_finish_of_not (h : r.progress.enabled ≠ true) : (finish terminal).run r = .ok () r :=
  if_neg h

end

end Reporter

end LogMining
