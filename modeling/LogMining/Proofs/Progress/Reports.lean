import LogMining.Progress
import Mathlib.Logic.Function.Iterate

/-!
# Reports that go through

A report goes through unless a display is to be brought up to date every zero units, and no report changes
that. `Progress.counted` is the progress with one more unit, so reporting is `counted` as long as reports go
through.
-/

namespace LogMining.Progress

/-- Whether reports go through, which they do unless a display is to be brought up to date every zero
units. -/
def Reports (p : Progress) : Prop := p.enabled = true → p.refreshEvery ≠ 0

/-- The progress with one more unit of a phase, if units are counted at all. -/
def counted (label : String) (p : Progress) : Progress :=
  if p.enabled then { p.enter label with count := (p.enter label).count + 1 } else p

variable {p : Progress}

theorem refreshEvery_close (p : Progress) : p.close.refreshEvery = p.refreshEvery := by
  unfold close
  split <;> rfl

theorem enabled_close (p : Progress) : p.close.enabled = p.enabled := by
  unfold close
  split <;> rfl

theorem refreshEvery_enter (label : String) (p : Progress) :
    (p.enter label).refreshEvery = p.refreshEvery := by
  unfold enter
  split
  · rfl
  · exact refreshEvery_close p

theorem enabled_enter (label : String) (p : Progress) : (p.enter label).enabled = p.enabled := by
  unfold enter
  split
  · rfl
  · exact enabled_close p

theorem refreshEvery_finish (p : Progress) : p.finish.refreshEvery = p.refreshEvery := by
  unfold finish
  split
  · exact refreshEvery_close p
  · rfl

theorem enabled_finish (p : Progress) : p.finish.enabled = p.enabled := by
  unfold finish
  split
  · exact enabled_close p
  · rfl

theorem enabled_counted (label : String) (p : Progress) : (p.counted label).enabled = p.enabled := by
  rw [counted]
  split
  · exact enabled_enter label p
  · rfl

theorem refreshEvery_counted (label : String) (p : Progress) :
    (p.counted label).refreshEvery = p.refreshEvery := by
  rw [counted]
  split
  · exact refreshEvery_enter label p
  · rfl

theorem reports_counted (label : String) (p : Progress) : (p.counted label).Reports ↔ p.Reports := by
  rw [Reports, Reports, enabled_counted, refreshEvery_counted]

theorem reports_iterate_counted (label : String) (n : Nat) (p : Progress) :
    ((counted label)^[n] p).Reports ↔ p.Reports := by
  induction n generalizing p with
  | zero => exact Iff.rfl
  | succ n ih => rw [Function.iterate_succ_apply, ih, reports_counted]

theorem run_report (h : p.Reports) (label : String) : (report label).run p = .ok () (p.counted label) := by
  simp only [EStateM.run, report, counted]
  split
  · next henabled => rw [if_neg ((refreshEvery_enter label p).symm ▸ h henabled)]
  · rfl

theorem run_report_of_not (h : ¬p.Reports) (label : String) :
    (report label).run p = .error .zeroRefresh (p.counted label) := by
  rw [Reports, Classical.not_imp, not_not] at h
  simp only [EStateM.run, report, counted, if_pos h.1]
  rw [if_pos ((refreshEvery_enter label p).trans h.2)]

theorem reports_report (label : String) (p : Progress) :
    (Step.state ((report label).run p)).Reports ↔ p.Reports := by
  by_cases h : p.Reports
  · rw [run_report h]
    exact reports_counted label p
  · rw [run_report_of_not h]
    exact reports_counted label p

end LogMining.Progress
