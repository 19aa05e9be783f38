import LogMining.Proofs.Progress.Totals
import Mathlib.Data.List.SplitBy

/-!
# Runs of equal reports

Progress is told of by a sequence of calls, each of which reports a unit or ends the run. The phases that are
counted are the longest runs of equal reports in that sequence, with their lengths, and a report that fails has
been counted like any other.
-/

namespace LogMining.Progress

/-- A call by which progress is told of. -/
inductive Call where
  | report (label : String)
  | finish
deriving DecidableEq, Repr

namespace Call

def step : Call → Step Progress Unit
  | report label => Progress.report label
  | finish => modify Progress.finish

def label? : Call → Option String
  | report label => some label
  | finish => none

theorem label?_injective : Function.Injective label? := by
  intro call call' h
  cases call <;> cases call' <;> simp_all [label?]

end Call

def after (p : Progress) : List Call → Progress
  | [] => p
  | call :: calls => after (Step.state (call.step.run p)) calls

/-- The phase that a group of equal calls makes, if these are reports. -/
def phase? : List Call → Option (String × Nat)
  | .report label :: more => some (label, more.length + 1)
  | _ => none

/-- The longest runs of equal reports in a sequence of calls, with their lengths. -/
def runs (calls : List Call) : List (String × Nat) := (calls.splitBy (· == ·)).filterMap phase?

variable {p : Progress} {label : String}

section Calls

theorem state_run_report (p : Progress) (label : String) :
    Step.state ((Call.report label).step.run p) = p.counted label := by
  by_cases h : p.Reports
  · exact congrArg Step.state (run_report h label)
  · exact congrArg Step.state (run_report_of_not h label)

theorem after_append (p : Progress) (done calls : List Call) :
    p.after (done ++ calls) = (p.after done).after calls := by
  induction done generalizing p with
  | nil => rfl
  | cons call done ih => exact ih _

theorem label_finish (h : p.enabled = true) : p.finish.label = none := by
  rw [finish, if_pos h, close]
  split
  · assumption
  · rfl

theorem phases_finish (h : p.enabled = true) : p.finish.phases = p.phases := by
  rw [phases, label_finish h, finish, if_pos h, toList_closed_close]
  exact List.append_nil _

theorem enabled_step (p : Progress) (call : Call) :
    (Step.state (call.step.run p)).enabled = p.enabled := by
  cases call with
  | report label => rw [state_run_report, enabled_counted]
  | finish => exact enabled_finish p

theorem refreshEvery_step (p : Progress) (call : Call) :
    (Step.state (call.step.run p)).refreshEvery = p.refreshEvery := by
  cases call with
  | report label => rw [state_run_report, refreshEvery_counted]
  | finish => exact refreshEvery_finish p

theorem Busy.step (h : p.Busy) (henabled : p.enabled = true) (call : Call) :
    (Step.state (call.step.run p)).Busy := by
  cases call with
  | report label => exact state_run_report p label ▸ h.counted label
  | finish =>
      intro phase hphase
      exact h phase (phases_finish henabled ▸ hphase)

theorem enabled_after (p : Progress) (calls : List Call) : (p.after calls).enabled = p.enabled := by
  induction calls generalizing p with
  | nil => rfl
  | cons call calls ih => exact (ih _).trans (enabled_step p call)

theorem refreshEvery_after (p : Progress) (calls : List Call) :
    (p.after calls).refreshEvery = p.refreshEvery := by
  induction calls generalizing p with
  | nil => rfl
  | cons call calls ih => exact (ih _).trans (refreshEvery_step p call)

theorem Busy.after (h : p.Busy) (henabled : p.enabled = true) (calls : List Call) : (p.after calls).Busy := by
  induction calls generalizing p with
  | nil => exact h
  | cons call calls ih => exact ih (h.step henabled call) ((enabled_step p call).trans henabled)

theorem unitsOf_phases_step (h : p.enabled = true) (label : String) (call : Call) :
    unitsOf label (Step.state (call.step.run p)).phases =
      unitsOf label p.phases + [call].count (.report label) := by
  cases call with
  | report own =>
      rw [state_run_report, unitsOf_phases_counted h, List.count_singleton]
      simp
  | finish => exact congrArg (unitsOf label) (phases_finish h)

theorem unitsOf_phases_after (h : p.enabled = true) (label : String) (calls : List Call) :
    unitsOf label (p.after calls).phases = unitsOf label p.phases + calls.count (.report label) := by
  induction calls generalizing p with
  | nil => rfl
  | cons call calls ih =>
      rw [← List.singleton_append, List.count_append, ← Nat.add_assoc, ← unitsOf_phases_step h]
      exact ih ((enabled_step p call).trans h)

end Calls

section Groups

theorem iterate_counted_of_open (h : p.enabled = true) (hopen : p.label = some label) (n : Nat) :
    (counted label)^[n] p = { p with count := p.count + n } := by
  induction n with
  | zero => rfl
  | succ n ih =>
      rw [Function.iterate_succ_apply', ih, counted, if_pos h, enter, if_pos hopen]
      rfl

theorem phases_iterate_counted (h : p.enabled = true) (hopen : p.label ≠ some label) (n : Nat) :
    ((counted label)^[n + 1] p).label = some label ∧
      ((counted label)^[n + 1] p).phases = p.phases ++ [(label, n + 1)] := by
  have hfirst : p.counted label = { p.close with label := some label, count := 1 } := by
    rw [counted, if_pos h, enter, if_neg hopen]
  have henabled : (p.counted label).enabled = true := (enabled_counted label p).trans h
  have hlabel : (p.counted label).label = some label := by rw [hfirst]
  rw [Function.iterate_succ_apply, iterate_counted_of_open henabled hlabel]
  refine ⟨hlabel, ?_⟩
  rw [phases, hfirst, ← toList_closed_close p, Nat.add_comm n 1]
  rfl

theorem after_replicate_report (p : Progress) (label : String) (n : Nat) :
    p.after (List.replicate n (.report label)) = (counted label)^[n] p := by
  induction n generalizing p with
  | zero => rfl
  | succ n ih =>
      rw [List.replicate_succ, Function.iterate_succ_apply, ← state_run_report]
      exact ih _

theorem phases_after_replicate_finish (h : p.enabled = true) (n : Nat) :
    (p.after (List.replicate n .finish)).phases = p.phases := by
  induction n generalizing p with
  | zero => rfl
  | succ n ih => exact (ih ((enabled_finish p).trans h)).trans (phases_finish h)

/-- A group of equal calls leaves open the phase of its reports, if it did not go on with one. -/
theorem phases_after_replicate (h : p.enabled = true) {call : Call}
    (hopen : ∀ label, call = .report label → p.label ≠ some label) (n : Nat) :
    (p.after (List.replicate (n + 1) call)).label = call.label? ∧
      (p.after (List.replicate (n + 1) call)).phases =
        p.phases ++ (phase? (List.replicate (n + 1) call)).toList := by
  cases call with
  | report label =>
      rw [after_replicate_report, List.replicate_succ, phase?, List.length_replicate]
      exact phases_iterate_counted h (hopen label rfl) n
  | finish =>
      constructor
      · rw [List.replicate_succ', after_append]
        exact label_finish ((enabled_after ..).trans h)
      · rw [phases_after_replicate_finish h, List.replicate_succ]
        exact (List.append_nil _).symm

theorem exists_replicate {group : List Call} (hne : group ≠ [])
    (hsame : group.IsChain fun call call' => (call == call') = true) :
    ∃ call n, group = List.replicate (n + 1) call := by
  obtain ⟨call, more, rfl⟩ := List.exists_cons_of_ne_nil hne
  simp only [beq_iff_eq] at hsame
  exact ⟨call, more.length, congrArg (call :: ·) (List.isChain_cons_eq_iff_eq_replicate.mp hsame)⟩

/-- The induction is on the groups of equal calls. Each of them begins with another call than the last one
ended with, so it never goes on with the phase that is open. -/
theorem phases_after_flatten (h : p.enabled = true) {groups : List (List Call)} (hne : [] ∉ groups)
    (hsame : ∀ group ∈ groups, group.IsChain fun call call' => (call == call') = true)
    (hchain : groups.IsChain fun group group' =>
      ∃ hlast hhead, (group.getLast hlast == group'.head hhead) = false)
    (hopen : ∀ group ∈ groups.head?, ∀ label, group.head? = some (.report label) → p.label ≠ some label) :
    (p.after groups.flatten).phases = p.phases ++ groups.filterMap phase? := by
  induction groups generalizing p with
  | nil => exact (List.append_nil _).symm
  | cons group groups ih =>
      rw [List.mem_cons, not_or] at hne
      rw [List.forall_mem_cons] at hsame
      rw [List.isChain_cons] at hchain
      obtain ⟨call, n, rfl⟩ := exists_replicate (Ne.symm hne.1) hsame.1
      obtain ⟨hlabel, hphases⟩ := phases_after_replicate h
        (fun label hcall => hopen _ rfl label (congrArg some hcall)) n
      have hopen' : ∀ group' ∈ groups.head?, ∀ label, group'.head? = some (.report label) →
          (p.after (List.replicate (n + 1) call)).label ≠ some label := by
        intro group' hgroup' label hhead heq
        obtain ⟨_, hhead', hne'⟩ := hchain.1 group' hgroup'
        rw [List.getLast_replicate, beq_eq_false_iff_ne] at hne'
        have hcall : call = .report label := Call.label?_injective (hlabel.symm.trans heq)
        rw [List.head?_eq_some_head hhead', Option.some.injEq] at hhead
        exact hne' (hcall.trans hhead.symm)
      rw [List.flatten_cons, after_append,
        ih ((enabled_after ..).trans h) hne.2 hsame.2 hchain.2 hopen', hphases, List.append_assoc,
        List.filterMap_cons]
      cases phase? (List.replicate (n + 1) call) <;> rfl

theorem phases_after (h : p.enabled = true) (hlabel : p.label = none) (calls : List Call) :
    (p.after calls).phases = p.phases ++ runs calls := by
  have hopen : ∀ group ∈ (calls.splitBy (· == ·)).head?, ∀ label, group.head? = some (.report label) →
      p.label ≠ some label := by
    intro _ _ label _
    rw [hlabel]
    exact (Option.some_ne_none label).symm
  have hphases := phases_after_flatten h (List.nil_notMem_splitBy _ calls)
    (fun _ => List.isChain_of_mem_splitBy) (List.isChain_getLast_head_splitBy _ calls) hopen
  rwa [List.flatten_splitBy] at hphases

end Groups

theorem unitsOf_pos_iff {phases : List (String × Nat)} (hpos : ∀ phase ∈ phases, 0 < phase.2)
    (label : String) : 0 < unitsOf label phases ↔ label ∈ phases.map Prod.fst := by
  induction phases with
  | nil => simp [unitsOf]
  | cons phase phases ih =>
      rw [List.forall_mem_cons] at hpos
      rw [unitsOf_cons, List.map_cons, List.mem_cons, ← ih hpos.2]
      have hphase := hpos.1
      split <;> grind

theorem closed_prefix_close (p : Progress) : p.closed.toList <+: p.close.closed.toList := by
  rw [toList_closed_close]
  exact List.prefix_append _ _

theorem closed_prefix_enter (label : String) (p : Progress) :
    p.closed.toList <+: (p.enter label).closed.toList := by
  rw [enter]
  split
  · exact List.prefix_rfl
  · exact closed_prefix_close p

theorem closed_prefix_finish (p : Progress) : p.closed.toList <+: p.finish.closed.toList := by
  rw [finish]
  split
  · exact closed_prefix_close p
  · exact List.prefix_rfl

variable (refreshEvery : Int) (calls : List Call)

theorem busy_start : Busy { enabled := true, refreshEvery } := fun _ h => absurd h List.not_mem_nil

theorem phases_after_start : (after { enabled := true, refreshEvery } calls).phases = runs calls :=
  phases_after rfl rfl calls

theorem unitsOf_runs (label : String) : unitsOf label (runs calls) = calls.count (.report label) := by
  rw [← phases_after_start 100, unitsOf_phases_after rfl]
  exact Nat.zero_add _

theorem pos_of_mem_runs : ∀ phase ∈ runs calls, 0 < phase.2 :=
  phases_after_start 100 calls ▸ (busy_start 100).after rfl calls

theorem mem_map_fst_runs_iff (label : String) :
    label ∈ (runs calls).map Prod.fst ↔ .report label ∈ calls := by
  rw [← unitsOf_pos_iff (pos_of_mem_runs calls), unitsOf_runs, List.count_pos_iff]

theorem after_finish :
    (after { enabled := true, refreshEvery } (calls ++ [.finish])).label = none ∧
      (after { enabled := true, refreshEvery } (calls ++ [.finish])).closed.toList =
        runs (calls ++ [.finish]) := by
  have hlast : after { enabled := true, refreshEvery } (calls ++ [.finish]) =
      (after { enabled := true, refreshEvery } calls).finish := after_append _ calls [.finish]
  have hlabel : (after { enabled := true, refreshEvery } (calls ++ [.finish])).label = none :=
    hlast ▸ label_finish (enabled_after _ calls)
  refine ⟨hlabel, ?_⟩
  rw [← phases_after_start refreshEvery, phases, hlabel]
  exact (List.append_nil _).symm

theorem lookup_totals_after_finish (label : String) :
    (after { enabled := true, refreshEvery } (calls ++ [.finish])).totals.lookup label =
      if (calls ++ [Call.finish]).count (.report label) = 0 then none
      else some ((calls ++ [Call.finish]).count (.report label)) := by
  have hlast : after { enabled := true, refreshEvery } (calls ++ [.finish]) =
      (after { enabled := true, refreshEvery } calls).finish := after_append _ calls [.finish]
  have henabled : (after { enabled := true, refreshEvery } calls).enabled = true := enabled_after _ calls
  have hunits := unitsOf_phases_after (p := { enabled := true, refreshEvery }) rfl label (calls ++ [.finish])
  rw [hlast, phases_finish henabled] at hunits
  rw [hlast, lookup_totals_finish henabled ((busy_start refreshEvery).after rfl calls), hunits]
  exact congrArg (fun n => if n = 0 then none else some n) (Nat.zero_add _)

/-- No call takes back a phase that has ended. -/
theorem closed_prefix_after (p : Progress) (calls : List Call) :
    p.closed.toList <+: (p.after calls).closed.toList := by
  induction calls generalizing p with
  | nil => exact List.prefix_rfl
  | cons call calls ih =>
      refine List.IsPrefix.trans ?_ (ih _)
      cases call with
      | report label =>
          rw [state_run_report, counted]
          split
          · exact closed_prefix_enter label p
          · exact List.prefix_rfl
      | finish => exact closed_prefix_finish p

end LogMining.Progress
