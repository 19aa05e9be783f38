import LogMining.Proofs.Progress.Runs
import LogMining.Reporter

/-!
# Reports on a terminal

What a reporter counts is its progress, as long as the terminal displays every label that is reported and prints
every line that tells of a phase. Then the texts that it prints are a run-length encoding of the reports. A label
that is not displayed is reported without being counted, and a line that is not printed leaves its phase open, so
there is no such encoding on any other terminal.

How a text looks that is printed is another question, and the terminal answers it.
-/

namespace LogMining

open Progress (Call runs doneLine unitsOf)

/-- The terminal prints the texts that tell of some phases, in whatever lines. -/
def Terminal.Prints (terminal : Terminal) (phases : List (String × Nat)) : Prop :=
  ∀ phase ∈ phases, ∃ shown, terminal.print (doneLine phase) = .ok shown

/-- The terminal displays the labels that are reported, and prints the texts that tell of their runs. -/
structure Terminal.Takes (terminal : Terminal) (calls : List Call) : Prop where
  labels : ∀ label, .report label ∈ calls → terminal.addTask label = .ok ()
  lines : terminal.Prints (runs calls)

namespace Reporter

def step (terminal : Terminal) : Call → Step Reporter Unit
  | .report label => report terminal label
  | .finish => finish terminal

def after (terminal : Terminal) (r : Reporter) : List Call → Reporter
  | [] => r
  | call :: calls => after terminal (Step.state ((step terminal call).run r)) calls

def enabled (refreshEvery : Int) : Reporter := { progress := { enabled := true, refreshEvery } }

/-- A reporter is a run-length encoder of the calls that it is told. At every moment the phases that have ended
and the open one are the longest runs of equal reports among the calls made so far, and account for every report,
whether it failed or not. When a run is finished, there is a text for each run, and the totals of the labels that
were reported are the numbers of their reports, which are the sums over their runs. -/
structure Encodes (terminal : Terminal) (refreshEvery : Int) (calls : List Call) : Prop where
  phases : ∀ done, done <+: calls → (after terminal (enabled refreshEvery) done).progress.phases = runs done
  accounts : ∀ done, done <+: calls → ∀ label,
    unitsOf label (after terminal (enabled refreshEvery) done).progress.phases = done.count (.report label)
  reports : ∀ done label, done ++ [.report label] <+: calls →
    (report terminal label).run (after terminal (enabled refreshEvery) done) =
      if refreshEvery = 0 then
        .error .zeroRefresh (after terminal (enabled refreshEvery) (done ++ [.report label]))
      else .ok () (after terminal (enabled refreshEvery) (done ++ [.report label]))
  ended : (after terminal (enabled refreshEvery) calls).progress.label = none
  doneLines : (after terminal (enabled refreshEvery) calls).doneLines = (runs calls).map doneLine
  nodup : ((after terminal (enabled refreshEvery) calls).totals.map Prod.fst).Nodup
  totals : ∀ label, (after terminal (enabled refreshEvery) calls).totals.lookup label =
    if calls.count (.report label) = 0 then none else some (calls.count (.report label))
  sums : ∀ label, unitsOf label (runs calls) = calls.count (.report label)

variable {terminal : Terminal} {r : Reporter} {label : String}

theorem after_append (terminal : Terminal) (r : Reporter) (done calls : List Call) :
    after terminal r (done ++ calls) = after terminal (after terminal r done) calls := by
  induction done generalizing r with
  | nil => rfl
  | cons call done ih => exact ih _

section Taken

/-- The open phase has its task on the display, and a line tells of every phase that was added to the totals. -/
structure Settled (r : Reporter) : Prop where
  isShown : r.progress.label.isSome → r.isShown = true
  untold : r.untold = #[]

theorem Settled.close (h : r.Settled) (hprints : terminal.Prints r.progress.close.closed.toList) :
    ∃ r' : Reporter, r'.Settled ∧ r'.progress = r.progress.close ∧
      (Reporter.close terminal).run r = .ok () r' := by
  cases hlabel : r.progress.label with
  | none =>
      refine ⟨r, h, ?_, ?_⟩
      · rw [Progress.close, hlabel]
      · simp only [EStateM.run, Reporter.close, hlabel]
  | some own =>
      have hmem : (own, r.progress.count) ∈ r.progress.close.closed.toList := by
        rw [Progress.toList_closed_close, Progress.phases, hlabel]
        exact List.mem_append_right _ (List.mem_singleton.mpr rfl)
      obtain ⟨shown, hshown⟩ := hprints _ hmem
      refine ⟨{ r with progress := r.progress.close, task := none, isShown := false }, ⟨?_, h.untold⟩, rfl, ?_⟩
      · simp [Progress.close, hlabel]
      · simp only [EStateM.run, Reporter.close, hlabel, hshown, h.isShown (hlabel ▸ rfl), if_true]

theorem Settled.enter (h : r.Settled) (htask : terminal.addTask label = .ok ())
    (hprints : terminal.Prints (r.progress.enter label).closed.toList) :
    ∃ r' : Reporter, r'.Settled ∧ r'.progress = r.progress.enter label ∧ r'.progress.label = some label ∧
      (Reporter.enter terminal label).run r = .ok () r' := by
  by_cases hopen : r.progress.label = some label
  · refine ⟨r, h, ?_, hopen, run_enter_of_open hopen⟩
    rw [Progress.enter, if_pos hopen]
  · rw [Progress.enter, if_neg hopen] at hprints
    obtain ⟨r₁, h₁, hprogress, hclose⟩ := h.close hprints
    obtain ⟨r₂, h₂, hbegun, hstart⟩ : ∃ r₂ : Reporter, r₂.Settled ∧
        r₂.progress = { r₁.progress with label := some label, count := 0 } ∧
        (start terminal label).run r₁ = .ok () r₂ := by
      simp only [EStateM.run, start, htask]
      refine ⟨_, ?_, ?_, rfl⟩
      · exact ⟨fun _ => rfl, h₁.untold⟩
      · rfl
    refine ⟨r₂, h₂, ?_, hbegun ▸ rfl, ?_⟩
    · rw [Progress.enter, if_neg hopen, hbegun, hprogress]
    · rw [run_enter_of_ne hopen, EStateM.run_bind, hclose]
      exact hstart

theorem run_refresh_of_shown (h : r.isShown = true) :
    refresh.run r = if r.progress.refreshEvery = 0 then .error .zeroRefresh r else .ok () r := by
  simp [EStateM.run, refresh, h]

theorem Settled.report (h : r.Settled) (henabled : r.progress.enabled = true)
    (htask : terminal.addTask label = .ok ())
    (hprints : terminal.Prints (r.progress.counted label).closed.toList) :
    ∃ r' : Reporter, r'.Settled ∧ r'.progress = r.progress.counted label ∧
      (Reporter.report terminal label).run r =
        if r.progress.refreshEvery = 0 then .error .zeroRefresh r' else .ok () r' := by
  rw [Progress.counted, if_pos henabled] at hprints
  obtain ⟨r₁, h₁, hprogress, hlabel, henter⟩ := h.enter htask hprints
  have hshown := h₁.isShown (hlabel ▸ rfl)
  have hrefresh : r₁.progress.refreshEvery = r.progress.refreshEvery := by
    rw [hprogress, Progress.refreshEvery_enter]
  refine ⟨{ r₁ with progress := { r₁.progress with count := r₁.progress.count + 1 } },
    ⟨fun _ => hshown, h₁.untold⟩, ?_, ?_⟩
  · rw [Progress.counted, if_pos henabled, hprogress]
  · rw [run_report_of_enabled henabled, EStateM.run_bind, henter, ← hrefresh]
    exact run_refresh_of_shown (r := { r₁ with progress := _ }) hshown

theorem Settled.finish (h : r.Settled) (henabled : r.progress.enabled = true)
    (hprints : terminal.Prints r.progress.finish.closed.toList) :
    ∃ r' : Reporter, r'.Settled ∧ r'.progress = r.progress.finish ∧
      (Reporter.finish terminal).run r = .ok () r' := by
  rw [Progress.finish, if_pos henabled] at hprints
  obtain ⟨r₁, h₁, hprogress, hclose⟩ := h.close hprints
  refine ⟨{ r₁ with tasks := 0 }, ⟨h₁.isShown, h₁.untold⟩, ?_, ?_⟩
  · rw [Progress.finish, if_pos henabled, hprogress]
  · rw [run_finish_of_enabled henabled, EStateM.run_bind, hclose]
    rfl

theorem Settled.step (h : r.Settled) (henabled : r.progress.enabled = true) (call : Call)
    (hlabel : ∀ label, call = .report label → terminal.addTask label = .ok ())
    (hprints : terminal.Prints (Step.state (call.step.run r.progress)).closed.toList) :
    (Step.state ((Reporter.step terminal call).run r)).Settled ∧
      (Step.state ((Reporter.step terminal call).run r)).progress = Step.state (call.step.run r.progress) := by
  cases call with
  | report label =>
      rw [Progress.state_run_report] at hprints ⊢
      obtain ⟨r', h', hprogress, hrun⟩ := h.report henabled (hlabel label rfl) hprints
      rw [Reporter.step, hrun]
      split <;> exact ⟨h', hprogress⟩
  | finish =>
      obtain ⟨r', h', hprogress, hrun⟩ := h.finish henabled hprints
      rw [Reporter.step, hrun]
      exact ⟨h', hprogress⟩

theorem Settled.after (h : r.Settled) (henabled : r.progress.enabled = true) {calls : List Call}
    (hlabels : ∀ label, .report label ∈ calls → terminal.addTask label = .ok ())
    (hprints : terminal.Prints (r.progress.after calls).closed.toList) :
    (Reporter.after terminal r calls).Settled ∧
      (Reporter.after terminal r calls).progress = r.progress.after calls := by
  induction calls generalizing r with
  | nil => exact ⟨h, rfl⟩
  | cons call calls ih =>
      obtain ⟨hstep, hprogress⟩ := h.step henabled call
        (fun label hcall => hlabels label (hcall ▸ List.mem_cons_self))
        fun phase hphase => hprints phase ((Progress.closed_prefix_after _ calls).subset hphase)
      obtain ⟨hafter, hprogress'⟩ := ih hstep (hprogress ▸ (Progress.enabled_step ..).trans henabled)
        (fun label hlabel => hlabels label (List.mem_cons_of_mem _ hlabel))
        (hprogress ▸ hprints)
      exact ⟨hafter, hprogress'.trans (congrArg (Progress.after · calls) hprogress)⟩

variable {calls done : List Call}

/-- No phase that has ended is taken back, so all that have ended at any moment are runs of the whole. -/
theorem prints_of_takes (refreshEvery : Int) (h : terminal.Takes (calls ++ [.finish]))
    (hdone : done <+: calls ++ [.finish]) :
    terminal.Prints (Progress.after { enabled := true, refreshEvery } done).closed.toList := by
  obtain ⟨rest, hwhole⟩ := hdone
  intro phase hphase
  refine h.lines phase ?_
  rw [← (Progress.after_finish refreshEvery calls).2, ← hwhole, Progress.after_append]
  exact (Progress.closed_prefix_after _ rest).subset hphase

theorem after_of_takes (refreshEvery : Int) (h : terminal.Takes (calls ++ [.finish]))
    (hdone : done <+: calls ++ [.finish]) :
    (Reporter.after terminal (enabled refreshEvery) done).Settled ∧
      (Reporter.after terminal (enabled refreshEvery) done).progress =
        Progress.after { enabled := true, refreshEvery } done :=
  Settled.after (r := enabled refreshEvery) ⟨nofun, rfl⟩ rfl
    (fun label hlabel => h.labels label (hdone.subset hlabel)) (prints_of_takes refreshEvery h hdone)

theorem run_report_of_takes (refreshEvery : Int) (h : terminal.Takes (calls ++ [.finish]))
    (hdone : done ++ [.report label] <+: calls ++ [.finish]) :
    (Reporter.report terminal label).run (Reporter.after terminal (enabled refreshEvery) done) =
      if refreshEvery = 0 then
        .error .zeroRefresh (Reporter.after terminal (enabled refreshEvery) (done ++ [.report label]))
      else .ok () (Reporter.after terminal (enabled refreshEvery) (done ++ [.report label])) := by
  obtain ⟨hsettled, hprogress⟩ := after_of_takes refreshEvery h
    ((List.prefix_append done [.report label]).trans hdone)
  have henabled : (Reporter.after terminal (enabled refreshEvery) done).progress.enabled = true := by
    rw [hprogress, Progress.enabled_after]
  have hrefresh : (Reporter.after terminal (enabled refreshEvery) done).progress.refreshEvery = refreshEvery := by
    rw [hprogress, Progress.refreshEvery_after]
  have hprints := prints_of_takes refreshEvery h hdone
  rw [Progress.after_append, ← hprogress] at hprints
  obtain ⟨r', -, -, hrun⟩ := hsettled.report henabled
    (h.labels label (hdone.subset (List.mem_append_right _ List.mem_cons_self)))
    ((Progress.state_run_report _ label).symm ▸ hprints)
  have hstate : Reporter.after terminal (enabled refreshEvery) (done ++ [.report label]) = r' := by
    rw [after_append, Reporter.after, Reporter.after, Reporter.step, hrun]
    split <;> rfl
  rw [hrun, hrefresh, hstate]

theorem encodes_of_takes (refreshEvery : Int) (h : terminal.Takes (calls ++ [.finish])) :
    Encodes terminal refreshEvery (calls ++ [.finish]) := by
  obtain ⟨hsettled, hprogress⟩ := after_of_takes refreshEvery h List.prefix_rfl
  obtain ⟨hlabel, hclosed⟩ := Progress.after_finish refreshEvery calls
  have htotals : (Reporter.after terminal (enabled refreshEvery) (calls ++ [.finish])).totals =
      (Progress.after { enabled := true, refreshEvery } (calls ++ [.finish])).totals := by
    rw [Reporter.totals, hsettled.untold, hprogress, Array.append_empty]
  have hphases : ∀ done, done <+: calls ++ [.finish] →
      (Reporter.after terminal (enabled refreshEvery) done).progress.phases = runs done := by
    intro done hdone
    rw [(after_of_takes refreshEvery h hdone).2, Progress.phases_after_start]
  refine ⟨hphases, fun done hdone label => ?_, fun done label hdone => ?_, ?_, ?_, ?_, fun label => ?_,
    Progress.unitsOf_runs _⟩
  · rw [hphases done hdone, Progress.unitsOf_runs]
  · exact run_report_of_takes refreshEvery h hdone
  · rw [hprogress, hlabel]
  · rw [Reporter.doneLines, hprogress, Progress.doneLines, hclosed]
  · rw [htotals]
    exact Progress.nodup_totals _
  · rw [htotals, Progress.lookup_totals_after_finish]

end Taken

section Refused

theorem run_close_cases (terminal : Terminal) (r : Reporter) :
    (∃ r', (close terminal).run r = .ok () r' ∧ r'.progress = r.progress.close ∧
      ∀ own, r.progress.label = some own →
        ∃ shown, terminal.print (doneLine (own, r.progress.count)) = .ok shown) ∨
    ∃ fault r', (close terminal).run r = .error fault r' ∧ r'.progress = r.progress := by
  simp only [EStateM.run, close]
  split
  · next hlabel =>
    refine .inl ⟨r, rfl, ?_, fun own hown => ?_⟩
    · rw [Progress.close, hlabel]
    · cases hlabel.symm.trans hown
  · next label hlabel =>
    split
    · split
      · next shown hshown =>
        refine .inl ⟨_, rfl, rfl, fun own hown => ?_⟩
        cases hlabel.symm.trans hown
        exact ⟨shown, hshown⟩
      · exact .inr ⟨_, _, rfl, rfl⟩
    · exact .inr ⟨_, _, rfl, rfl⟩

/-- If the lines of all phases that have ended can be printed, then they still can after a step. -/
def KeepsPrinted {α : Type} (terminal : Terminal) (x : Step Reporter α) : Prop :=
  ∀ r : Reporter, terminal.Prints r.progress.closed.toList →
    terminal.Prints (Step.state (x.run r)).progress.closed.toList

theorem KeepsPrinted.bind {α β : Type} {x : Step Reporter α} {f : α → Step Reporter β}
    (hx : KeepsPrinted terminal x) (hf : ∀ a, KeepsPrinted terminal (f a)) :
    KeepsPrinted terminal (x >>= f) := by
  intro r h
  have hfirst := hx r h
  rw [EStateM.run_bind]
  cases hrun : x.run r with
  | ok a r' =>
      rw [hrun] at hfirst
      exact hf a r' hfirst
  | error fault r' =>
      rw [hrun] at hfirst
      exact hfirst

theorem keepsPrinted_of_closed {α : Type} {x : Step Reporter α}
    (h : ∀ r, (Step.state (x.run r)).progress.closed = r.progress.closed) : KeepsPrinted terminal x :=
  fun r hprints => (h r).symm ▸ hprints

theorem keepsPrinted_start (label : String) : KeepsPrinted terminal (start terminal label) := by
  refine keepsPrinted_of_closed fun r => ?_
  simp only [EStateM.run, start]
  split <;> rfl

theorem keepsPrinted_refresh : KeepsPrinted terminal refresh := by
  refine keepsPrinted_of_closed fun r => ?_
  simp only [EStateM.run, refresh]
  split
  · rfl
  · split <;> rfl

theorem keepsPrinted_close : KeepsPrinted terminal (close terminal) := by
  intro r h
  rcases run_close_cases terminal r with ⟨r', hrun, hprogress, hprint⟩ | ⟨fault, r', hrun, hprogress⟩
  · rw [hrun, Step.state, hprogress, Progress.toList_closed_close, Progress.phases]
    intro phase hphase
    rcases List.mem_append.mp hphase with hclosed | hlast
    · exact h phase hclosed
    · obtain ⟨own, hown, rfl⟩ := Option.map_eq_some_iff.mp (Option.mem_toList.mp hlast)
      exact hprint own hown
  · rw [hrun, Step.state, hprogress]
    exact h

theorem keepsPrinted_enter (label : String) : KeepsPrinted terminal (enter terminal label) := by
  intro r h
  by_cases hopen : r.progress.label = some label
  · rw [run_enter_of_open hopen]
    exact h
  · rw [run_enter_of_ne hopen]
    exact keepsPrinted_close.bind (fun _ => keepsPrinted_start label) r h

theorem keepsPrinted_step (call : Call) : KeepsPrinted terminal (step terminal call) := by
  intro r h
  cases call with
  | report label =>
      rw [step]
      by_cases henabled : r.progress.enabled = true
      · rw [run_report_of_enabled henabled]
        have hcount : KeepsPrinted terminal countUnit := keepsPrinted_of_closed fun _ => rfl
        exact (keepsPrinted_enter label).bind (fun _ => hcount.bind fun _ => keepsPrinted_refresh) r h
      · rw [run_report_of_not henabled]
        exact h
  | finish =>
      rw [step]
      by_cases henabled : r.progress.enabled = true
      · rw [run_finish_of_enabled henabled]
        exact keepsPrinted_close.bind (fun _ => keepsPrinted_of_closed fun _ => rfl) r h
      · rw [run_finish_of_not henabled]
        exact h

theorem prints_after (h : terminal.Prints r.progress.closed.toList) (calls : List Call) :
    terminal.Prints (after terminal r calls).progress.closed.toList := by
  induction calls generalizing r with
  | nil => exact h
  | cons call calls ih => exact ih (keepsPrinted_step call r h)

/-- The phase of the label has been opened when the display refuses it, and has no units. -/
theorem unitsOf_enter_of_refused (hopen : r.progress.label ≠ some label)
    (hrefused : terminal.addTask label ≠ .ok ()) (own : String) :
    ∃ fault r', (enter terminal label).run r = .error fault r' ∧
      unitsOf own r'.progress.phases = unitsOf own r.progress.phases := by
  rw [run_enter_of_ne hopen, EStateM.run_bind]
  rcases run_close_cases terminal r with ⟨r', hclose, hprogress, -⟩ | ⟨fault, r', hclose, hprogress⟩
  · cases htask : terminal.addTask label with
    | ok _ => exact absurd htask hrefused
    | error fault =>
        rw [hclose]
        refine ⟨fault, { r' with
          progress := { r'.progress with label := some label, count := 0 }, tasks := r'.tasks + 1 }, ?_, ?_⟩
        · simp only [EStateM.run, start, htask]
        · rw [Progress.phases, hprogress, ← Progress.toList_closed_close r.progress]
          simp [Progress.unitsOf]
  · rw [hclose]
    exact ⟨fault, r', rfl, by rw [hprogress]⟩

theorem unitsOf_report_of_refused (hopen : r.progress.label ≠ some label)
    (hrefused : terminal.addTask label ≠ .ok ()) (own : String) :
    unitsOf own (Step.state ((report terminal label).run r)).progress.phases =
      unitsOf own r.progress.phases := by
  by_cases henabled : r.progress.enabled = true
  · obtain ⟨fault, r', hrun, hunits⟩ := unitsOf_enter_of_refused hopen hrefused own
    rw [run_report_of_enabled henabled, EStateM.run_bind, hrun]
    exact hunits
  · rw [run_report_of_not henabled]
    rfl

variable {refreshEvery : Int} {calls : List Call}

/-- The induction is on the calls made so far. The label of a report that is refused has not been reported before,
so it is not the one of the open phase. -/
theorem labels_of_encodes (h : Encodes terminal refreshEvery calls) {done : List Call} (hdone : done <+: calls) :
    ∀ label, .report label ∈ done → terminal.addTask label = .ok () := by
  induction done using List.reverseRecOn with
  | nil => exact fun label hlabel => absurd hlabel List.not_mem_nil
  | append_singleton done call ih =>
      have hbefore : done <+: calls := (List.prefix_append done [call]).trans hdone
      intro label hlabel
      rcases List.mem_append.mp hlabel with hold | hnew
      · exact ih hbefore label hold
      · obtain rfl : call = .report label := (List.mem_singleton.mp hnew).symm
        by_contra hrefused
        have hopen : (after terminal (enabled refreshEvery) done).progress.label ≠ some label := by
          intro hopen
          have hphase : (label, (after terminal (enabled refreshEvery) done).progress.count) ∈ runs done := by
            rw [← h.phases done hbefore, Progress.phases, hopen]
            exact List.mem_append_right _ (List.mem_singleton.mpr rfl)
          have hmem := (Progress.mem_map_fst_runs_iff done label).mp (List.mem_map_of_mem hphase)
          exact hrefused (ih hbefore label hmem)
        have hunits := unitsOf_report_of_refused hopen hrefused label
        have hafter : after terminal (enabled refreshEvery) (done ++ [.report label]) =
            Step.state ((report terminal label).run (after terminal (enabled refreshEvery) done)) :=
          after_append terminal _ done [.report label]
        rw [← hafter, h.accounts _ hdone, h.accounts _ hbefore] at hunits
        simp at hunits

theorem takes_of_encodes (h : Encodes terminal refreshEvery calls) : terminal.Takes calls := by
  refine ⟨labels_of_encodes h List.prefix_rfl, fun phase hphase => ?_⟩
  have hstart : terminal.Prints (enabled refreshEvery).progress.closed.toList := nofun
  have hprints := prints_after hstart calls
  rw [← h.phases calls List.prefix_rfl, Progress.phases, h.ended, Option.map_none, Option.toList_none,
    List.append_nil] at hphase
  exact hprints phase hphase

end Refused

theorem shownLines_eq_iff {texts : List String} :
    (texts.map fun text => (terminal.print text).toOption.getD []) = texts.map ([·]) ↔
      ∀ text ∈ texts, terminal.print text = .ok [text] := by
  rw [List.map_inj_left]
  refine forall₂_congr fun text _ => ?_
  cases terminal.print text with
  | ok shown => simp [Except.toOption]
  | error fault => simp [Except.toOption]

/-- A reporter is a run-length encoder of the calls it is told, whatever number of units the display is refreshed
after, if and only if the terminal displays the labels that are reported and prints the texts that tell of their
runs. What comes out of these texts besides are the texts themselves if and only if the terminal prints each of
them as one line that reads like it. -/
theorem encodes_runs_iff (terminal : Terminal) (refreshEvery : Int) (calls : List Call) :
    let whole := calls ++ [.finish]
    (Encodes terminal refreshEvery whole ↔ terminal.Takes whole) ∧
      (Encodes terminal refreshEvery whole ∧
          (after terminal (enabled refreshEvery) whole).shownLines terminal =
            (runs whole).map (fun phase => [doneLine phase]) ↔
        terminal.Takes whole ∧ ∀ phase ∈ runs whole, terminal.print (doneLine phase) = .ok [doneLine phase]) := by
  intro whole
  have hiff : Encodes terminal refreshEvery whole ↔ terminal.Takes whole :=
    ⟨takes_of_encodes, encodes_of_takes refreshEvery⟩
  refine ⟨hiff, ?_⟩
  rw [← hiff]
  refine and_congr_right fun hencodes => ?_
  have hruns : (runs whole).map (fun phase => [doneLine phase]) = ((runs whole).map doneLine).map ([·]) := by
    rw [List.map_map]
    rfl
  rw [shownLines, hencodes.doneLines, hruns, shownLines_eq_iff, List.forall_mem_map]

/-- Three reports of a label in two runs, on a terminal that shows texts as they are. -/
theorem encodes_runs_of_three_reports :
    let calls : List Call := [.report "a", .report "a", .finish, .report "a"]
    Encodes {} 0 (calls ++ [.finish]) ∧
      (after {} (enabled 0) (calls ++ [.finish])).shownLines {} = [["a: 2 - done"], ["a: 1 - done"]] := by
  intro calls
  have htakes : ({} : Terminal).Takes (calls ++ [.finish]) := ⟨fun _ _ => rfl, fun phase _ => ⟨_, rfl⟩⟩
  have hruns : (runs (calls ++ [.finish])).map (fun phase => [doneLine phase]) =
      [["a: 2 - done"], ["a: 1 - done"]] := by
    decide +kernel
  obtain ⟨hencodes, hshown⟩ := (encodes_runs_iff {} 0 calls).2.mpr ⟨htakes, fun phase _ => rfl⟩
  exact ⟨hencodes, hshown.trans hruns⟩

/-- One terminal shows an emoji in place of its code, and another one cannot read a label as markup. -/
theorem not_encodes_runs :
    (let calls : List Call := [.report ":key", .finish]
      let terminal : Terminal :=
        { print := fun text => .ok [if text = ":key: 1 - done" then "🔑 1 - done" else text] }
      (after terminal (enabled 100) calls).shownLines terminal = [["🔑 1 - done"]] ∧
        (runs calls).map (fun phase => [doneLine phase]) = [[":key: 1 - done"]]) ∧
    (let calls : List Call := [.report "[/]", .finish]
      let terminal : Terminal :=
        { addTask := fun label => if label = "[/]" then .error (.refused "nothing to close") else .ok () }
      ¬Encodes terminal 100 calls) := by
  refine ⟨by decide +kernel, fun hencodes => ?_⟩
  have htask := (takes_of_encodes hencodes).labels "[/]" List.mem_cons_self
  simp at htask

end Reporter

end LogMining
