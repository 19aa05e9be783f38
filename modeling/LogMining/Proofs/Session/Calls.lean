import LogMining.Proofs.Growth.Line
import LogMining.Proofs.Reading.Rows
import LogMining.Proofs.Refine.Sweep
import LogMining.Proofs.Token.Overflow
import LogMining.Session

/-!
# Calls of a session

Lines may be taken in and the tree refined in any order, and a call may stop half way. After every call
the tree of the session is whole, so it is well-formed, every later call finds the nodes that it looks
for, and the tree can be rendered.
-/

namespace LogMining

theorem fault_report {label : String} {p p' : Progress} {fault : Fault}
    (h : (Progress.report label).run p = .error fault p') : fault = .zeroRefresh := by
  simp only [EStateM.run, Progress.report] at h
  split at h
  · split at h <;> cases h
    rfl
  · cases h

namespace Tree.Comprises

variable {tree : Tree} {ends : Int} {below : Slots}

theorem exists_dump (h : tree.Comprises ends below) : ∃ lines, tree.dump = .ok lines :=
  ⟨_, h.dump_eq⟩

theorem exists_outline (h : tree.Comprises ends below) (terminal : Terminal) :
    ∃ outline, tree.outline terminal = .ok outline :=
  ⟨_, outlineFrom_eq h.holds terminal⟩

end Tree.Comprises

namespace Session

/-- What a session is asked to do while it mines. -/
inductive Call where
  | addLine (line : String)
  | refine
deriving DecidableEq, Repr

def Call.step : Call → Step Session Unit
  | addLine line => do let _ ← Session.addLine line
  | refine => Session.refine

/-- The session after calls, each of which may have failed. -/
def after (s : Session) : List Call → Session
  | [] => s
  | call :: calls => after (Step.state (call.step.run s)) calls

variable {s : Session} {ends : Int} {below : Slots}

theorem after_append (s : Session) (done calls : List Call) :
    s.after (done ++ calls) = (s.after done).after calls := by
  induction done generalizing s with
  | nil => rfl
  | cons call done ih => exact ih _

theorem run_onProgress {α : Type} (step : Step Progress α) (s : Session) :
    (onProgress step).run s =
      Step.mapState (fun progress => { s with progress }) (step.run s.progress) := rfl

theorem run_insertLine (line : String) (s : Session) :
    (onGrowth (Tree.insertLine line)).run s =
      Step.mapState (fun (tree, source) => { s with tree, pending := source.pending })
        (Tree.insertFeed (Source.ofLine (Line.maskDates line) s.pending).feed s.tree) := by
  simp only [onGrowth, Tree.insertLine, EStateM.run]
  cases Tree.insertFeed (Source.ofLine (Line.maskDates line) s.pending).feed s.tree <;> rfl

theorem run_addLine_of_report {progress : Progress} (line : String)
    (h : (Progress.report "reading").run s.progress = .ok () progress) :
    (addLine line).run s =
      match Tree.insertFeed (Source.ofLine (Line.maskDates line) s.pending).feed s.tree with
      | .ok id (tree, source) =>
        .ok id { s with progress, tree, pending := source.pending, lines := s.lines + 1 }
      | .error fault (tree, source) =>
        .error fault { s with progress, tree, pending := source.pending } := by
  rw [addLine, EStateM.run_bind, run_onProgress, h]
  simp only [Step.mapState, EStateM.run_bind]
  rw [run_insertLine]
  cases Tree.insertFeed (Source.ofLine (Line.maskDates line) s.pending).feed s.tree <;> rfl

theorem addLine_comprises (h : s.tree.Comprises ends below) (line : String) :
    (∃ ends' below',
      (Step.state ((addLine line).run s)).tree.Comprises ends' below') ∧
    ∀ fault s', (addLine line).run s = .error fault s' →
      fault = .zeroRefresh ∨ fault = .overflow s.pending.capacity := by
  cases hreport : (Progress.report "reading").run s.progress with
  | error fault progress =>
      have hline : (addLine line).run s = .error fault { s with progress } := by
        rw [addLine, EStateM.run_bind, run_onProgress, hreport]
        rfl
      rw [hline]
      constructor
      · exact ⟨ends, below, h⟩
      · intro fault' s' hfault
        cases hfault
        exact .inl (fault_report hreport)
  | ok _ progress =>
      obtain ⟨id, tree', hinsert, htree⟩ :=
        Tree.insertFeed_eq h (Source.ofLine (Line.maskDates line) s.pending).feed
      rw [run_addLine_of_report line hreport, hinsert]
      cases hfeed : (Source.ofLine (Line.maskDates line) s.pending).feed.fault with
      | none =>
          constructor
          · exact ⟨_, _, htree⟩
          · intro fault s' hfault
            cases hfault
      | some fault =>
          constructor
          · exact ⟨_, _, htree⟩
          · intro fault' s' hfault
            cases hfault
            exact .inr (Source.fault_feed hfeed)

def pass (s : Session) : Pass :=
  { tree := s.tree, progress := s.progress, keepsNotes := s.keepsNotes, notes := s.notes }

theorem run_refine (s : Session) :
    refine.run s =
      Step.mapState (fun pass : Pass => { s with
        tree := pass.tree, progress := pass.progress, nodesBefore := some s.tree.live,
        tally := pass.tally, keepsNotes := pass.keepsNotes, notes := pass.notes })
        (Pass.sweep.run s.pass) := rfl

theorem run_onProgress_report (hreports : s.progress.Reports) (label : String) :
    (onProgress (Progress.report label)).run s = .ok () { s with progress := s.progress.counted label } := by
  rw [run_onProgress, Progress.run_report hreports]
  rfl

theorem run_forM_report {β : Type} (hreports : s.progress.Reports) (label : String) (l : List β) :
    (l.forM fun _ => onProgress (Progress.report label)).run s =
      .ok () { s with progress := (Progress.counted label)^[l.length] s.progress } := by
  induction l generalizing s with
  | nil => rfl
  | cons _ l ih =>
      rw [List.forM_eq_forM, List.forM_cons, EStateM.run_bind, run_onProgress_report hreports]
      exact ih ((Progress.reports_counted label s.progress).mpr hreports)

theorem run_dump (h : s.tree.Comprises ends below) (hreports : s.progress.Reports) {lines : List String}
    (hlines : s.tree.dump = .ok lines) :
    dump.run s = .ok lines { s with progress := (Progress.counted "print")^[s.tree.live] s.progress } := by
  have hdump : dump.run s = (s.tree.dumpBy (onProgress (Progress.report "print"))).run s := rfl
  rw [hdump, h.dumpBy_eq hlines, EStateM.run_bind, run_forM_report hreports, h.length_ids_root]
  rfl

theorem run_outline (h : s.tree.Comprises ends below) (hreports : s.progress.Reports) {terminal : Terminal}
    {drawn : Outline} (hdrawn : s.tree.outline terminal = .ok drawn) :
    (outline terminal).run s =
      .ok drawn { s with progress := (Progress.counted "print")^[s.tree.live - 1] s.progress } := by
  have houtline : (outline terminal).run s =
      (s.tree.outlineBy terminal (onProgress (Progress.report "print")) (0 : Nat)).run s := rfl
  cases hdrawn.symm.trans (Tree.outlineFrom_eq h.holds terminal)
  rw [houtline, Tree.outlineBy_eq h.holds, EStateM.run_bind, run_forM_report hreports, h.live_eq,
    Nat.add_one_sub_one]
  rfl

/-- Refining leaves a whole tree, and fails only if the progress cannot be reported. -/
theorem refine_comprises (h : s.tree.Comprises ends below) :
    (∃ ends' below', (Step.state (refine.run s)).tree.Comprises ends' below') ∧
    ∀ fault s', refine.run s = .error fault s' → fault = .zeroRefresh := by
  have hpass : s.pass.tree.Comprises ends below := h
  by_cases hreports : s.progress.Reports
  · obtain ⟨below', pass', -, hsweep, htree, -⟩ := Pass.run_sweep hpass hreports
    rw [run_refine, hsweep]
    constructor
    · exact ⟨ends, below', htree⟩
    · intro fault s' hfault
      cases hfault
  · rcases Pass.run_sweep_of_not hpass hreports with hsweep | ⟨progress, hsweep⟩
    · rw [run_refine, hsweep]
      constructor
      · exact ⟨ends, below, h⟩
      · intro fault s' hfault
        cases hfault
    · rw [run_refine, hsweep]
      constructor
      · exact ⟨ends, below, h⟩
      · intro fault s' hfault
        cases hfault
        rfl

theorem after_comprises (h : s.tree.Comprises ends below) (calls : List Call) :
    ∃ ends' below', (s.after calls).tree.Comprises ends' below' := by
  induction calls generalizing s ends below with
  | nil => exact ⟨ends, below, h⟩
  | cons call calls ih =>
      have hcall : ∃ ends' below', (Step.state (call.step.run s)).tree.Comprises ends' below' := by
        cases call with
        | addLine line =>
            obtain ⟨hstate, -⟩ := addLine_comprises h line
            rw [Call.step, EStateM.run_bind]
            cases hrun : (addLine line).run s <;> rw [hrun] at hstate <;> exact hstate
        | refine => exact (refine_comprises h).1
      obtain ⟨ends', below', hcall⟩ := hcall
      exact ih hcall

/-- No node and no value that a session looks for is missing: lines are refused for want of room only,
rendering the tree succeeds, and apart from that the progress may not be reported. -/
structure Answers (s : Session) : Prop where
  addLine_fault : ∀ line fault s', (addLine line).run s = .error fault s' →
    fault = .zeroRefresh ∨ fault = .overflow s.pending.capacity
  refine_fault : ∀ fault s', refine.run s = .error fault s' → fault = .zeroRefresh
  walk_ok : ∃ visits, s.tree.walk = .ok visits
  dump_ok : ∃ lines, s.tree.dump = .ok lines
  outline_ok : ∀ terminal, ∃ outline, s.tree.outline terminal = .ok outline
  dump_fault : ∀ fault s', dump.run s = .error fault s' → fault = .zeroRefresh
  outline_fault : ∀ terminal fault s', (outline terminal).run s = .error fault s' → fault = .zeroRefresh

theorem fault_forM_report {β : Type} {label : String} {l : List β} {s s' : Session} {fault : Fault}
    (h : (l.forM fun _ => onProgress (Progress.report label)).run s = .error fault s') :
    fault = .zeroRefresh := by
  induction l generalizing s with
  | nil => cases h
  | cons _ l ih =>
      rw [List.forM_eq_forM, List.forM_cons, EStateM.run_bind, run_onProgress] at h
      cases hreport : (Progress.report label).run s.progress with
      | ok _ progress =>
          rw [hreport] at h
          exact ih h
      | error fault' progress =>
          rw [hreport] at h
          cases h
          exact fault_report hreport

theorem fault_forM_report_pure {α β : Type} {label : String} {l : List β} {answer : α} {s s' : Session}
    {fault : Fault}
    (h : (do l.forM fun _ => onProgress (Progress.report label); return answer : Step Session α).run s =
      .error fault s') : fault = .zeroRefresh := by
  rw [EStateM.run_bind] at h
  split at h
  · cases h
  · next hreports =>
    cases h
    exact fault_forM_report hreports

theorem answers_of_comprises (h : s.tree.Comprises ends below) : s.Answers where
  addLine_fault line := (addLine_comprises h line).2
  refine_fault := (refine_comprises h).2
  walk_ok := ⟨_, h.walk_eq⟩
  dump_ok := h.exists_dump
  outline_ok := h.exists_outline
  dump_fault fault s' hfault := by
    obtain ⟨lines, hlines⟩ := h.exists_dump
    have hdump : (s.tree.dumpBy (onProgress (Progress.report "print"))).run s = .error fault s' := hfault
    rw [h.dumpBy_eq hlines] at hdump
    exact fault_forM_report_pure hdump
  outline_fault terminal fault s' hfault := by
    have houtline : (s.tree.outlineBy terminal (onProgress (Progress.report "print")) (0 : Nat)).run s =
        .error fault s' := hfault
    rw [Tree.outlineBy_eq h.holds] at houtline
    exact fault_forM_report_pure houtline

/-- After any calls on a session that begins with the empty tree, the tree is well-formed and the
session finds all that it looks for. -/
theorem wellFormed_after_calls (s : Session) (calls : List Call) :
    (after { s with tree := .empty } calls).tree.WellFormed ∧
      (after { s with tree := .empty } calls).Answers := by
  obtain ⟨ends, below, htree⟩ :=
    after_comprises (s := { s with tree := .empty }) Tree.comprises_empty calls
  exact ⟨htree.wellFormed, answers_of_comprises htree⟩

end Session

end LogMining
