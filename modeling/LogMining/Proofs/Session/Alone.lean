import LogMining.Proofs.Growth.Ahead
import LogMining.Proofs.Refine.Blind
import LogMining.Proofs.Session.Intact
import LogMining.Proofs.Token.Feed

/-!
# The tree of a session and the tree alone

A session reads its lines through one stack of pending tokens and one token ahead. With room for two
tokens neither is seen in the tree: nothing is left pending at the end of a line, so the calls of a session
do to its tree what they do to a tree that is given the finished tokens of every line.
-/

namespace LogMining

/-- Carries out a call on a tree alone. A line comes as the list of its tokens, for which pending tokens of
its own are kept. -/
def Tree.carryOut : Session.Call → Step Tree Unit
  | .addLine line => do
    let tokens ← Step.query fun _ => Step.answer ((tokenize line).run {})
    let _ ← Tree.insertTokens tokens
  | .refine => fun tree => Step.mapState Pass.tree (Pass.sweep.run { tree })

namespace Session

variable {s : Session} {ends : Int} {below : Slots}

theorem run_addLine_of_not (h : ¬s.progress.Reports) (line : String) :
    ∃ progress, (addLine line).run s = .error .zeroRefresh { s with progress } := by
  refine ⟨s.progress.counted "reading", ?_⟩
  rw [addLine, EStateM.run_bind, run_onProgress, Progress.run_report_of_not h]
  rfl

theorem progress_addLine (line : String) (s : Session) :
    (Step.state ((addLine line).run s)).progress = s.progress.counted "reading" := by
  by_cases hreports : s.progress.Reports
  · rw [run_addLine_of_report line (Progress.run_report hreports "reading")]
    cases Tree.insertFeed (Source.ofLine (Line.maskDates line) s.pending).feed s.tree <;> rfl
  · rw [addLine, EStateM.run_bind, run_onProgress, Progress.run_report_of_not hreports]
    rfl

theorem reports_step (call : Call) (s : Session) :
    (Step.state (call.step.run s)).progress.Reports ↔ s.progress.Reports := by
  cases call with
  | addLine line =>
      change (s.after [.addLine line]).progress.Reports ↔ _
      rw [after_addLine, progress_addLine]
      exact Progress.reports_counted "reading" s.progress
  | refine =>
      rw [Call.step, run_refine, Step.state_mapState]
      exact Pass.Blind.sweep.reports s.pass

/-- With nothing pending and enough room a line is taken in. Its tokens are inserted like a finished list of
tokens, and nothing is left pending. -/
theorem run_addLine_of_room (h : s.tree.Comprises ends below) (hreports : s.progress.Reports)
    (hitems : s.pending.items = []) (line : String)
    (hroom : 2 ≤ s.pending.capacity ∨ ¬Line.HasMasked line) :
    ∃ id tree progress, (Tree.insertTokens (Line.tokens line)).run s.tree = .ok id tree ∧
      (addLine line).run s = .ok id { s with tree, progress, lines := s.lines + 1 } := by
  obtain ⟨htokens, hfault, hlast⟩ := (Source.ofLine (Line.maskDates line) s.pending).feed_of_room
    (hroom.imp_right fun hnone word hword hmasked => hnone ⟨word, hword, hmasked⟩)
  obtain ⟨id, tree, hinsert, -⟩ :=
    Tree.insertFeed_eq h (Source.ofLine (Line.maskDates line) s.pending).feed
  have hlist := Tree.mapState_insertFeed hfault s.tree
  rw [hinsert, hfault, htokens] at hlist
  refine ⟨id, tree, s.progress.counted "reading", ?_, ?_⟩
  · rw [show Line.tokens line = s.pending.items ++ Line.tokens line by rw [hitems, List.nil_append]]
    exact hlist.symm
  · rw [run_addLine_of_report line (Progress.run_report hreports "reading"), hinsert, hfault, hlast,
      Pending.clear, ← hitems]
    rfl

/-- What a call does to the tree of a session with enough room is what it does to the tree alone. -/
theorem run_carryOut (h : s.tree.Comprises ends below) (hreports : s.progress.Reports)
    (hitems : s.pending.items = []) (hroom : 2 ≤ s.pending.capacity) (call : Call) :
    (Tree.carryOut call).run s.tree = .ok () (Step.state (call.step.run s)).tree := by
  cases call with
  | addLine line =>
      obtain ⟨id, tree, progress, hinsert, hrun⟩ :=
        run_addLine_of_room h hreports hitems line (.inl hroom)
      have htokens := run_tokenize_of_room line {} (.inl (by decide))
      change _ = EStateM.Result.ok () (s.after [.addLine line]).tree
      rw [after_addLine, hrun]
      simp only [Tree.carryOut, EStateM.run_bind, Step.run_query, htokens, Step.answer]
      rw [List.nil_append, hinsert]
      rfl
  | refine =>
      obtain ⟨below', pass', -, hsweep, -⟩ :=
        Pass.run_sweep (show s.pass.tree.Comprises ends below from h) hreports
      have halone := Pass.Blind.sweep.mapState_eq { tree := s.tree } s.pass rfl
        (fun henabled => by cases henabled) hreports
      rw [hsweep] at halone
      rw [Call.step, run_refine, hsweep]
      exact halone

theorem pending_step (h : s.tree.Comprises ends below) (hitems : s.pending.items = [])
    (hroom : 2 ≤ s.pending.capacity) (call : Call) :
    (Step.state (call.step.run s)).pending = s.pending := by
  cases call with
  | addLine line =>
      change (s.after [.addLine line]).pending = _
      rw [after_addLine]
      by_cases hreports : s.progress.Reports
      · obtain ⟨id, tree, progress, -, hrun⟩ :=
          run_addLine_of_room h hreports hitems line (.inl hroom)
        rw [hrun]
        rfl
      · obtain ⟨progress, hrun⟩ := run_addLine_of_not hreports line
        rw [hrun]
        rfl
  | refine => exact pending_refine s

theorem tree_step_of_not (h : s.tree.Comprises ends below) (hreports : ¬s.progress.Reports) (call : Call) :
    (Step.state (call.step.run s)).tree = s.tree := by
  cases call with
  | addLine line =>
      change (s.after [.addLine line]).tree = _
      obtain ⟨progress, hrun⟩ := run_addLine_of_not hreports line
      rw [after_addLine, hrun]
      rfl
  | refine => exact tree_refine_of_not h hreports

theorem reports_after (s : Session) (calls : List Call) :
    (s.after calls).progress.Reports ↔ s.progress.Reports := by
  induction calls generalizing s with
  | nil => exact Iff.rfl
  | cons call calls ih => exact (ih _).trans (reports_step call s)

theorem pending_after (h : s.tree.Comprises ends below) (hitems : s.pending.items = [])
    (hroom : 2 ≤ s.pending.capacity) (calls : List Call) : (s.after calls).pending = s.pending := by
  induction calls generalizing s ends below with
  | nil => rfl
  | cons call calls ih =>
      obtain ⟨ends', below', htree⟩ := after_comprises h [call]
      have hcall := pending_step h hitems hroom call
      exact (ih htree (hcall ▸ hitems) (hcall ▸ hroom)).trans hcall

theorem tree_after_of_not (h : s.tree.Comprises ends below) (hreports : ¬s.progress.Reports)
    (calls : List Call) : (s.after calls).tree = s.tree := by
  induction calls generalizing s ends below with
  | nil => rfl
  | cons call calls ih =>
      obtain ⟨ends', below', htree⟩ := after_comprises h [call]
      have hreports' := mt (reports_step call s).mp hreports
      exact (ih htree hreports').trans (tree_step_of_not h hreports call)

theorem run_forM_carryOut (h : s.tree.Comprises ends below) (hreports : s.progress.Reports)
    (hitems : s.pending.items = []) (hroom : 2 ≤ s.pending.capacity) (calls : List Call) :
    (calls.forM Tree.carryOut).run s.tree = .ok () (s.after calls).tree := by
  induction calls generalizing s ends below with
  | nil => rfl
  | cons call calls ih =>
      obtain ⟨ends', below', htree⟩ := after_comprises h [call]
      have hcall := pending_step h hitems hroom call
      rw [List.forM_eq_forM, List.forM_cons, EStateM.run_bind, run_carryOut h hreports hitems hroom]
      exact ih htree ((reports_step call s).mpr hreports) (hcall ▸ hitems) (hcall ▸ hroom)

def cleared (s : Session) : Session := { s with tree := .empty, pending := s.pending.clear }

/-- In a session that begins with the empty tree and has room for two pending tokens, no line is refused for
want of room, nothing is pending between calls, and the tree is the one that the calls make of the empty tree
alone when each line comes as the finished list of its tokens. If reports do not go through, nothing is taken
in at all. -/
theorem tree_after_eq_carryOut (s : Session) (hroom : 2 ≤ s.pending.capacity) (calls : List Call) :
    (s.cleared.after calls).pending = s.pending.clear ∧
      (∀ line fault s', (addLine line).run (s.cleared.after calls) = .error fault s' →
        fault = .zeroRefresh ∧ ¬s.progress.Reports) ∧
      (s.progress.Reports →
        (calls.forM Tree.carryOut).run .empty = .ok () (s.cleared.after calls).tree) ∧
      (¬s.progress.Reports → (s.cleared.after calls).tree = .empty) := by
  have hempty : s.cleared.tree.Comprises 0 .nil := Tree.comprises_empty
  have hpending := pending_after hempty rfl hroom calls
  refine ⟨hpending, fun line fault s' hrun => ?_, fun hreports => ?_, fun hreports => ?_⟩
  · obtain ⟨ends, below, htree⟩ := after_comprises hempty calls
    have hreports := reports_after s.cleared calls
    by_cases hgo : s.progress.Reports
    · obtain ⟨id, tree, progress, -, hok⟩ := run_addLine_of_room htree (hreports.mpr hgo)
        (congrArg Pending.items hpending) line (.inl (hpending ▸ hroom))
      rw [hok] at hrun
      cases hrun
    · obtain ⟨progress, herror⟩ := run_addLine_of_not (mt hreports.mp hgo) line
      rw [herror] at hrun
      cases hrun
      exact ⟨rfl, hgo⟩
  · exact run_forM_carryOut hempty hreports rfl hroom calls
  · exact tree_after_of_not hempty hreports calls

/-- With room for just two pending tokens, and a masked address at the end of a line. -/
theorem tree_after_eq_carryOut_of_three_calls :
    2 ≤ ({ capacity := 2 } : Pending).capacity ∧ ({} : Progress).Reports ∧
      ([.addLine "net 10.0.0.1/24", .addLine "net up", .refine].forM Tree.carryOut).run .empty =
        .ok () (after (cleared { pending := { capacity := 2 } })
          [.addLine "net 10.0.0.1/24", .addLine "net up", .refine]).tree := by
  have hreports : ({} : Progress).Reports := fun henabled => by cases henabled
  refine ⟨by decide, hreports, ?_⟩
  exact (tree_after_eq_carryOut { pending := { capacity := 2 } } (by decide) _).2.2.1 hreports

end Session

end LogMining
