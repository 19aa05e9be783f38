import LogMining.Proofs.Refine.Sweep

/-!
# What a sweep does not look at

A pass keeps its progress, its tally and its notes beside the tree. They are written and never read, except
that a report may not go through. So two passes over the same tree whose reports go through leave the same
tree, whatever else they keep.
-/

namespace LogMining

namespace Pass

variable {α β : Type} {step : Step Pass α}

/-- A step does the same with the tree whatever else a pass keeps, provided that reports go through, and it
does not change whether they do. -/
structure Blind (step : Step Pass α) : Prop where
  reports : ∀ pass, (Step.state (step.run pass)).progress.Reports ↔ pass.progress.Reports
  mapState_eq : ∀ pass pass', pass.tree = pass'.tree → pass.progress.Reports →
    pass'.progress.Reports →
      Step.mapState Pass.tree (step.run pass) = Step.mapState Pass.tree (step.run pass')

namespace Blind

theorem bind {f : α → Step Pass β} (h : Blind step) (hf : ∀ a, Blind (f a)) :
    Blind (step >>= f) where
  reports pass := by
    have hfirst := h.reports pass
    rw [EStateM.run_bind]
    cases hrun : step.run pass with
    | ok a mid =>
        rw [hrun] at hfirst
        exact ((hf a).reports mid).trans hfirst
    | error fault mid =>
        rw [hrun] at hfirst
        exact hfirst
  mapState_eq pass pass' htree hreports hreports' := by
    have hfirst := h.mapState_eq pass pass' htree hreports hreports'
    have hgoes := (h.reports pass).mpr hreports
    have hgoes' := (h.reports pass').mpr hreports'
    rw [EStateM.run_bind, EStateM.run_bind]
    -- both passes end the first step alike, and with the same tree
    cases hrun : step.run pass with
    | ok a mid =>
        cases hrun' : step.run pass' with
        | ok a' mid' =>
            rw [hrun, hrun', Step.mapState, Step.mapState] at hfirst
            rw [hrun] at hgoes
            rw [hrun'] at hgoes'
            obtain ⟨rfl, hmid⟩ := EStateM.Result.ok.inj hfirst
            exact (hf a).mapState_eq mid mid' hmid hgoes hgoes'
        | error fault' mid' =>
            rw [hrun, hrun'] at hfirst
            cases hfirst
    | error fault mid =>
        cases hrun' : step.run pass' with
        | ok a' mid' =>
            rw [hrun, hrun'] at hfirst
            cases hfirst
        | error fault' mid' =>
            rw [hrun, hrun', Step.mapState, Step.mapState] at hfirst
            obtain ⟨rfl, hmid⟩ := EStateM.Result.error.inj hfirst
            exact congrArg (EStateM.Result.error fault) hmid

theorem onTree (step : Step Tree α) : Blind (onTree step) where
  reports pass := by
    rw [run_onTree, Step.state_mapState]
  mapState_eq pass pass' htree _ _ := by
    rw [run_onTree, run_onTree, htree]
    cases step.run pass'.tree <;> rfl

theorem ask (question : Tree → Except Fault α) : Blind (ask question) where
  reports pass := by
    rw [run_ask]
    cases question pass.tree <;> exact Iff.rfl
  mapState_eq pass pass' htree _ _ := by
    rw [run_ask, run_ask, htree]
    cases question pass'.tree with
    | ok a => exact congrArg (EStateM.Result.ok a) htree
    | error fault => exact congrArg (EStateM.Result.error fault) htree

theorem pure (a : α) : Blind (pure a) := ask fun _ => .ok a

theorem throw (fault : Fault) : Blind (throw fault : Step Pass α) := ask fun _ => .error fault

theorem ofTree {f : Tree → Step Pass α} (h : ∀ tree, Blind (f tree)) :
    Blind (do f (← get).tree) :=
  (ask .ok).bind h

theorem note (notes : List Note) : Blind (note notes) where
  reports pass := by
    rw [run_note]
    exact Iff.rfl
  mapState_eq pass pass' htree _ _ := by
    rw [run_note, run_note]
    exact congrArg (EStateM.Result.ok ()) htree

theorem count (change : Tally → Tally) : Blind (count change) where
  reports _ := Iff.rfl
  mapState_eq _ _ htree _ _ := congrArg (EStateM.Result.ok ()) htree

theorem report (label : String) : Blind (report label) where
  reports pass := by
    rw [Pass.run_report_eq, Step.state_mapState]
    exact Progress.reports_report label pass.progress
  mapState_eq pass pass' htree hreports hreports' := by
    rw [run_report label hreports, run_report label hreports']
    exact congrArg (EStateM.Result.ok ()) htree

theorem collapseChild (id : NodeId) : Blind (collapseChild id) :=
  (ask _).bind fun _ => (ask _).bind fun found =>
    match found with
    | none => pure false
    | some _ => (onTree _).bind fun _ => (note _).bind fun _ => (onTree _).bind fun _ =>
        (onTree _).bind fun _ => (count _).bind fun _ => pure true

theorem collapseWithin (n : Nat) (id : NodeId) : Blind (collapseWithin n id) := by
  induction n with
  | zero => exact throw .endless
  | succ n ih =>
      refine (collapseChild id).bind fun joined => ?_
      cases joined with
      | true => exact ih
      | false => exact pure ()

theorem prepare (id : NodeId) (isChoice : Bool) : Blind (prepare id isChoice) := by
  cases isChoice with
  | true => exact pure ()
  | false => exact ofTree fun tree => collapseWithin (tree.size + 1) id

theorem factor (id : NodeId) : Blind (factor id) := by
  refine (ask _).bind fun node => (ask _).bind fun affixes => ?_
  cases affixes with
  | none => exact pure false
  | some a =>
      refine (note _).bind fun _ => Blind.bind ?_ fun _ => pure true
      exact (onTree _).bind fun rest => (count _).bind fun _ => pure rest

theorem sweepChain (n : Nat) (isChoice : Bool) (first : Option NodeId) :
    Blind (sweepChain n isChoice first) := by
  induction n generalizing isChoice first with
  | zero =>
      cases first with
      | none => exact pure ()
      | some id => exact throw .endless
  | succ n ih =>
      cases first with
      | none => exact pure ()
      | some id =>
          rw [Pass.sweepChain, sweepFrom_succ]
          refine (report _).bind fun _ => (prepare id isChoice).bind fun _ =>
            (factor id).bind fun _ => (ask _).bind fun node => (ask _).bind fun next => ?_
          exact (ih _ _).bind fun _ => ih isChoice node.sibling

theorem sweep : Blind sweep := by
  refine (ask _).bind fun root => (ask _).bind fun next => ?_
  cases next with
  | none => exact pure ()
  | some next => exact ofTree fun tree => sweepChain (sweepLimit tree) next.2 (some next.1)

end Blind

end Pass

end LogMining
