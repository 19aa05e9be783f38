import LogMining.Proofs.Slots.Held
import LogMining.Refine.Pass

/-!
# What a pass does to its tree

A pass works on its tree, takes notes and counts. `Pass.Replaces` says that it has changed the tree in
one place and that its progress is as before.
-/

namespace LogMining.Pass

theorem run_onTree {α : Type} (step : Step Tree α) (pass : Pass) :
    (onTree step).run pass =
      Step.mapState (fun tree => { pass with tree }) (step.run pass.tree) := rfl

theorem run_ask {α : Type} (question : Tree → Except Fault α) (pass : Pass) :
    (ask question).run pass =
      match question pass.tree with
      | .ok a => .ok a pass
      | .error fault => .error fault pass := rfl

theorem run_report_eq (label : String) (pass : Pass) :
    (report label).run pass =
      Step.mapState (fun progress => { pass with progress })
        ((Progress.report label).run pass.progress) := rfl

theorem run_note (notes : List Note) (pass : Pass) :
    (note notes).run pass = .ok ()
      { pass with notes := if pass.keepsNotes then pass.notes ++ notes else pass.notes } := by
  simp only [note, EStateM.run_modify]
  split <;> rfl

theorem run_count (change : Tally → Tally) (pass : Pass) :
    (count change).run pass = .ok () { pass with tally := change pass.tally } := rfl

/-- A step of a pass has put `slots'` in the place of `slots` and has reported nothing. -/
structure Replaces (pass pass' : Pass) (parent : Option NodeId) (slots slots' : Slots) : Prop
    extends pass.tree.Replaces pass'.tree parent slots slots' where
  progress_eq : pass'.progress = pass.progress

theorem Replaces.refl {pass : Pass} {parent : Option NodeId} {slots : Slots}
    (h : pass.tree.Holds parent slots) : pass.Replaces pass parent slots slots :=
  ⟨Tree.Replaces.refl h, rfl⟩

theorem Replaces.trans {pass pass' pass'' : Pass} {parent : Option NodeId}
    {slots slots' slots'' : Slots} (h : pass.Replaces pass' parent slots slots')
    (h' : pass'.Replaces pass'' parent slots' slots'') :
    pass.Replaces pass'' parent slots slots'' :=
  ⟨h.toReplaces.trans h'.toReplaces, h'.progress_eq.trans h.progress_eq⟩

end LogMining.Pass
