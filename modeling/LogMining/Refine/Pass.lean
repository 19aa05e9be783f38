import LogMining.Progress
import LogMining.Tree.Basic

/-!
# A pass over a tree

Refining changes the tree, counts what it does, reports progress and takes notes of its decisions. A
`Pass` holds all of these.
-/

namespace LogMining

/-- How often a tree was changed in each of the two ways. -/
structure Tally where
  /-- Nodes joined with their only child. -/
  squashed : Nat := 0
  /-- Nodes from which common ends of the values were split off. -/
  disjoined : Nat := 0
deriving DecidableEq, Repr

/-- A decision that was taken while a tree was refined. -/
inductive Note where
  /-- A node was joined with its child to one word. -/
  | squashed (word : String)
  /-- The values of a node have these lengths in common. -/
  | affixes (front back : Nat)
  /-- A value falls into these parts. -/
  | parts (front middle back : String)
deriving DecidableEq, Repr

def quoted (text : String) : String := "\"" ++ text ++ "\""

def Note.message : Note → String
  | squashed word => "squashing: " ++ word
  | affixes front back => "prefix " ++ toString front ++ ", suffix " ++ toString back
  | parts front middle back => quoted front ++ " " ++ quoted middle ++ " " ++ quoted back

/-- A tree that is being refined. -/
structure Pass where
  tree : Tree
  progress : Progress := {}
  tally : Tally := {}
  /-- Whether notes are taken. -/
  keepsNotes : Bool := false
  notes : Array Note := #[]

namespace Pass

variable {α : Type}

def onTree (step : Step Tree α) : Step Pass α := 
  fun ⟨tree, progress, tally, keepsNotes, notes⟩ =>
    Step.mapState (fun tree => ⟨tree, progress, tally, keepsNotes, notes⟩) (step.run tree)

def ask (question : Tree → Except Fault α) : Step Pass α := Step.query fun pass => question pass.tree

def report (label : String) : Step Pass Unit := fun pass =>
  Step.mapState (fun progress => { pass with progress }) ((Progress.report label).run pass.progress)

def note (notes : List Note) : Step Pass Unit :=
  modify fun pass => if pass.keepsNotes then { pass with notes := pass.notes ++ notes } else pass

def count (change : Tally → Tally) : Step Pass Unit :=
  modify fun pass => { pass with tally := change pass.tally }

end Pass

end LogMining
