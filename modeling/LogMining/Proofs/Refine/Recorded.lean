import LogMining.Proofs.Refine.Sweep

/-!
# A sweep that is recorded

A recorded sweep takes the steps of a sweep and writes down which nodes it looks at, which of them are joined
with their child and what is split off which values. The record is never read: without it what is left is the
sweep.
-/

namespace LogMining.Pass

/-- What happens in a sweep. -/
inductive Event where
  /-- A node has been reported, and the sweep looks at it. -/
  | visit (id : NodeId)
  /-- A node has been joined with its child. The given number of lines ended at the node before. -/
  | join (id : NodeId) (lost : Int)
  /-- The affixes have been split off the values of a node. -/
  | split (id : NodeId) (a : Affixes)
deriving DecidableEq, Repr

variable {α β : Type}

/-- A step that is recorded. What is written down of it is told by the pass before and by the answer, and a
step that fails is not written down. -/
def watch (tell : Pass → α → List Event) (step : Step Pass α) : Step (Pass × List Event) α :=
  fun (pass, events) =>
    match step.run pass with
    | .ok a pass' => .ok a (pass', events ++ tell pass a)
    | .error fault pass' => .error fault (pass', events)

def silent : Step Pass α → Step (Pass × List Event) α := watch fun _ _ => []

/-- Joining a node with its child, as it is written down. -/
def joinEvents (id : NodeId) (pass : Pass) (joined : Bool) : List Event :=
  match joined, pass.tree.node id with
  | true, .ok node => [.join id node.lineEnds]
  | _, _ => []

/-- Splitting the values of a node, as it is written down. -/
def splitEvents (id : NodeId) (pass : Pass) (split : Bool) : List Event :=
  match split, pass.tree.node id with
  | true, .ok node =>
    match node.affixes? with
    | .ok (some a) => [.split id a]
    | _ => []
  | _, _ => []

def recordWithin : Nat → NodeId → Step (Pass × List Event) Unit
  | 0, _ => throw .endless
  | n + 1, id => do if ← watch (joinEvents id) (collapseChild id) then recordWithin n id

def recordPrepare (id : NodeId) (isChoice : Bool) : Step (Pass × List Event) Unit := do
  unless isChoice do recordWithin ((← silent get).tree.size + 1) id

def recordChain : Nat → Bool → Option NodeId → Step (Pass × List Event) Unit
  | _, _, none => pure ()
  | 0, _, some _ => throw .endless
  | n + 1, isChoice, some id => do
    watch (fun _ _ => [.visit id]) (report "squashing")
    recordPrepare id isChoice
    let _ ← watch (splitEvents id) (factor id)
    let node ← silent (ask (·.node id))
    let next ← silent (ask (below · node))
    recordChain n (next.elim false Prod.snd) (next.map Prod.fst)
    recordChain n isChoice node.sibling

def recordSweep : Step (Pass × List Event) Unit := do
  let root ← silent (ask (·.node Tree.root))
  let next ← silent (ask (below · root))
  recordChain (sweepLimit (← silent get).tree) (next.elim false Prod.snd) (next.map Prod.fst)

def events (pass : Pass) : List Event := (Step.state (recordSweep.run (pass, []))).2

/-- A recorded step is the given one if the record is left out. -/
def Erases (recorded : Step (Pass × List Event) α) (step : Step Pass α) : Prop :=
  ∀ pass events, Step.mapState Prod.fst (recorded.run (pass, events)) = step.run pass

namespace Erases

variable {recorded : Step (Pass × List Event) α} {step : Step Pass α}

theorem watch (tell : Pass → α → List Event) (step : Step Pass α) : Erases (watch tell step) step := by
  intro pass events
  simp only [EStateM.run, Pass.watch]
  cases step pass <;> rfl

theorem silent (step : Step Pass α) : Erases (silent step) step := watch _ step

theorem pure (a : α) : Erases (pure a) (pure a) := fun _ _ => rfl

theorem throw (fault : Fault) : Erases (throw fault : Step (Pass × List Event) α) (throw fault) :=
  fun _ _ => rfl

theorem bind {f : α → Step (Pass × List Event) β} {g : α → Step Pass β} (h : Erases recorded step)
    (hf : ∀ a, Erases (f a) (g a)) : Erases (recorded >>= f) (step >>= g) := by
  intro pass events
  have hfirst := h pass events
  rw [EStateM.run_bind, EStateM.run_bind, ← hfirst]
  cases recorded.run (pass, events) with
  | ok a s => exact hf a s.1 s.2
  | error fault s => rfl

theorem recordWithin (n : Nat) (id : NodeId) : Erases (recordWithin n id) (collapseWithin n id) := by
  induction n with
  | zero => exact throw .endless
  | succ n ih =>
      refine (watch _ (collapseChild id)).bind fun joined => ?_
      cases joined with
      | true => exact ih
      | false => exact pure ()

theorem recordPrepare (id : NodeId) (isChoice : Bool) :
    Erases (recordPrepare id isChoice) (prepare id isChoice) := by
  cases isChoice with
  | true => exact pure ()
  | false => exact (silent get).bind fun pass => recordWithin (pass.tree.size + 1) id

theorem recordChain (n : Nat) (isChoice : Bool) (first : Option NodeId) :
    Erases (recordChain n isChoice first) (sweepChain n isChoice first) := by
  induction n generalizing isChoice first with
  | zero =>
      cases first with
      | none => exact pure ()
      | some id => exact throw .endless
  | succ n ih =>
      cases first with
      | none => exact pure ()
      | some id =>
          rw [sweepChain, sweepFrom_succ]
          exact (watch _ _).bind fun _ => (recordPrepare id isChoice).bind fun _ =>
            (watch _ (factor id)).bind fun _ => (silent _).bind fun node => (silent _).bind fun next =>
              (ih _ _).bind fun _ => ih isChoice node.sibling

/-- A recorded sweep is a sweep. -/
theorem recordSweep : Erases recordSweep sweep := by
  refine (silent _).bind fun root => (silent _).bind fun next => ?_
  cases next with
  | none => exact (silent get).bind fun pass => recordChain _ false none
  | some next => exact (silent get).bind fun pass => recordChain _ next.2 (some next.1)

end Erases

end LogMining.Pass
