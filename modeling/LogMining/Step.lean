import LogMining.Fault

/-!
# Steps that may fail half way

Most operations of the library change a state, and some of them stop at a fault after a part of
their work is done. That part is not undone: who looks at the state afterwards sees it. A `Step` is
such an operation. `Step.query` asks something of the state, and `Step.mapState` carries the outcome
of a step on a part over to the whole.
-/

namespace LogMining

/-- A computation on a state that may fail. What was done before a failure stays done. -/
abbrev Step (σ : Type) := EStateM Fault σ

namespace Step

variable {σ τ α : Type}

def query (ask : σ → Except Fault α) : Step σ α := fun s =>
  match ask s with
  | .ok a => .ok a s
  | .error fault => .error fault s

def answer : EStateM.Result Fault σ α → Except Fault α
  | .ok a _ => .ok a
  | .error fault _ => .error fault

def state : EStateM.Result Fault σ α → σ
  | .ok _ s => s
  | .error _ s => s

/-- Carries the result of a step over to another state. -/
def mapState (f : σ → τ) : EStateM.Result Fault σ α → EStateM.Result Fault τ α
  | .ok a s => .ok a (f s)
  | .error fault s => .error fault (f s)

@[simp] theorem state_mapState (f : σ → τ) (r : EStateM.Result Fault σ α) :
    state (mapState f r) = f (state r) := by
  cases r <;> rfl

@[simp] theorem answer_mapState (f : σ → τ) (r : EStateM.Result Fault σ α) :
    answer (mapState f r) = answer r := by
  cases r <;> rfl

theorem run_query (ask : σ → Except Fault α) (s : σ) :
    (query ask).run s =
      match ask s with
      | .ok a => .ok a s
      | .error fault => .error fault s := rfl

@[simp] theorem state_query (ask : σ → Except Fault α) (s : σ) :
    state ((query ask).run s) = s := by
  rw [run_query]
  split <;> rfl

@[simp] theorem answer_query (ask : σ → Except Fault α) (s : σ) :
    answer ((query ask).run s) = ask s := by
  rw [run_query]
  split
  · next a h => rw [h, answer]
  · next fault h => rw [h, answer]

end Step

end LogMining
