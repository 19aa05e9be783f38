import LogMining.Step
import LogMining.Token.Basic

/-!
# Pending tokens

A word may turn out to be several tokens. The first one is handed out at once and the others are
set aside on a stack of limited size, from which they are taken before the next word is read.
-/

namespace LogMining

/-- A stack of tokens that have been found and not yet handed out. -/
structure Pending where
  /-- The number of tokens there is room for. With a negative number there is room for none. -/
  capacity : Int := 8
  /-- The tokens, the one to be handed out next first. -/
  items : List Token := []
deriving DecidableEq, Repr

namespace Pending

def size (p : Pending) : Nat := p.items.length

def words (p : Pending) : List String := p.items.reverse.map Token.word

def clear (p : Pending) : Pending := { p with items := [] }

def pop (p : Pending) : Option Token × Pending :=
  match p.items with
  | [] => (none, p)
  | t :: items => (some t, { p with items })

def push (t : Token) : Step Pending Unit := fun p =>
  if p.capacity ≤ p.size then .error (.overflow p.capacity) p
  else .ok () { p with items := t :: p.items }

def addressPart (t : Token) : Token :=
  { t with word := Shape.ipv4.placeholder, subword := true, special := true }

def slashPart : Token := { word := "/", subword := true }

def maskPart : Token :=
  { word := Shape.integer.placeholder, subword := true, special := true }

/-- The token that takes the place of `t`, if there is one. A masked address becomes three tokens,
of which the last two are set aside. -/
def detect (t : Token) : Step Pending (Option Token) := do
  match t.shaped? with
  | some s => return some s
  | none =>
    if Shape.isMaskedAddress t.word.toList then
      push maskPart
      push slashPart
      return some (addressPart t)
    else return none

theorem run_push (t : Token) (p : Pending) :
    (push t).run p = if p.capacity ≤ p.size then .error (.overflow p.capacity) p
      else .ok () { p with items := t :: p.items } := rfl

theorem size_push_le (t : Token) (p : Pending) :
    (Step.state ((push t).run p)).size ≤ p.size + 1 := by
  rw [run_push]
  split <;> simp [Step.state, size]

theorem size_detect_le (t : Token) (p : Pending) :
    (Step.state ((detect t).run p)).size ≤ p.size + 2 := by
  unfold detect
  split
  · simp [Step.state]
  · split
    · have hmask := size_push_le maskPart p
      rw [EStateM.run_bind]
      split
      · next q hq =>
        have hslash := size_push_le slashPart q
        rw [EStateM.run_bind]
        simp only [hq, Step.state] at hmask
        split
        · next r hr =>
          simp only [hr, Step.state] at hslash
          simp [Step.state]
          omega
        · next r hr =>
          simp only [hr, Step.state] at hslash
          simp [Step.state]
          omega
      · next q hq =>
        simp only [hq, Step.state] at hmask
        simp [Step.state]
        omega
    · simp [Step.state]

end Pending

end LogMining
