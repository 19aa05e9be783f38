/-!
# Reading a text piece by piece

Several readers cut a text from the left: they look at its beginning, decide on a piece and go on
with what is left. `pieces` is that loop for any way of deciding on the first piece. The rest that a
decision leaves is never longer than what followed the first character, so the text is used up.
-/

namespace LogMining.Text

variable {β : Type}

/-- A decision on the first piece of the text `c :: rest`, and on what is left after it. -/
abbrev Cutter (β : Type) :=
  (c : Char) → (rest : List Char) → β × { left : List Char // left.length ≤ rest.length }

def takeOne (piece : β) (rest : List Char) :
    β × { left : List Char // left.length ≤ rest.length } :=
  (piece, ⟨rest, Nat.le_refl _⟩)

/-- Appends the pieces of a text to those that have been read before, which come last first. -/
def piecesOnto (next : Cutter β) (done : List β) : List Char → List β
  | [] => done.reverse
  | c :: rest =>
    let step := next c rest
    piecesOnto next (step.1 :: done) step.2.1
termination_by text => text.length
decreasing_by exact Nat.lt_succ_of_le step.2.2

def pieces (next : Cutter β) (text : List Char) : List β := piecesOnto next [] text

theorem piecesOnto_eq (next : Cutter β) (done : List β) :
    (text : List Char) → piecesOnto next done text = done.reverse ++ pieces next text
  | [] => by simp [pieces, piecesOnto]
  | c :: rest => by
    have hleft := (next c rest).2.2
    have hdone := piecesOnto_eq next ((next c rest).1 :: done) (next c rest).2.1
    have hnil := piecesOnto_eq next [(next c rest).1] (next c rest).2.1
    simp only [pieces, piecesOnto] at hdone hnil ⊢
    simp [hdone, hnil]
termination_by text => text.length

@[simp] theorem pieces_nil (next : Cutter β) : pieces next [] = [] := by
  simp [pieces, piecesOnto]

theorem pieces_cons (next : Cutter β) (c : Char) (rest : List Char) :
    pieces next (c :: rest) = (next c rest).1 :: pieces next (next c rest).2.1 := by
  rw [pieces, piecesOnto, piecesOnto_eq]
  rfl

theorem pieces_induction (next : Cutter β) {motive : List Char → Prop} (nil : motive [])
    (cons : ∀ c rest, motive (next c rest).2.1 → motive (c :: rest)) : (text : List Char) → motive text
  | [] => nil
  | c :: rest => by
    have hleft := (next c rest).2.2
    exact cons c rest (pieces_induction next nil cons (next c rest).2.1)
termination_by text => text.length

end LogMining.Text
