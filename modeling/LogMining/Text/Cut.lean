/-!
# Cutting a text at a signed offset

An offset that is not negative counts from the start of the text, a negative one from its end.
Offsets beyond either end stop at that end, so every cut is defined.
-/

namespace LogMining.Text

variable {α : Type}

/-- The place in a list that a signed offset names. -/
def cutPoint (k : Int) (l : List α) : Nat :=
  if 0 ≤ k then k.toNat else (l.length + k).toNat

def takeSigned (k : Int) (l : List α) : List α := l.take (cutPoint k l)

def dropSigned (k : Int) (l : List α) : List α := l.drop (cutPoint k l)

theorem length_drop_le (n : Nat) (l : List α) : (l.drop n).length ≤ l.length := by
  rw [List.length_drop]
  exact Nat.sub_le _ _

theorem length_of_dropWhile {p : α → Bool} {l left : List α} {a : α}
    (h : l.dropWhile p = a :: left) : left.length ≤ l.length := by
  have hdrop := (List.dropWhile_sublist (p := p) (l := l)).length_le
  rw [h] at hdrop
  exact Nat.le_of_succ_le hdrop

@[simp] theorem takeSigned_natCast (n : Nat) (l : List α) : takeSigned n l = l.take n := by
  simp [takeSigned, cutPoint]

@[simp] theorem dropSigned_natCast (n : Nat) (l : List α) : dropSigned n l = l.drop n := by
  simp [dropSigned, cutPoint]

end LogMining.Text
