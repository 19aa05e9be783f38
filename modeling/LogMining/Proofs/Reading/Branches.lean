import LogMining.Render.Branches

/-!
# Adding branches to an outline

Branches are added one by one, a branch before those below it and these before the ones beside it. This puts
them where a nested description of them would put all at once.
-/

namespace LogMining.Branches

@[simp] theorem insertAt_none (way : List Nat) (branches : Branches) : insertAt none way branches = branches := by
  fun_induction insertAt none way branches <;> simp_all

/-- The way that leads to a branch which was added last is the way to its place, and then past those that were
there before. -/
theorem insertAt_insertAt (label : String) (below beside : Branches) (way : List Nat) (branches : Branches) :
    insertAt beside way (insertAt below (way ++ [countAt way branches])
        (insertAt (branch label none none) way branches)) =
      insertAt (branch label below beside) way branches := by
  induction branches generalizing way with
  | none => cases way <;> simp [insertAt, countAt]
  | branch own belowOwn besideOwn ihBelow ihBeside =>
      match way with
      | [] =>
          have hrest := ihBeside []
          simpa only [insertAt, countAt, List.nil_append, branch.injEq, true_and] using hrest
      | 0 :: way =>
          have hrest := ihBelow way
          simpa only [insertAt, countAt, List.cons_append, branch.injEq, true_and, and_true] using hrest
      | (n + 1) :: way =>
          have hrest := ihBeside (n :: way)
          simpa only [insertAt, countAt, List.cons_append, branch.injEq, true_and] using hrest

end LogMining.Branches
