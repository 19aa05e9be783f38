import LogMining.Proofs.Progress.Reports
import Mathlib.Algebra.GroupWithZero.Nat
import Mathlib.Data.List.Nodup

/-!
# Totals of a run

Every unit that is reported belongs to one phase, which is the open one or one that has ended. So the units of
a label in all phases are the reports that were made under it, and when the run is finished they are the total
of the label. A label without units has no total.
-/

namespace LogMining.Progress

/-- The phases with their units. The open one is the last. -/
def phases (p : Progress) : List (String × Nat) :=
  p.closed.toList ++ (p.label.map fun label => (label, p.count)).toList

/-- The units of a label in some phases. -/
def unitsOf (label : String) (phases : List (String × Nat)) : Nat :=
  (phases.map fun phase => if phase.1 = label then phase.2 else 0).sum

theorem unitsOf_cons (label : String) (phase : String × Nat) (phases : List (String × Nat)) :
    unitsOf label (phase :: phases) =
      (if phase.1 = label then phase.2 else 0) + unitsOf label phases :=
  List.sum_cons

theorem unitsOf_append (label : String) (phases phases' : List (String × Nat)) :
    unitsOf label (phases ++ phases') = unitsOf label phases + unitsOf label phases' := by
  rw [unitsOf, List.map_append, List.sum_append]
  rfl

theorem unitsOf_singleton (label own : String) (n : Nat) :
    unitsOf label [(own, n)] = if own = label then n else 0 := List.sum_singleton

variable {p : Progress}

theorem toList_closed_close (p : Progress) : p.close.closed.toList = p.phases := by
  rw [phases, close]
  cases p.label with
  | none => exact (List.append_nil _).symm
  | some label => exact Array.toList_push

theorem phases_counted (h : p.enabled = true) (label : String) :
    (p.counted label).phases =
      if p.label = some label then p.closed.toList ++ [(label, p.count + 1)]
      else p.phases ++ [(label, 1)] := by
  rw [counted, if_pos h, enter]
  split
  · next hopen => rw [phases, hopen]; rfl
  · rw [← toList_closed_close p]
    rfl

theorem unitsOf_phases_counted (h : p.enabled = true) (label own : String) :
    unitsOf label (p.counted own).phases = unitsOf label p.phases + if own = label then 1 else 0 := by
  rw [phases_counted h]
  split
  · next hopen =>
    rw [phases, hopen, Option.map_some, Option.toList_some, unitsOf_append, unitsOf_append,
      unitsOf_singleton, unitsOf_singleton]
    split <;> omega
  · rw [unitsOf_append, unitsOf_singleton]

theorem unitsOf_phases_iterate_counted (h : p.enabled = true) (label own : String) (n : Nat) :
    unitsOf label ((counted own)^[n] p).phases = unitsOf label p.phases + unitsOf label [(own, n)] := by
  induction n generalizing p with
  | zero => simp [unitsOf_singleton]
  | succ n ih =>
      rw [Function.iterate_succ_apply, ih ((enabled_counted own p).trans h), unitsOf_phases_counted h,
        unitsOf_singleton, unitsOf_singleton]
      split <;> omega

/-- Every phase has a unit. -/
def Busy (p : Progress) : Prop := ∀ phase ∈ p.phases, 0 < phase.2

theorem Busy.counted (h : p.Busy) (label : String) : (p.counted label).Busy := by
  by_cases henabled : p.enabled = true
  · intro phase hphase
    rw [phases_counted henabled] at hphase
    split at hphase
    · rcases List.mem_append.mp hphase with hclosed | hopen
      · exact h phase (List.mem_append_left _ hclosed)
      · rw [List.mem_singleton.mp hopen]
        exact Nat.succ_pos _
    · rcases List.mem_append.mp hphase with hold | hnew
      · exact h phase hold
      · rw [List.mem_singleton.mp hnew]
        exact Nat.one_pos
  · rwa [Progress.counted, if_neg henabled]

theorem Busy.iterate_counted (h : p.Busy) (label : String) (n : Nat) :
    ((Progress.counted label)^[n] p).Busy := by
  induction n generalizing p with
  | zero => exact h
  | succ n ih => exact ih (h.counted label)

def countAll (p : Progress) (phases : List (String × Nat)) : Progress :=
  phases.foldl (fun p phase => (Progress.counted phase.1)^[phase.2] p) p

theorem countAll_cons (p : Progress) (phase : String × Nat) (phases : List (String × Nat)) :
    p.countAll (phase :: phases) = ((Progress.counted phase.1)^[phase.2] p).countAll phases := rfl

theorem enabled_iterate_counted (label : String) (n : Nat) (p : Progress) :
    ((Progress.counted label)^[n] p).enabled = p.enabled := by
  induction n generalizing p with
  | zero => rfl
  | succ n ih => exact (ih _).trans (enabled_counted label p)

theorem enabled_countAll (p : Progress) (phases : List (String × Nat)) :
    (p.countAll phases).enabled = p.enabled := by
  induction phases generalizing p with
  | nil => rfl
  | cons phase phases ih => exact (ih _).trans (enabled_iterate_counted phase.1 phase.2 p)

theorem Busy.countAll (h : p.Busy) (phases : List (String × Nat)) : (p.countAll phases).Busy := by
  induction phases generalizing p with
  | nil => exact h
  | cons phase phases ih => exact ih (h.iterate_counted phase.1 phase.2)

/-- No unit is lost or counted twice. -/
theorem unitsOf_phases_countAll (h : p.enabled = true) (label : String) (phases : List (String × Nat)) :
    unitsOf label (p.countAll phases).phases = unitsOf label p.phases + unitsOf label phases := by
  induction phases generalizing p with
  | nil => rfl
  | cons phase phases ih =>
      rw [countAll_cons, ih ((enabled_iterate_counted ..).trans h), unitsOf_phases_iterate_counted h,
        unitsOf_singleton, unitsOf_cons, Nat.add_assoc]

theorem lookup_cons (label own : String) (n : Nat) (totals : List (String × Nat)) :
    ((own, n) :: totals).lookup label = if own = label then some n else totals.lookup label := by
  rw [List.lookup_cons]
  by_cases h : own = label
  · rw [if_pos h, beq_iff_eq.mpr h.symm]
  · rw [if_neg h, beq_eq_false_iff_ne.mpr (Ne.symm h)]

theorem lookup_addTotal (label : String) (phase : String × Nat) (totals : List (String × Nat)) :
    (addTotal phase totals).lookup label =
      if phase.1 = label then some ((totals.lookup label).getD 0 + phase.2) else totals.lookup label := by
  induction totals with
  | nil =>
      rw [addTotal, lookup_cons, List.lookup_nil, Option.getD_none, Nat.zero_add]
  | cons total totals ih =>
      obtain ⟨own, n⟩ := total
      rw [addTotal, lookup_cons]
      by_cases hown : own = phase.1
      · rw [if_pos hown, lookup_cons, hown]
        split <;> rfl
      · rw [if_neg hown, lookup_cons, ih]
        by_cases h : own = label
        · have hne : ¬phase.1 = label := fun heq => hown (h.trans heq.symm)
          rw [if_pos h, if_neg hne, if_pos h]
        · simp only [if_neg h]

theorem map_fst_addTotal (phase : String × Nat) (totals : List (String × Nat)) :
    (addTotal phase totals).map Prod.fst =
      if phase.1 ∈ totals.map Prod.fst then totals.map Prod.fst
      else totals.map Prod.fst ++ [phase.1] := by
  induction totals with
  | nil => rfl
  | cons total totals ih =>
      obtain ⟨own, n⟩ := total
      rw [addTotal]
      by_cases hown : own = phase.1
      · simp [hown]
      · have hmem : phase.1 ∈ own :: totals.map Prod.fst ↔ phase.1 ∈ totals.map Prod.fst :=
          List.mem_cons.trans (or_iff_right (Ne.symm hown))
        rw [if_neg hown, List.map_cons, List.map_cons, ih]
        simp only [hmem]
        split <;> rfl

theorem lookup_foldl_addTotal {phases totals : List (String × Nat)} (hpos : ∀ phase ∈ phases, 0 < phase.2)
    {label : String} {n : Nat} (h : totals.lookup label = if n = 0 then none else some n) :
    (phases.foldl (fun totals phase => addTotal phase totals) totals).lookup label =
      if n + unitsOf label phases = 0 then none else some (n + unitsOf label phases) := by
  induction phases generalizing totals n with
  | nil => exact h
  | cons phase phases ih =>
      rw [List.forall_mem_cons] at hpos
      rw [List.foldl_cons, unitsOf_cons, ← Nat.add_assoc]
      refine ih hpos.2 ?_
      rw [lookup_addTotal, h]
      by_cases hphase : phase.1 = label
      · have hne : n + phase.2 ≠ 0 := by omega
        rw [if_pos hphase, if_pos hphase, if_neg hne]
        split <;> simp_all
      · rw [if_neg hphase, if_neg hphase]
        rfl

theorem totals_finish (h : p.enabled = true) :
    p.finish.totals = p.phases.foldl (fun totals phase => addTotal phase totals) [] := by
  rw [totals, finish, if_pos h, toList_closed_close]

theorem lookup_totals_finish (h : p.enabled = true) (hbusy : p.Busy) (label : String) :
    p.finish.totals.lookup label =
      if unitsOf label p.phases = 0 then none else some (unitsOf label p.phases) := by
  have hnone : ([] : List (String × Nat)).lookup label = if 0 = 0 then none else some 0 := rfl
  rw [totals_finish h, lookup_foldl_addTotal hbusy hnone, Nat.zero_add]

/-- Progress that begins without a phase has for the total of a label the units that were reported of it. -/
theorem lookup_totals_countAll (refreshEvery : Int) (label : String) (phases : List (String × Nat)) :
    (countAll { enabled := true, refreshEvery } phases).finish.totals.lookup label =
      if unitsOf label phases = 0 then none else some (unitsOf label phases) := by
  have hbusy : Busy { enabled := true, refreshEvery } := fun _ h => absurd h List.not_mem_nil
  have hunits := unitsOf_phases_countAll (p := { enabled := true, refreshEvery }) rfl label phases
  rw [lookup_totals_finish (enabled_countAll ..) (hbusy.countAll phases), hunits]
  exact (congrArg (fun n => if n = 0 then none else some n) (Nat.zero_add (unitsOf label phases)))

theorem nodup_totals (p : Progress) : (p.totals.map Prod.fst).Nodup := by
  rw [totals]
  refine List.foldlRecOn p.closed.toList _
    (motive := fun totals : List (String × Nat) => (totals.map Prod.fst).Nodup)
    List.nodup_nil fun totals hnodup phase _ => ?_
  rw [map_fst_addTotal]
  split
  · exact hnodup
  · next hnot =>
    rw [List.nodup_append_comm]
    exact List.nodup_cons.mpr ⟨hnot, hnodup⟩

end LogMining.Progress
