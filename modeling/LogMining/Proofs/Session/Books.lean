import LogMining.Proofs.Refine.Course
import LogMining.Proofs.Session.Calls
import Mathlib.Algebra.Group.Action.Defs
import Mathlib.Algebra.Order.BigOperators.Group.List

/-!
# The books of a refinement

Refining a session comes to an end, and what it reports and counts agrees with what becomes of the tree. Each
node that is left has been visited and reported once. The nodes are fewer by the joins and more by the fronts and
backs that have been split off, and no line ends are lost but those of nodes that have been joined with their child.
-/

namespace LogMining

namespace Session

variable {s s' : Session} {ends : Int} {below : Slots}

/-- What happens when a session is refined. -/
def events (s : Session) : List Pass.Event := s.pass.events

/-- The second session is the first one after a refinement whose books balance. -/
structure Balances (s s' : Session) : Prop where
  /-- All nodes that are left but the root have been visited, once each, and no other ones. -/
  visited : (Pass.visited s.events).Perm ((s'.tree.numbers.filter (· ≠ 0)).map Int.ofNat)
  /-- There is a report for each of them. -/
  progress : s'.progress = (Progress.counted "squashing")^[s'.tree.live - 1] s.progress
  tally : s'.tally =
    { squashed := (Pass.lostEnds s.events).length, disjoined := (Pass.splitOff s.events).length }
  /-- Each join takes a node away, and each split adds one node or two. -/
  live : ∃ added, s'.tree.size = s.tree.size + added ∧
    s'.tree.live + s'.tally.squashed = s.tree.live + added ∧
    s'.tally.disjoined ≤ added ∧ added ≤ 2 * s'.tally.disjoined
  /-- The line ends that are lost are those that a node had right before it was joined with its child. -/
  ends : (s'.tree.numbers.map s'.tree.lineEndsAt).sum + (Pass.lostEnds s.events).sum =
    (s.tree.numbers.map s.tree.lineEndsAt).sum

/-- Refining goes through as the slots tell, or it fails with the first report and leaves the tree as it is. -/
theorem exists_course_refine (h : s.tree.Comprises ends below) :
    (∃ below' s', refine.run s = .ok () s' ∧ Slots.Course below.hasChoice below s.events below' ∧
      s'.tree.Comprises ends below' ∧
      s'.progress = (Progress.counted "squashing")^[below'.ids.length] s.progress ∧
      s'.tally = { squashed := (Pass.lostEnds s.events).length, disjoined := (Pass.splitOff s.events).length } ∧
      s'.tree.size = s.tree.size + ((Pass.splitOff s.events).map Affixes.created).sum) ∨
    ¬s.progress.Reports ∧ ∃ s', refine.run s = .error .zeroRefresh s' ∧ s'.tree = s.tree := by
  have hpass : s.pass.tree.Comprises ends below := h
  by_cases hreports : s.pass.progress.Reports ∨ below = .nil
  · obtain ⟨below', pass', hcourse, hsweep, htree, hprogress, hbooks⟩ := Pass.run_sweep_course hpass hreports
    rw [Pass.entries_eq, Pass.books, Pass.books, Prod.mk_add_mk, Prod.mk_add_mk, Prod.mk.injEq,
      Prod.mk.injEq] at hbooks
    obtain ⟨hsquashed, hdisjoined, hsize⟩ := hbooks
    refine .inl ⟨below', { s with
      tree := pass'.tree, progress := pass'.progress, nodesBefore := some s.tree.live, tally := pass'.tally,
      keepsNotes := pass'.keepsNotes, notes := pass'.notes }, ?_, hcourse, htree, hprogress, ?_, hsize⟩
    · rw [run_refine, hsweep]
      rfl
    · rw [← Nat.zero_add (List.length _), ← Nat.zero_add (Pass.splitOff _).length]
      exact congrArg₂ Tally.mk hsquashed hdisjoined
  · rw [not_or] at hreports
    obtain ⟨progress, hsweep⟩ := Pass.run_sweep_of_ne_nil hpass hreports.1 hreports.2
    refine .inr ⟨hreports.1, { s with progress, nodesBefore := some s.tree.live, tally := {} }, ?_, rfl⟩
    rw [run_refine, hsweep]
    rfl

theorem length_le_sum_created {affixes : List Affixes} (h : ∀ a ∈ affixes, 0 < a.front ∨ 0 < a.back) :
    affixes.length ≤ (affixes.map Affixes.created).sum ∧
      (affixes.map Affixes.created).sum ≤ 2 * affixes.length := by
  have hcreated : ∀ n ∈ affixes.map Affixes.created, 1 ≤ n ∧ n ≤ 2 := by
    rw [List.forall_mem_map]
    intro a ha
    have hpos := h a ha
    rw [Affixes.created]
    split <;> split <;> omega
  have hle := List.card_nsmul_le_sum _ 1 fun n hn => (hcreated n hn).1
  have hge := List.sum_le_card_nsmul _ 2 fun n hn => (hcreated n hn).2
  rw [List.length_map, smul_eq_mul] at hle hge
  omega

theorem sum_lineEndsAt_numbers {tree : Tree} (h : tree.Comprises ends below) :
    (tree.numbers.map tree.lineEndsAt).sum = ends + below.endsSum := by
  rw [(h.perm_numbers.map _).sum_eq, Tree.sum_lineEndsAt h.holds.spells, Slots.root, Slots.endsSum,
    Slots.endsSum, Int.add_zero]

theorem perm_filter_numbers {tree : Tree} (h : tree.Comprises ends below) :
    (tree.numbers.filter (· ≠ 0)).Perm below.ids := by
  have hroot := (h.perm_numbers.filter (· ≠ 0))
  have hnodup := h.holds.nodup
  rw [Slots.root, Slots.nodup_ids_slot] at hnodup
  rw [Slots.root, Slots.ids_slot, Slots.ids_nil, List.append_nil, List.filter_cons_of_neg (by simp)] at hroot
  refine hroot.trans (List.Perm.of_eq (List.filter_eq_self.mpr fun n hn => ?_))
  rw [decide_eq_true_eq]
  rintro rfl
  exact hnodup.1 hn

/-- Where what happens in a refinement is told by the slots before and after, the books balance. -/
theorem balances_of_course {below' : Slots} (h : s.tree.Comprises ends below)
    (hcourse : Slots.Course below.hasChoice below s.events below') (h' : s'.tree.Comprises ends below')
    (hprogress : s'.progress = (Progress.counted "squashing")^[below'.ids.length] s.progress)
    (htally : s'.tally =
      { squashed := (Pass.lostEnds s.events).length, disjoined := (Pass.splitOff s.events).length })
    (hsize : s'.tree.size = s.tree.size + ((Pass.splitOff s.events).map Affixes.created).sum) :
    s.Balances s' where
  visited := by
    rw [hcourse.visited_eq]
    exact ((perm_filter_numbers h').map _).symm
  progress := by
    rw [h'.live_eq, Nat.add_one_sub_one]
    exact hprogress
  tally := htally
  live := by
    have hlength := hcourse.length_eq
    have hadded := length_le_sum_created hcourse.pos_of_mem_splitOff
    refine ⟨_, hsize, ?_, htally ▸ hadded⟩
    rw [h.live_eq, h'.live_eq, htally]
    dsimp only
    omega
  ends := by
    have hlost := hcourse.endsSum_eq
    rw [sum_lineEndsAt_numbers h, sum_lineEndsAt_numbers h']
    omega

/-- After any calls on a session that begins with the empty tree, refining it comes to an end and its books
balance, unless reports do not go through. The record on which the books are based is one of the refinement. -/
theorem refine_balances (s : Session) (calls : List Call) :
    let before := after { s with tree := .empty } calls
    Step.mapState Prod.fst (Pass.recordSweep.run (before.pass, [])) = Pass.sweep.run before.pass ∧
    ((∃ s', refine.run before = .ok () s' ∧ before.Balances s') ∨
      ¬before.progress.Reports ∧
        ∃ s', refine.run before = .error .zeroRefresh s' ∧ s'.tree = before.tree) := by
  intro before
  obtain ⟨ends, below, htree⟩ :=
    after_comprises (s := { s with tree := .empty }) Tree.comprises_empty calls
  refine ⟨Pass.Erases.recordSweep before.pass [], (exists_course_refine htree).imp_left ?_⟩
  rintro ⟨below', s', hrun, hcourse, htree', hprogress, htally, hsize⟩
  exact ⟨s', hrun, balances_of_course htree hcourse htree' hprogress htally hsize⟩

end Session

end LogMining
