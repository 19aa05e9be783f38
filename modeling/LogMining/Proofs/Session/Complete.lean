import LogMining.Proofs.Refine.Complete
import LogMining.Proofs.Session.Books

/-!
# A refinement is complete

When a session has been refined, no node has values left of which something could be split off. A node that is
the only child of its parent could be joined with its child only where the child is a front that has just been
split off, and no node has been joined with its child but those that were the only child of their parent.
-/

namespace LogMining

namespace Session

variable {s s' : Session} {ends : Int} {below below' : Slots}

/-- The second session is the first one after a refinement that has left nothing undone. -/
structure Completes (s s' : Session) : Prop where
  /-- Values have nothing in common that could be split off, if the first of them is no part of a word. -/
  split : ∀ n node, s'.tree.get? n = some node → 2 ≤ node.values.length →
    (∀ t ∈ node.values.head?, t.subword = false) →
      Affixes.ofWords (node.values.map Token.word) = .ok { front := 0, back := 0 }
  /-- An only child that can be joined with its own child is followed by a front that has been split off in the
  refinement, since a node keeps its number when it becomes the front of its values. -/
  joined : ∀ (p n : Nat) node c, s'.tree.children p = .ok [(n : Int)] → s'.tree.get? n = some node →
    s'.tree.collapse? node = .ok (some c) → ∃ a, .split c.childId a ∈ s.events ∧ 0 < a.front
  /-- A node that has been joined with its child was the only child of its parent before. -/
  alone : ∀ (p : Nat) id lost ids, .join id lost ∈ s.events → s.tree.children p = .ok ids → id ∈ ids → ids = [id]

/-- Where what happens in a refinement is told by the slots before and after, it is complete. -/
theorem completes_of_course (h : s.tree.Comprises ends below)
    (hcourse : Slots.Course below.hasChoice below s.events below') (h' : s'.tree.Comprises ends below') :
    s.Completes s' where
  split n node hnode hlength hfirst := by
    have hn : n ≠ 0 := by
      -- the root has its word only
      rintro rfl
      rw [h'.root_values hnode, List.length_singleton] at hlength
      omega
    have hnone := h'.all_iff.mp hcourse.sweeps.unsplit n node hnode hn
    exact Token.ofWords_of_affixes?_eq_none hlength hfirst hnone
  joined p n node c hids hnode hc := by
    obtain ⟨chain, hchain, hone, hholds⟩ := h'.exists_chain hids
    cases chain with
    | nil => cases hone
    | slot m values ends lower beside =>
        cases beside with
        | slot => cases hone
        | nil =>
            obtain rfl : n = m := Int.ofNat.inj (List.head_eq_of_cons_eq hone)
            obtain rfl : node = _ := Option.some.inj (hnode.symm.trans hholds.spells.1)
            have hjoint : Slots.joint? values lower ≠ none := by
              intro hjoint
              rw [Pass.collapse?_eq_none hholds.spells hjoint] at hc
              cases hc
            obtain ⟨k, a, hfirst, hsplit, hfront⟩ :=
              hcourse.joinsFrontOnly_of_mem h.proper hchain n values ends lower rfl hjoint
            rw [← Option.some.inj (hfirst.symm.trans (Tree.child_of_collapse? hc))]
            exact ⟨a, hsplit, hfront⟩
  alone p id lost ids hjoin hids hid := by
    obtain ⟨chain, hchain, rfl, -⟩ := h.exists_chain hids
    exact hcourse.chain_eq_of_join h'.holds.below.nodup hchain hjoin hid

/-- After any calls on a session that begins with the empty tree, refining it leaves nothing undone, unless
reports do not go through. The record that tells what has been split and joined is one of the refinement. -/
theorem refine_completes (s : Session) (calls : List Call) :
    let before := after { s with tree := .empty } calls
    Step.mapState Prod.fst (Pass.recordSweep.run (before.pass, [])) = Pass.sweep.run before.pass ∧
    ((∃ s', refine.run before = .ok () s' ∧ before.Completes s') ∨
      ¬before.progress.Reports ∧
        ∃ s', refine.run before = .error .zeroRefresh s' ∧ s'.tree = before.tree) := by
  intro before
  obtain ⟨ends, below, htree⟩ :=
    after_comprises (s := { s with tree := .empty }) Tree.comprises_empty calls
  refine ⟨Pass.Erases.recordSweep before.pass [], (exists_course_refine htree).imp_left ?_⟩
  rintro ⟨below', s', hrun, hcourse, htree', -⟩
  exact ⟨s', hrun, completes_of_course htree hcourse htree'⟩

end Session

end LogMining
