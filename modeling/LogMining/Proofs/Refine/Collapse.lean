import LogMining.Proofs.Refine.Pass
import LogMining.Proofs.Refine.Relink
import LogMining.Refine.Collapse

/-!
# Collapsing a chain of literals

`Slots.joint?` is what becomes of a slot when it is joined with its only child, and `Slots.Joined` what
becomes of it when that is done as often as possible. A pass that collapses a node makes these changes to
the slots and nothing else, and does not come to the end of the links it may follow.
-/

namespace LogMining

namespace Slots

/-- The value, the line ends and the chain below of a slot that is joined with the slot below it, if
each has one value, the lower one is the only alternative and none of the two is a placeholder. -/
def joint? (values : List Token) (below : Slots) : Option (Token × Int × Slots) :=
  match values, below with
  | [t], slot _ [u] lineEnds below' nil =>
    if t.isPlaceholder || u.isPlaceholder then none
    else some ({ t with word := t.word ++ " " ++ u.word }, lineEnds, below')
  | _, _ => none

/-- Joining a slot with the slots below it as long as possible leads from the first values, line ends
and chain below to the second ones. -/
inductive Joined : List Token → Int → Slots → List Token → Int → Slots → Prop
  | done {values : List Token} {ends : Int} {below : Slots} (h : joint? values below = none) :
      Joined values ends below values ends below
  | step {values values' : List Token} {t : Token} {ends mid ends' : Int}
      {below below' below'' : Slots} (h : joint? values below = some (t, mid, below'))
      (rest : Joined [t] mid below' values' ends' below'') :
      Joined values ends below values' ends' below''

theorem joint?_eq_some {values : List Token} {below below' : Slots} {t' : Token} {ends' : Int}
    (h : joint? values below = some (t', ends', below')) :
    ∃ t u id, values = [t] ∧ below = slot id [u] ends' below' nil ∧
      t.isPlaceholder = false ∧ u.isPlaceholder = false ∧
      t' = { t with word := t.word ++ " " ++ u.word } := by
  unfold joint? at h
  split at h
  · next t id u ends below'' =>
    split at h
    · cases h
    · next hplace =>
      rw [Bool.or_eq_true, not_or, Bool.not_eq_true, Bool.not_eq_true] at hplace
      cases h
      exact ⟨t, u, id, rfl, rfl, hplace.1, hplace.2, rfl⟩
  · cases h

theorem joint?_of_length_ne_one {values : List Token} (h : values.length ≠ 1) (below : Slots) :
    joint? values below = none := by
  cases hjoint : joint? values below with
  | none => rfl
  | some r =>
      obtain ⟨t, u, id, rfl, -⟩ := joint?_eq_some hjoint
      exact absurd rfl h

theorem joint?_of_isPlaceholder {t : Token} (h : t.isPlaceholder = true) (below : Slots) :
    joint? [t] below = none := by
  cases hjoint : joint? [t] below with
  | none => rfl
  | some r =>
      obtain ⟨t', u, id, ht, -, ht', -⟩ := joint?_eq_some hjoint
      cases ht
      rw [h] at ht'
      cases ht'

theorem Joined.proper {values values' : List Token} {ends ends' : Int} {below below' : Slots}
    (h : Joined values ends below values' ends' below') (hne : values ≠ [])
    (hnodup : (values.map Token.word).Nodup) (hproper : below.Proper) :
    values' ≠ [] ∧ (values'.map Token.word).Nodup ∧ below'.Proper := by
  induction h with
  | done h => exact ⟨hne, hnodup, hproper⟩
  | step h rest ih =>
      obtain ⟨t, u, id, rfl, rfl, -⟩ := joint?_eq_some h
      exact ih (by simp) (by simp) hproper.2.2.1

theorem length_ids_of_joint? {values : List Token} {below below' : Slots} {t : Token} {ends : Int}
    (h : joint? values below = some (t, ends, below')) : below'.ids.length < below.ids.length := by
  obtain ⟨t', u, id, rfl, rfl, -⟩ := joint?_eq_some h
  simp

end Slots

namespace Pass

variable {parent : Option NodeId} {id : Nat} {values values' : List Token} {ends ends' : Int}
  {below below' beside : Slots}

theorem collapse?_eq_none {tree : Tree}
    (h : tree.Spells parent (.slot id values ends below beside))
    (hjoint : Slots.joint? values below = none) :
    tree.collapse?
        { values, parent, child := below.first, sibling := beside.first, lineEnds := ends } =
      .ok none := by
  rcases below with _ | ⟨cid, more, ends', below', beside'⟩
  · cases values <;> rfl
  · rcases values with _ | ⟨t, _ | ⟨t', values⟩⟩
    · rfl
    · simp only [Tree.collapse?, Slots.first_slot, Tree.node_of_get? h.2.1.1]
      rcases beside' with _ | ⟨_, _, _, _, _⟩
      · rcases more with _ | ⟨u, _ | ⟨u', more⟩⟩
        · rfl
        · rw [Slots.joint?] at hjoint
          split at hjoint
          · next hplace =>
            simp only [bind, Except.bind, Slots.first_nil]
            rw [if_pos hplace]
            rfl
          · cases hjoint
        · rfl
      · rfl
    · rfl

theorem run_collapseChild_of_none {pass : Pass}
    (h : pass.tree.Holds parent (.slot id values ends below beside))
    (hjoint : Slots.joint? values below = none) :
    (collapseChild id).run pass = .ok false pass := by
  simp only [collapseChild, EStateM.run_bind, run_ask, Tree.node_of_get? h.spells.1,
    collapse?_eq_none h.spells hjoint]
  rfl

theorem run_collapseChild_of_some {pass : Pass} {t : Token}
    (h : pass.tree.Holds parent (.slot id values ends below beside))
    (hjoint : Slots.joint? values below = some (t, ends', below')) :
    ∃ pass', (collapseChild id).run pass = .ok true pass' ∧
      pass.Replaces pass' parent (.slot id values ends below beside)
        (.slot id [t] ends' below' beside) := by
  obtain ⟨t', u, cid, rfl, rfl, ht', hu, rfl⟩ := Slots.joint?_eq_some hjoint
  let c : Collapse :=
    { childId := cid
      child := { values := [u], parent := some (id : Int), child := below'.first, lineEnds := ends' }
      word := t'.word ++ " " ++ u.word }
  have hcollapse : pass.tree.collapse?
      { values := [t'], parent, child := some (cid : Int), sibling := beside.first,
        lineEnds := ends } = .ok (some c) := by
    simp [Tree.collapse?, Tree.node_of_get? h.spells.2.1.1, bind, Except.bind, ht', hu, pure,
      Except.pure, c]
  -- the node first takes over what its child has, and the child is dissolved afterwards
  let joined : Tree := Tree.setAt id (Node.collapsed c) pass.tree
  have hother : ∀ n, n ≠ id → joined.get? n = pass.tree.get? n := by
    intro n hn
    rw [Tree.get?_setAt, if_neg hn.symm]
  have hnode : joined.get? id = some
      { values := [{ t' with word := c.word }], parent, child := below'.first,
        sibling := beside.first, lineEnds := ends' } := by
    rw [Tree.get?_setAt, if_pos rfl, h.spells.1]
    rfl
  obtain ⟨adopted, deleted, hadopt, hdelete, hreplaces⟩ :=
    Tree.run_dissolve h hother (Tree.size_setAt ..) hnode
  refine ⟨{ pass with
      tree := deleted
      notes := if pass.keepsNotes then pass.notes ++ [Note.squashed c.word] else pass.notes
      tally := { pass.tally with squashed := pass.tally.squashed + 1 } }, ?_, ⟨hreplaces, rfl⟩⟩
  simp only [collapseChild, EStateM.run_bind, run_ask, run_onTree, run_note, run_count,
    Tree.node_of_get? h.spells.1, hcollapse, Slots.first_slot,
    Tree.run_update (Tree.locate_of_get? h.spells.1), Step.mapState]
  rw [hadopt]
  dsimp only
  rw [hdelete]
  rfl

theorem run_collapseWithin {n : Nat} {pass : Pass}
    (h : pass.tree.Holds parent (.slot id values ends below beside)) (hn : below.ids.length < n) :
    ∃ values' ends' below' pass', Slots.Joined values ends below values' ends' below' ∧
      (collapseWithin n id).run pass = .ok () pass' ∧
      pass.Replaces pass' parent (.slot id values ends below beside)
        (.slot id values' ends' below' beside) := by
  induction n generalizing pass values ends below with
  | zero => simp at hn
  | succ n ih =>
      cases hjoint : Slots.joint? values below with
      | none =>
          refine ⟨values, ends, below, pass, .done hjoint, ?_, Replaces.refl h⟩
          rw [collapseWithin, EStateM.run_bind, run_collapseChild_of_none h hjoint]
          rfl
      | some joined =>
          obtain ⟨t, mid, below'⟩ := joined
          obtain ⟨pass', hrun, hreplaces⟩ := run_collapseChild_of_some h hjoint
          have hlt := Slots.length_ids_of_joint? hjoint
          obtain ⟨values', ends', below'', pass'', hrest, hrun', hreplaces'⟩ :=
            ih hreplaces.toHolds (by omega)
          refine ⟨values', ends', below'', pass'', .step hjoint hrest, ?_,
            hreplaces.trans hreplaces'⟩
          rw [collapseWithin, EStateM.run_bind, hrun]
          exact hrun'

theorem run_collapseAll {pass : Pass}
    (h : pass.tree.Holds parent (.slot id values ends below beside)) :
    ∃ values' ends' below' pass', Slots.Joined values ends below values' ends' below' ∧
      (collapseAll id).run pass = .ok () pass' ∧
      pass.Replaces pass' parent (.slot id values ends below beside)
        (.slot id values' ends' below' beside) :=
  run_collapseWithin h (Nat.lt_succ_of_le h.below.length_ids_le)

end Pass

end LogMining
