import LogMining.Proofs.Refine.Intact
import LogMining.Proofs.Session.Tokens
import Mathlib.Data.List.Induction

/-!
# Placeholders in a session

The tokens of the lines that a session takes in are intact, and they stay so in the tree as long as no
placeholder is split. Whether one is depends on the tree that is refined: a slot that has collected several
placeholders is split like any other, as they all begin and end alike.
-/

namespace LogMining.Session

/-- Refining splits no placeholder, if reports go through so that there is any refining. -/
def Spares (s : Session) : Prop := s.progress.Reports → s.tree.Spares

/-- The values that stand for shapes have placeholders for their words all the time, and refining leaves them
where they are. -/
structure KeepsPlaceholders (s : Session) (calls : List Call) : Prop where
  intact : ∀ done, done <+: calls → (s.after done).tree.Intact
  kept : ∀ done, done ++ [.refine] <+: calls →
    (s.after done).tree.KeepsSpecial (s.after (done ++ [.refine])).tree

variable {s : Session} {ends : Int} {below : Slots}

theorem intact_addLine (h : s.tree.Comprises ends below) (hintact : s.tree.Intact)
    (hpending : s.pending.Intact) (line : String) :
    (Step.state ((addLine line).run s)).tree.Intact ∧
      (Step.state ((addLine line).run s)).pending.Intact := by
  obtain ⟨⟨ends', below', htree, hbelow'⟩, hpending'⟩ := forall_mem_addLine
    (fun _ ht => ht) (fun _ ht => ht) h (h.intact_iff.mp hintact) hpending line
    (fun _ hword _ ht => (genuine_of_mem_line hword ht).intact)
  exact ⟨htree.intact_iff.mpr hbelow', hpending'⟩

theorem pending_refine (s : Session) : (Step.state (refine.run s)).pending = s.pending := by
  rw [run_refine]
  cases Pass.sweep.run s.pass <;> rfl

theorem sweeps_refine (h : s.tree.Comprises ends below) (hreports : s.progress.Reports) :
    ∃ below', Slots.Sweeps below.hasChoice below below' ∧
      (Step.state (refine.run s)).tree.Comprises ends below' := by
  have hpass : s.pass.tree.Comprises ends below := h
  obtain ⟨below', pass', hsweeps, hrun, htree, -⟩ := Pass.run_sweep hpass hreports
  rw [run_refine, hrun]
  exact ⟨below', hsweeps, htree⟩

theorem tree_refine_of_not (h : s.tree.Comprises ends below) (hreports : ¬s.progress.Reports) :
    (Step.state (refine.run s)).tree = s.tree := by
  have hpass : s.pass.tree.Comprises ends below := h
  rw [run_refine]
  rcases Pass.run_sweep_of_not hpass hreports with hrun | ⟨progress, hrun⟩
  · rw [hrun]
    rfl
  · rw [hrun]
    rfl

theorem intact_refine_iff (h : s.tree.Comprises ends below) (hintact : s.tree.Intact) :
    ((Step.state (refine.run s)).tree.Intact ∧
      s.tree.KeepsSpecial (Step.state (refine.run s)).tree) ↔ s.Spares := by
  by_cases hreports : s.progress.Reports
  · obtain ⟨below', hsweeps, htree⟩ := sweeps_refine h hreports
    rw [Tree.intact_and_keepsSpecial_iff h hsweeps htree hintact, Spares, imp_iff_right hreports]
  · rw [tree_refine_of_not h hreports]
    refine ⟨fun _ hreports' => absurd hreports' hreports, fun _ => ⟨hintact, ?_⟩⟩
    exact fun n node hnode t ht hspecial => ⟨node, hnode, t, ht, rfl, hspecial⟩

/-- As long as no placeholder is split, all tokens in the tree and all pending ones are intact. -/
theorem intact_after (h : s.tree.Comprises ends below) (hintact : s.tree.Intact)
    (hpending : s.pending.Intact) (calls : List Call)
    (hspares : ∀ done, done ++ [.refine] <+: calls → (s.after done).Spares) :
    (s.after calls).tree.Intact ∧ (s.after calls).pending.Intact := by
  induction calls using List.reverseRecOn with
  | nil => exact ⟨hintact, hpending⟩
  | append_singleton done call ih =>
      obtain ⟨hdone, hdone'⟩ := ih fun more hmore =>
        hspares more (hmore.trans (List.prefix_append done [call]))
      obtain ⟨ends', below', htree⟩ := after_comprises h done
      rw [after_append]
      cases call with
      | addLine line =>
          rw [after_addLine]
          exact intact_addLine htree hdone hdone' line
      | refine =>
          refine ⟨((intact_refine_iff htree hdone).mpr ?_).1, ?_⟩
          · exact hspares done (List.prefix_refl _)
          · rw [after, after, Call.step, pending_refine]
            exact hdone'

theorem keepsPlaceholders_iff_of_intact (h : s.tree.Comprises ends below) (hintact : s.tree.Intact)
    (hpending : s.pending.Intact) (calls : List Call) :
    s.KeepsPlaceholders calls ↔ ∀ done, done ++ [.refine] <+: calls → (s.after done).Spares := by
  constructor
  · intro hkeeps done hdone
    obtain ⟨ends', below', htree⟩ := after_comprises h done
    have hbefore := hkeeps.intact done ((List.prefix_append done _).trans hdone)
    have hafter := hkeeps.intact _ hdone
    have hkept := hkeeps.kept done hdone
    rw [after_append] at hafter hkept
    exact (intact_refine_iff htree hbefore).mp ⟨hafter, hkept⟩
  · intro hspares
    have hall : ∀ done, done <+: calls → (s.after done).tree.Intact := fun done hdone =>
      (intact_after h hintact hpending done fun more hmore => hspares more (hmore.trans hdone)).1
    refine ⟨hall, fun done hdone => ?_⟩
    obtain ⟨ends', below', htree⟩ := after_comprises h done
    have hbefore := hall done ((List.prefix_append done _).trans hdone)
    rw [after_append]
    exact ((intact_refine_iff htree hbefore).mpr (hspares done hdone)).2

/-- In a session that begins with the empty tree and without pending tokens, placeholders stay intact and
where they are if and only if no slot that has one is split. -/
theorem keepsPlaceholders_iff (s : Session) (calls : List Call) :
    KeepsPlaceholders { s with tree := .empty, pending := s.pending.clear } calls ↔
      ∀ done, done ++ [.refine] <+: calls →
        (after { s with tree := .empty, pending := s.pending.clear } done).Spares :=
  keepsPlaceholders_iff_of_intact (s := { s with tree := .empty, pending := s.pending.clear })
    Tree.comprises_empty Tree.intact_empty s.pending.intact_clear calls

/-- A number and an address come to share a slot. Refining it leaves their placeholders without the signs at
the ends. -/
theorem not_intact_of_two_lines :
    ¬(after {} [.addLine "5 x", .addLine "1.2.3.4 x", .refine]).tree.Intact := by
  have hnode : (after {} [.addLine "5 x", .addLine "1.2.3.4 x"]).tree.get? 1 = some
      { values := [{ word := "%posint%", special := true }, { word := "%ipv4%", special := true }]
        parent := some 0
        child := some 2 } := by
    decide +kernel
  obtain ⟨ends, below, htree⟩ :=
    after_comprises (s := {}) Tree.comprises_empty [.addLine "5 x", .addLine "1.2.3.4 x"]
  have hreports : (after {} [.addLine "5 x", .addLine "1.2.3.4 x"]).progress.Reports := by
    rw [Progress.Reports]
    decide +kernel
  obtain ⟨below', hsweeps, htree'⟩ := sweeps_refine htree hreports
  refine Tree.not_intact_of_middle htree hsweeps htree' hnode
    (a := { front := 1, back := 1 }) rfl List.mem_cons_self rfl ?_ ?_
  · decide +kernel
  · intro hplace
    obtain ⟨shape, hshape⟩ := Shape.mem_placeholders_iff.mp hplace
    revert hshape
    cases shape <;> decide +kernel

end LogMining.Session
