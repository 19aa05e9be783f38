import LogMining.Proofs.Refine.Remainder
import LogMining.Proofs.Session.Alone

/-!
# Parts of words in a session

A value that is a part of a word is not split again, as long as it stands first among the values of its slot.
But the parts of a masked address are put into slots like any other words, and may come after a word there.
Refining splits such a slot, and the parts in it with the words.
-/

namespace LogMining

/-- No node that is to be split has a part of a word among its values. -/
def Tree.SparesParts (tree : Tree) : Prop := ∀ n node a, tree.get? n = some node →
  node.affixes? = .ok (some a) → ∀ t ∈ node.values, t.subword = false

namespace Session

/-- Wherever values are split in refining, those that are parts of words already keep their words. -/
def KeepsParts (s : Session) (calls : List Call) : Prop :=
  ∀ done, done ++ [.refine] <+: calls → ∀ id met node a, (s.after done).pass.Factors id met →
    met.tree.node id = .ok node → node.affixes? = .ok (some a) →
      ∀ t ∈ node.values, t.subword = true → (Token.remainder a t).word = t.word

variable {s : Session} {ends : Int} {below : Slots}

theorem run_disjoin_of_factors (h : s.tree.Comprises ends below) {id : NodeId} {met : Pass} {node : Node}
    {a : Affixes} (hfactors : s.pass.Factors id met) (hnode : met.tree.node id = .ok node)
    (ha : node.affixes? = .ok (some a)) :
    ∃ rest pass' node', (Pass.disjoin id a.front a.back).run met = .ok rest pass' ∧
      pass'.tree.node rest = .ok node' ∧
      node'.values = Token.mergeDuplicates (node.values.map (Token.remainder a)) := by
  have hpass : s.pass.tree.Comprises ends below := h
  have hmeets := hfactors.meets hpass
  obtain ⟨m, parent, values, ends', below', beside, rfl, hholds⟩ :=
    hmeets.exists_holds (Pass.weight_le_sweepLimit hpass) hpass.holds.below hmeets.reports
  rw [Tree.node_of_get? hholds.spells.1] at hnode
  cases hnode
  rw [Pass.affixes?_eq] at ha
  exact Pass.run_disjoin_of_affixes? hholds (Except.ok.inj ha)

/-- Refining keeps the words of all parts of words if and only if no slot that is to be split has one. -/
theorem keeps_iff_sparesParts (h : s.tree.Comprises ends below) :
    (∀ id met node a, s.pass.Factors id met → met.tree.node id = .ok node →
      node.affixes? = .ok (some a) → ∀ t ∈ node.values, t.subword = true →
        (Token.remainder a t).word = t.word) ↔ (s.progress.Reports → s.tree.SparesParts) := by
  have hpass : s.pass.tree.Comprises ends below := h
  constructor
  · intro hkeeps hreports n node a hnode ha t ht
    have haffixes := Except.ok.inj ((Pass.affixes?_eq node).symm.trans ha)
    obtain ⟨met, node', hfactors, hnode', hvalues⟩ :=
      (Pass.factors_iff n hpass hreports haffixes).mpr ⟨n, node, rfl, hnode, rfl⟩
    by_contra hsub
    rw [← hvalues] at ht haffixes
    refine Token.remainder_word_ne haffixes ht (hkeeps n met node' a hfactors hnode' ?_ t ht ?_)
    · rw [Pass.affixes?_eq, haffixes]
    · exact Bool.eq_true_of_not_eq_false hsub
  · intro hspares id met node a hfactors hnode ha t ht hsub
    have hreports := (hfactors.meets hpass).reports
    have haffixes := Except.ok.inj ((Pass.affixes?_eq node).symm.trans ha)
    obtain ⟨m, node', -, hnode', hvalues⟩ :=
      (Pass.factors_iff id hpass hreports haffixes).mp ⟨met, node, hfactors, hnode, rfl⟩
    rw [← hvalues] at ht
    have hnot := hspares hreports m node' a hnode' (by rw [Pass.affixes?_eq, hvalues, haffixes]) t ht
    rw [hsub] at hnot
    cases hnot

theorem keepsParts_iff_of_comprises (h : s.tree.Comprises ends below) (calls : List Call) :
    s.KeepsParts calls ↔ ∀ done, done ++ [.refine] <+: calls →
      (s.after done).progress.Reports → (s.after done).tree.SparesParts := by
  refine forall_congr' fun done => imp_congr_right fun _ => ?_
  obtain ⟨ends', below', htree⟩ := after_comprises h done
  exact keeps_iff_sparesParts htree

/-- In a session that begins with the empty tree, what remains of values that are split in refining is known,
and parts of words keep their words if and only if no slot that has one is split. -/
theorem keepsParts_iff (s : Session) (calls : List Call) :
    (∀ id met node a, (s.cleared.after calls).pass.Factors id met → met.tree.node id = .ok node →
      node.affixes? = .ok (some a) → ∃ rest pass' node',
        (Pass.disjoin id a.front a.back).run met = .ok rest pass' ∧
        pass'.tree.node rest = .ok node' ∧
        node'.values = Token.mergeDuplicates (node.values.map (Token.remainder a))) ∧
    (s.cleared.KeepsParts calls ↔ ∀ done, done ++ [.refine] <+: calls →
      (s.cleared.after done).progress.Reports → (s.cleared.after done).tree.SparesParts) := by
  have hempty : s.cleared.tree.Comprises 0 .nil := Tree.comprises_empty
  obtain ⟨ends, below, htree⟩ := after_comprises hempty calls
  exact ⟨fun id met node a hfactors hnode ha => run_disjoin_of_factors htree hfactors hnode ha,
    keepsParts_iff_of_comprises hempty calls⟩

/-- A number and the address of a masked address come to share a slot. Refining it cuts off the signs at the
ends of both placeholders. -/
theorem not_keepsParts_of_two_lines :
    ¬KeepsParts {} [.addLine "5 / x", .addLine "10.0.0.1/24 x", .refine] := by
  have hnode : (after {} [.addLine "5 / x", .addLine "10.0.0.1/24 x"]).tree.get? 1 = some
      { values := [{ word := "%posint%", special := true },
          { word := "%ipv4%", subword := true, special := true }]
        parent := some 0
        child := some 2 } := by
    decide +kernel
  have hreports : (after {} [.addLine "5 / x", .addLine "10.0.0.1/24 x"]).progress.Reports := by
    rw [Progress.Reports]
    decide +kernel
  rw [keepsParts_iff_of_comprises Tree.comprises_empty]
  intro hspares
  have hsub := hspares [.addLine "5 / x", .addLine "10.0.0.1/24 x"] (List.prefix_refl _) hreports 1 _
    { front := 1, back := 1 } hnode rfl { word := "%ipv4%", subword := true, special := true }
    (List.mem_cons_of_mem _ List.mem_cons_self)
  cases hsub

end Session

end LogMining
