import LogMining.Proofs.Order.Alike
import LogMining.Proofs.Refine.Divide
import LogMining.Proofs.Refine.Longest
import Mathlib.Data.List.Sort

/-!
# The order of the values does not matter

Words are measured against the first of them, and the front and the back are taken from that one. Still their
affixes depend on the set of the words only, and two nodes with the same values in different orders are split
into the same parts: what is taken from the first word is the same for all of them, and what remains is sorted.
-/

namespace LogMining

section Shared

variable {base base' : List Char} {others others' : List (List Char)}

/-- How far words begin alike does not depend on the one they are compared with. -/
theorem commonLength_eq_of_mem_iff (h : ∀ word, word ∈ base :: others ↔ word ∈ base' :: others') :
    commonLength base others = commonLength base' others' := by
  have hgreatest := isGreatest_commonLength base' others'
  simp only [← h] at hgreatest
  exact (isGreatest_commonLength base others).unique hgreatest

theorem take_commonLength_eq_of_mem_iff (h : ∀ word, word ∈ base :: others ↔ word ∈ base' :: others') :
    base.take (commonLength base others) = base'.take (commonLength base' others') := by
  rw [← commonLength_eq_of_mem_iff h]
  exact (take_of_le_commonLength le_rfl ((h base').mpr List.mem_cons_self)).1.symm

end Shared

namespace Affixes

theorem ofChars_eq_of_mem_iff {base base' : List Char} {others others' : List (List Char)}
    (h : ∀ word, word ∈ base :: others ↔ word ∈ base' :: others') :
    ofChars base others = ofChars base' others' := by
  have hreverse : ∀ word, word ∈ base.reverse :: others.map List.reverse ↔
      word ∈ base'.reverse :: others'.map List.reverse := by
    intro word
    rw [← List.map_cons, ← List.map_cons, List.mem_map, List.mem_map]
    simp only [h]
  have hshortest : others.foldl (fun n word => min n word.length) base.length =
      others'.foldl (fun n word => min n word.length) base'.length := by
    have hleast := isLeast_foldl_min List.length base' others'
    simp only [← h] at hleast
    exact (isLeast_foldl_min List.length base others).unique hleast
  simp only [ofChars]
  rw [take_commonLength_eq_of_mem_iff h, take_commonLength_eq_of_mem_iff hreverse,
    commonLength_eq_of_mem_iff h, commonLength_eq_of_mem_iff hreverse, hshortest]

theorem ofWords_eq_of_mem_iff {words words' : List String} (h : ∀ word, word ∈ words ↔ word ∈ words') :
    ofWords words = ofWords words' := by
  rcases words with _ | ⟨base, others⟩
  · rw [List.eq_nil_iff_forall_not_mem.mpr fun word hword => List.not_mem_nil ((h word).mpr hword)]
  rcases words' with _ | ⟨base', others'⟩
  · exact absurd ((h base).mp List.mem_cons_self) List.not_mem_nil
  · rw [ofWords, ofWords, ofChars_eq_of_mem_iff]
    intro word
    rw [← List.map_cons, ← List.map_cons, List.mem_map, List.mem_map]
    simp only [h]

end Affixes

namespace Token

variable {values values' : List Token} {a : Affixes} {first t : Token} {more : List Token}

theorem frontOf_eq (ha : affixes? (first :: more) = some a) (ht : t ∈ first :: more) :
    frontOf a t.word = frontOf a first.word := by
  obtain ⟨others, rfl, hmem⟩ := mem_toList_of_affixes? ha ht
  rw [frontOf, frontOf, Affixes.take_front_ofChars hmem]

theorem backOf_eq (ha : affixes? (first :: more) = some a) (ht : t ∈ first :: more) :
    backOf a t.word = backOf a first.word := by
  obtain ⟨others, rfl, hmem⟩ := mem_toList_of_affixes? ha ht
  rw [backOf, backOf, Affixes.drop_back_ofChars hmem]

/-- Whether whole words are split, and where, does not depend on their order. -/
theorem affixes?_eq_of_perm (h : values.Perm values') (hwhole : ∀ t ∈ values, t.subword = false) :
    affixes? values = affixes? values' := by
  by_cases hlength : 2 ≤ values.length
  · have hwords : Affixes.ofWords (values.map word) = Affixes.ofWords (values'.map word) :=
      Affixes.ofWords_eq_of_mem_iff fun w => (h.map word).mem_iff
    obtain ⟨a, ha⟩ := exists_ofWords_map hlength
    rw [affixes?_eq_ite hlength (fun t ht => hwhole t (List.mem_of_mem_head? ht)) ha,
      affixes?_eq_ite (h.length_eq ▸ hlength)
        (fun t ht => hwhole t (h.mem_iff.mpr (List.mem_of_mem_head? ht))) (hwords ▸ ha)]
  · have hnone : ∀ values : List Token, ¬2 ≤ values.length → affixes? values = none := by
      intro values hlength
      cases hsome : affixes? values with
      | none => rfl
      | some a =>
          obtain ⟨t, u, more, rfl, -⟩ := eq_of_affixes? hsome
          simp at hlength
    rw [hnone values hlength, hnone values' (h.length_eq ▸ hlength)]

theorem occursOf_eq_of_perm (h : values.Perm values') (word : String) :
    occursOf word values = occursOf word values' := (h.map _).sum_eq

theorem map_counted_mergeDuplicates (values : List Token) :
    (mergeDuplicates values).map counted =
      ((mergeDuplicates values).map word).map fun word => (word, occursOf word values) := by
  rw [List.map_map]
  exact List.map_congr_left fun t ht => congrArg (Prod.mk t.word) (occurs_of_mem_mergeDuplicates ht)

theorem map_counted_mergeDuplicates_eq_of_perm (h : values.Perm values') :
    (mergeDuplicates values).map counted = (mergeDuplicates values').map counted := by
  have hwords : (mergeDuplicates values).map word = (mergeDuplicates values').map word := by
    refine (pairwise_lt_mergeDuplicates values).eq_of_mem_iff (pairwise_lt_mergeDuplicates values') ?_
    intro w
    rw [mem_map_word_mergeDuplicates, mem_map_word_mergeDuplicates]
    exact (h.map word).mem_iff
  rw [map_counted_mergeDuplicates, map_counted_mergeDuplicates, hwords]
  simp only [occursOf_eq_of_perm h]

end Token

namespace Pass

variable {pass pass' : Pass} {n n' : Nat} {node node' : Node} {a : Affixes}

/-- A node is split. It gives way to a chain of the front, of what remains of its values, which are given with
their counts, and of the back. Where nothing is split off in front or behind, there is no such part. -/
def SplitsInto (pass : Pass) (n : Nat) (front : Option String) (rest : List (String × Int))
    (back : Option String) : Prop :=
  ∃ node children values pass', pass.tree.get? n = some node ∧ (factor n).run pass = .ok true pass' ∧
    values.map Token.counted = rest ∧
    pass.tree.GivesWay pass'.tree n node children
      (front.toList.map (fun word => [{ word, subword := true }]) ++ [values] ++
        back.toList.map fun word => [{ word, subword := true }])

theorem run_factor_of_none (hnode : pass.tree.get? n = some node) (h : Token.affixes? node.values = none) :
    (factor n).run pass = .ok false pass := by
  simp only [factor, EStateM.run_bind, run_ask, Tree.node_of_get? hnode, affixes?_eq, h]
  rfl

theorem splitsInto_of_affixes? (htree : pass.tree.WellLinked) (hnode : pass.tree.get? n = some node)
    (ha : Token.affixes? node.values = some a) {t : Token} (ht : t ∈ node.values) :
    pass.SplitsInto n (if 0 < a.front then some (Token.frontOf a t.word) else none)
      ((Token.mergeDuplicates (node.values.map (Token.remainder a))).map Token.counted)
      (if 0 < a.back then some (Token.backOf a t.word) else none) := by
  obtain ⟨pass', children, hrun, hgives⟩ := exists_givesWay_of_affixes? htree hnode ha
  refine ⟨node, children, _, pass', hnode, hrun, rfl, ?_⟩
  obtain ⟨first, u, more, hvalues, -⟩ := Token.eq_of_affixes? ha
  rw [hvalues] at ha ht hgives ⊢
  rw [Affixes.pieces, Token.settled_map_middle] at hgives
  rw [Token.frontOf_eq ha ht, Token.backOf_eq ha ht]
  convert hgives using 2
  · congr 1
    split <;> rfl
  · split <;> rfl

/-- Affixes are those of the set of the words. Two nodes with the same values in different orders, all of them
whole words, are both left as they are, or both are split into the same parts. -/
theorem factor_in_any_order :
    (∀ words words' : List String, (∀ word, word ∈ words ↔ word ∈ words') →
      Affixes.ofWords words = Affixes.ofWords words') ∧
    ∀ (pass pass' : Pass) (n n' : Nat) (node node' : Node), pass.tree.WellLinked →
      pass'.tree.WellLinked → pass.tree.get? n = some node → pass'.tree.get? n' = some node' →
      node.values.Perm node'.values → (∀ t ∈ node.values, t.subword = false) →
      ((factor n).run pass = .ok false pass ∧ (factor n').run pass' = .ok false pass') ∨
        ∃ front rest back, pass.SplitsInto n front rest back ∧ pass'.SplitsInto n' front rest back := by
  refine ⟨fun words words' => Affixes.ofWords_eq_of_mem_iff, ?_⟩
  intro pass pass' n n' node node' htree htree' hnode hnode' hperm hwhole
  have hsame := Token.affixes?_eq_of_perm hperm hwhole
  cases ha : Token.affixes? node.values with
  | none => exact .inl ⟨run_factor_of_none hnode ha, run_factor_of_none hnode' (hsame ▸ ha)⟩
  | some a =>
      obtain ⟨first, u, more, hvalues, -⟩ := Token.eq_of_affixes? ha
      have hfirst : first ∈ node.values := hvalues ▸ List.mem_cons_self
      have hsplits := splitsInto_of_affixes? htree' hnode' (hsame ▸ ha) (hperm.mem_iff.mp hfirst)
      rw [← Token.map_counted_mergeDuplicates_eq_of_perm (hperm.map (Token.remainder a))] at hsplits
      exact .inr ⟨_, _, _, splitsInto_of_affixes? htree hnode ha hfirst, hsplits⟩

/-- Three values in the two orders in which they are read. -/
theorem factor_of_three_lines_in_two_orders :
    (∀ word, word ∈ ["a=1", "a=2"] ↔ word ∈ ["a=2", "a=1", "a=2"]) ∧
    Affixes.ofWords ["a=1", "a=2"] = Affixes.ofWords ["a=2", "a=1", "a=2"] ∧
    ∃ tree tree' node node',
      (Tree.insertLines [[{ word := "a=1;" }, { word := "x" }], [{ word := "a=22;" }, { word := "x" }],
        [{ word := "a=b;" }, { word := "x" }]]).run Tree.empty = .ok () tree ∧
      (Tree.insertLines [[{ word := "a=b;" }, { word := "x" }], [{ word := "a=1;" }, { word := "x" }],
        [{ word := "a=22;" }, { word := "x" }]]).run Tree.empty = .ok () tree' ∧
      tree.WellLinked ∧ tree'.WellLinked ∧ tree.get? 1 = some node ∧ tree'.get? 1 = some node' ∧
      node.values.Perm node'.values ∧ (∀ t ∈ node.values, t.subword = false) ∧
      ((factor (1 : Nat)).run { tree } = .ok false { tree } ∧
          (factor (1 : Nat)).run { tree := tree' } = .ok false { tree := tree' } ∨
        ∃ front rest back, SplitsInto { tree } 1 front rest back ∧
          SplitsInto { tree := tree' } 1 front rest back) := by
  have hwords : ∀ word, word ∈ ["a=1", "a=2"] ↔ word ∈ ["a=2", "a=1", "a=2"] := by
    intro word
    simp only [List.mem_cons]
    tauto
  obtain ⟨tree, ends, below, hrun, htree, -⟩ := Tree.run_insertLines_empty
    [[{ word := "a=1;" }, { word := "x" }], [{ word := "a=22;" }, { word := "x" }],
      [{ word := "a=b;" }, { word := "x" }]]
  obtain ⟨tree', ends', below', hrun', htree', -⟩ := Tree.run_insertLines_empty
    [[{ word := "a=b;" }, { word := "x" }], [{ word := "a=1;" }, { word := "x" }],
      [{ word := "a=22;" }, { word := "x" }]]
  obtain ⟨node, hnode, hvalues⟩ : ∃ node, tree.get? 1 = some node ∧
      node.values = [{ word := "a=1;" }, { word := "a=22;" }, { word := "a=b;" }] := by
    cases hrun
    exact ⟨_, rfl, by decide⟩
  obtain ⟨node', hnode', hvalues'⟩ : ∃ node, tree'.get? 1 = some node ∧
      node.values = [{ word := "a=b;" }, { word := "a=1;" }, { word := "a=22;" }] := by
    cases hrun'
    exact ⟨_, rfl, by decide⟩
  have hperm : node.values.Perm node'.values := by
    rw [hvalues, hvalues']
    decide
  have hwhole : ∀ t ∈ node.values, t.subword = false := by
    rw [hvalues]
    decide
  have hlinked : ({ tree } : Pass).tree.WellLinked := htree.wellFormed.wellLinked
  have hlinked' : ({ tree := tree' } : Pass).tree.WellLinked := htree'.wellFormed.wellLinked
  exact ⟨hwords, factor_in_any_order.1 _ _ hwords, tree, tree', node, node', hrun, hrun', hlinked, hlinked',
    hnode, hnode', hperm, hwhole,
    factor_in_any_order.2 _ _ _ _ _ _ hlinked hlinked' hnode hnode' hperm hwhole⟩

end Pass

end LogMining
