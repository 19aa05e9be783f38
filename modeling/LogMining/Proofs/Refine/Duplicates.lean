import LogMining.Proofs.Refine.Merge
import LogMining.Proofs.Slots.Held
import LogMining.Refine.Factor
import Mathlib.Data.List.Sort

/-!
# What merging leaves

Merging loses nothing. Sorting leaves the tokens of one word in their order, so of every word the token that came
first stays, and counts for all of them. The words that are left are in strict order, and merging them again
changes nothing.
-/

namespace LogMining

namespace Token

variable {tokens : List Token} {t : Token}

theorem filter_mergeSort (word : String) (tokens : List Token) :
    (tokens.mergeSort fun t u => decide (t.word ≤ u.word)).filter (·.word == word) =
      tokens.filter (·.word == word) := by
  have hsorted : (tokens.filter (·.word == word)).Pairwise fun t u => decide (t.word ≤ u.word) = true := by
    refine List.pairwise_of_forall_mem_list fun t ht u hu => ?_
    rw [List.mem_filter, beq_iff_eq] at ht hu
    rw [ht.2, hu.2]
    exact decide_eq_true le_rfl
  have hsub := (List.sublist_mergeSort word_le_trans word_le_total hsorted List.filter_sublist).filter
    (·.word == word)
  simp only [List.filter_filter, Bool.and_self] at hsub
  exact (hsub.eq_of_length ((List.mergeSort_perm ..).filter _).length_eq.symm).symm

theorem find?_mergeSort (word : String) (tokens : List Token) :
    (tokens.mergeSort fun t u => decide (t.word ≤ u.word)).find? (·.word == word) =
      tokens.find? (·.word == word) := by
  rw [← List.head?_filter, filter_mergeSort, List.head?_filter]

/-- A token that is put before others stays in front of them, up to its count. -/
theorem exists_consMerging_eq (t : Token) (tokens : List Token) :
    ∃ n rest, consMerging t tokens = { t with occurs := n } :: rest ∧ rest <:+ tokens := by
  cases tokens with
  | nil => exact ⟨t.occurs, [], rfl, List.suffix_refl []⟩
  | cons u tokens =>
      rw [consMerging]
      split
      · exact ⟨t.occurs + u.occurs, tokens, rfl, List.suffix_cons u tokens⟩
      · exact ⟨t.occurs, u :: tokens, rfl, List.suffix_refl _⟩

theorem exists_find?_of_mem_mergeRuns (h : (tokens.map Token.word).Pairwise (· ≤ ·))
    (ht : t ∈ mergeRuns tokens) :
    ∃ first n, tokens.find? (·.word == t.word) = some first ∧ t = { first with occurs := n } := by
  induction tokens with
  | nil => cases ht
  | cons u tokens ih =>
      have hstrict := pairwise_lt_mergeRuns h
      rw [List.map_cons, List.pairwise_cons] at h
      obtain ⟨n, rest, hmerged, hrest⟩ := exists_consMerging_eq u (mergeRuns tokens)
      rw [mergeRuns_cons, hmerged] at hstrict ht
      rcases List.mem_cons.mp ht with rfl | ht
      · exact ⟨u, n, List.find?_cons_of_pos (beq_self_eq_true u.word), rfl⟩
      · have hlt : u.word < t.word := (List.pairwise_cons.mp hstrict).1 _ (List.mem_map_of_mem ht)
        obtain ⟨first, m, hfirst, rfl⟩ := ih h.2 (hrest.mem ht)
        refine ⟨first, m, ?_, rfl⟩
        rw [List.find?_cons_of_neg, hfirst]
        simpa using hlt.ne

/-- The token that is left of a word is the first one of it, and counts for all of them. -/
theorem exists_find?_of_mem_mergeDuplicates (ht : t ∈ mergeDuplicates tokens) :
    ∃ first, tokens.find? (·.word == t.word) = some first ∧
      t = { first with occurs := occursOf t.word tokens } := by
  obtain ⟨first, n, hfirst, hmerged⟩ := exists_find?_of_mem_mergeRuns (pairwise_le_mergeSort tokens) ht
  rw [find?_mergeSort] at hfirst
  refine ⟨first, hfirst, ?_⟩
  rw [← occurs_of_mem_mergeDuplicates ht, hmerged]

theorem length_mergeRuns_le (tokens : List Token) : (mergeRuns tokens).length ≤ tokens.length := by
  induction tokens with
  | nil => exact Nat.le_refl 0
  | cons t tokens ih =>
      obtain ⟨n, rest, hmerged, hrest⟩ := exists_consMerging_eq t (mergeRuns tokens)
      rw [mergeRuns_cons, hmerged, List.length_cons, List.length_cons]
      exact Nat.succ_le_succ (hrest.length_le.trans ih)

theorem length_mergeDuplicates_le (tokens : List Token) : (mergeDuplicates tokens).length ≤ tokens.length :=
  (length_mergeRuns_le _).trans_eq (List.length_mergeSort tokens)

theorem mergeRuns_of_pairwise_lt (h : (tokens.map Token.word).Pairwise (· < ·)) : mergeRuns tokens = tokens := by
  induction tokens with
  | nil => rfl
  | cons t tokens ih =>
      rw [List.map_cons, List.pairwise_cons] at h
      rw [mergeRuns_cons, ih h.2]
      cases tokens with
      | nil => rfl
      | cons u tokens =>
          rw [consMerging, if_neg (h.1 u.word List.mem_cons_self).ne]

theorem mergeDuplicates_of_pairwise_lt (h : (tokens.map Token.word).Pairwise (· < ·)) :
    mergeDuplicates tokens = tokens := by
  rw [mergeDuplicates, List.mergeSort_of_pairwise, mergeRuns_of_pairwise_lt h]
  rw [List.pairwise_map] at h
  exact h.imp fun hlt => decide_eq_true hlt.le

theorem mergeDuplicates_idem (tokens : List Token) :
    mergeDuplicates (mergeDuplicates tokens) = mergeDuplicates tokens :=
  mergeDuplicates_of_pairwise_lt (pairwise_lt_mergeDuplicates tokens)

end Token

namespace Tree

variable {tree : Tree} {id : NodeId} {n : Nat} {node : Node}

theorem locate_eq_ok_iff :
    tree.locate id = .ok (n, node) ↔ tree.place? id = some n ∧ tree.get? n = some node := by
  rw [get?_eq_some_iff, locate]
  constructor
  · intro h
    split at h
    · next hlocated =>
      cases h
      obtain ⟨m, hplace, hnode⟩ := Option.bind_eq_some_iff.mp hlocated
      obtain ⟨o, hnode, hpair⟩ := Option.map_eq_some_iff.mp hnode
      cases hpair
      exact ⟨hplace, hnode⟩
    · cases h
    · cases h
  · rintro ⟨hplace, hnode⟩
    simp [hplace, hnode]

theorem locate_setAt (h : tree.locate id = .ok (n, node)) (change : Node → Node) :
    (setAt n change tree).locate id = .ok (n, change node) := by
  rw [locate_eq_ok_iff] at h ⊢
  refine ⟨?_, ?_⟩
  · rw [← h.1]
    simp only [place?, size_setAt]
  · rw [get?_setAt, if_pos rfl, h.2, Option.map_some]

theorem setAt_of_get? (h : tree.get? n = some node) {change : Node → Node} (hchange : change node = node) :
    setAt n change tree = tree := by
  have hnodes : (setAt n change tree).nodes = tree.nodes := by
    refine Array.ext_getElem? fun m => ?_
    rw [getElem?_setAt]
    split
    · next heq => simp only [← heq, get?_eq_some_iff.mp h, Option.map_some, hchange]
    · rfl
  exact congrArg Tree.mk hnodes

theorem run_mergeValues (h : tree.locate id = .ok (n, node)) :
    (mergeValues id).run tree =
      .ok (node.values.length - node.merged.values.length) (setAt n Node.merged tree) := by
  rw [mergeValues, EStateM.run_bind, Step.run_query, h]
  rfl

theorem merged_merged (node : Node) : node.merged.merged = node.merged := by
  rw [Node.merged, Node.merged, Token.mergeDuplicates_idem]

/-- Merging the values of a node loses nothing. The words that are left are those that were there, in strict order,
and what is left of a word is its first value, counted as often as all its values together. The answer is how many
values are gone. A second time none are, and the tree stays as it is. -/
theorem mergeValues_loses_nothing (h : tree.locate id = .ok (n, node)) :
    ∃ removed merged tree',
      (mergeValues id).run tree = .ok removed tree' ∧
      tree'.locate id = .ok (n, { node with values := merged }) ∧
      (∀ m, m ≠ n → tree'.get? m = tree.get? m) ∧
      (merged.map Token.word).Pairwise (· < ·) ∧
      (∀ word, word ∈ merged.map Token.word ↔ word ∈ node.values.map Token.word) ∧
      (∀ t ∈ merged, ∃ first, node.values.find? (·.word == t.word) = some first ∧
        t = { first with occurs := Token.occursOf t.word node.values }) ∧
      removed + merged.length = node.values.length ∧
      (mergeValues id).run tree' = .ok 0 tree' := by
  have hmerged := locate_setAt h Node.merged
  have hagain := run_mergeValues hmerged
  rw [merged_merged, Nat.sub_self, setAt_of_get? (locate_eq_ok_iff.mp hmerged).2 (merged_merged node)] at hagain
  refine ⟨_, Token.mergeDuplicates node.values, _, run_mergeValues h, hmerged, fun m hm => ?_,
    Token.pairwise_lt_mergeDuplicates node.values, Token.mem_map_word_mergeDuplicates,
    fun t => Token.exists_find?_of_mem_mergeDuplicates,
    Nat.sub_add_cancel (Token.length_mergeDuplicates_le node.values), hagain⟩
  rw [get?_setAt, if_neg hm.symm]

/-- Five values with three words, in a node that is named from the end. -/
theorem mergeValues_loses_nothing_of_five_values :
    let values : List Token :=
      [{ word := "b", occurs := 2, special := true }, { word := "a", subword := true }, { word := "c" },
        { word := "b", occurs := -5, subword := true }, { word := "a", occurs := 3, special := true }]
    let tree : Tree := ⟨#[none, some { values, lineEnds := 1 }]⟩
    tree.locate (-1) = .ok (1, { values, lineEnds := 1 }) ∧
      ∃ merged tree',
        (mergeValues (-1)).run tree = .ok 2 tree' ∧
        tree'.locate (-1) = .ok (1, { values := merged, lineEnds := 1 }) ∧
        merged.map Token.word = ["a", "b", "c"] ∧
        (∀ t ∈ merged, t.word = "a" → t = { word := "a", occurs := 4, subword := true }) ∧
        (mergeValues (-1)).run tree' = .ok 0 tree' := by
  intro values tree
  have hlocate : tree.locate (-1) = .ok (1, { values, lineEnds := 1 }) := rfl
  obtain ⟨removed, merged, tree', hrun, hnode, -, hsorted, hwords, hfirst, hremoved, hagain⟩ :=
    mergeValues_loses_nothing hlocate
  have hmerged : merged.map Token.word = ["a", "b", "c"] := by
    refine hsorted.eq_of_mem_iff (by decide) fun word => (hwords word).trans ?_
    simp only [values, List.map_cons, List.map_nil, List.mem_cons]
    tauto
  have hlength : merged.length = 3 := by rw [← List.length_map Token.word, hmerged]; rfl
  obtain rfl : removed = 2 := Nat.add_right_cancel (hremoved.trans (congrArg (2 + ·) hlength).symm)
  refine ⟨hlocate, merged, tree', hrun, hnode, hmerged, fun t ht hword => ?_, hagain⟩
  obtain ⟨first, hfind, htoken⟩ := hfirst t ht
  rw [hword] at hfind htoken
  cases hfind
  exact htoken

end Tree

end LogMining
