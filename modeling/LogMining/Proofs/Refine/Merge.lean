import LogMining.Token.Merge
import Mathlib.Algebra.BigOperators.Group.List.Basic
import Mathlib.Algebra.Ring.Int.Defs
import Mathlib.Data.String.Basic

/-!
# Merged values

Merging leaves one token for every word. `Token.mergeDuplicates` therefore keeps the set of words,
orders it strictly, and takes every token that remains from one that was there, up to its count, which is
the sum of the counts of its word.
-/

namespace LogMining.Token

theorem exists_of_mem_mergeRuns {tokens : List Token} {t : Token} (h : t ∈ mergeRuns tokens) :
    ∃ u ∈ tokens, ∃ n, t = { u with occurs := n } := by
  induction tokens generalizing t with
  | nil => simp at h
  | cons u tokens ih =>
      rw [mergeRuns_cons] at h
      have hself : ∃ v ∈ u :: tokens, ∃ n, u = { v with occurs := n } :=
        ⟨u, List.mem_cons_self, u.occurs, rfl⟩
      have hrest : t ∈ mergeRuns tokens → ∃ v ∈ u :: tokens, ∃ n, t = { v with occurs := n } := by
        intro ht
        obtain ⟨v, hv, hvt⟩ := ih ht
        exact ⟨v, List.mem_cons_of_mem u hv, hvt⟩
      cases hruns : mergeRuns tokens with
      | nil =>
          rw [hruns, consMerging, List.mem_singleton] at h
          exact h ▸ hself
      | cons v rest =>
          rw [hruns] at h hrest
          rw [consMerging] at h
          split at h
          · rcases List.mem_cons.mp h with rfl | ht
            · exact ⟨u, List.mem_cons_self, _, rfl⟩
            · exact hrest (List.mem_cons_of_mem v ht)
          · rcases List.mem_cons.mp h with rfl | ht
            · exact hself
            · exact hrest ht

theorem mem_map_word_mergeRuns {tokens : List Token} (word : String) :
    word ∈ (mergeRuns tokens).map Token.word ↔ word ∈ tokens.map Token.word := by
  induction tokens with
  | nil => rfl
  | cons u tokens ih =>
      rw [mergeRuns_cons, List.map_cons, List.mem_cons, ← ih]
      cases mergeRuns tokens with
      | nil => simp [consMerging]
      | cons v rest =>
          rw [consMerging]
          split
          · next heq => simp [heq]
          · simp

/-- If tokens are in the order of their words, no word is left twice. -/
theorem pairwise_lt_mergeRuns {tokens : List Token}
    (h : (tokens.map Token.word).Pairwise (· ≤ ·)) :
    ((mergeRuns tokens).map Token.word).Pairwise (· < ·) := by
  induction tokens with
  | nil => simp
  | cons u tokens ih =>
      rw [List.map_cons, List.pairwise_cons] at h
      have hrest := ih h.2
      have hle : ∀ word ∈ (mergeRuns tokens).map Token.word, u.word ≤ word := by
        intro word hword
        exact h.1 word ((mem_map_word_mergeRuns word).mp hword)
      rw [mergeRuns_cons]
      cases hruns : mergeRuns tokens with
      | nil => simp [consMerging]
      | cons v rest =>
          rw [hruns, List.map_cons] at hrest hle
          rw [consMerging]
          split
          · next heq =>
            rw [List.map_cons, heq]
            exact hrest
          · next hne =>
            have hlt : u.word < v.word := lt_of_le_of_ne (hle _ List.mem_cons_self) hne
            rw [List.map_cons, List.pairwise_cons]
            refine ⟨?_, hrest⟩
            intro word hword
            rcases List.mem_cons.mp hword with rfl | hword
            · exact hlt
            · exact hlt.trans ((List.pairwise_cons.mp hrest).1 word hword)

theorem exists_of_mem_mergeDuplicates {tokens : List Token} {t : Token}
    (h : t ∈ mergeDuplicates tokens) : ∃ u ∈ tokens, ∃ n, t = { u with occurs := n } := by
  obtain ⟨u, hu, hut⟩ := exists_of_mem_mergeRuns h
  exact ⟨u, List.mem_mergeSort.mp hu, hut⟩

theorem mem_map_word_mergeDuplicates {tokens : List Token} (word : String) :
    word ∈ (mergeDuplicates tokens).map Token.word ↔ word ∈ tokens.map Token.word := by
  rw [mergeDuplicates, mem_map_word_mergeRuns]
  exact ((List.mergeSort_perm ..).map Token.word).mem_iff

theorem word_le_trans (t u v : Token) (htu : decide (t.word ≤ u.word) = true)
    (huv : decide (u.word ≤ v.word) = true) : decide (t.word ≤ v.word) = true := by
  rw [decide_eq_true_eq] at htu huv ⊢
  exact htu.trans huv

theorem word_le_total (t u : Token) : (decide (t.word ≤ u.word) || decide (u.word ≤ t.word)) = true := by
  simpa using le_total t.word u.word

theorem pairwise_le_mergeSort (tokens : List Token) :
    ((tokens.mergeSort fun t u => decide (t.word ≤ u.word)).map Token.word).Pairwise (· ≤ ·) := by
  rw [List.pairwise_map]
  exact (List.pairwise_mergeSort word_le_trans word_le_total tokens).imp of_decide_eq_true

theorem pairwise_lt_mergeDuplicates (tokens : List Token) :
    ((mergeDuplicates tokens).map Token.word).Pairwise (· < ·) :=
  pairwise_lt_mergeRuns (pairwise_le_mergeSort tokens)

theorem nodup_mergeDuplicates (tokens : List Token) :
    ((mergeDuplicates tokens).map Token.word).Nodup :=
  (pairwise_lt_mergeDuplicates tokens).imp fun h => h.ne

theorem mergeDuplicates_ne_nil {tokens : List Token} (h : tokens ≠ []) :
    mergeDuplicates tokens ≠ [] := by
  obtain ⟨t, more, rfl⟩ := List.exists_cons_of_ne_nil h
  intro hnil
  have hmem : t.word ∈ (mergeDuplicates (t :: more)).map Token.word :=
    (mem_map_word_mergeDuplicates t.word).mpr (by simp)
  simp [hnil] at hmem

/-- How often tokens count a word, those of the same word all together. -/
def occursOf (word : String) (tokens : List Token) : Int :=
  (tokens.map fun t => if t.word = word then t.occurs else 0).sum

theorem occursOf_cons (word : String) (t : Token) (tokens : List Token) :
    occursOf word (t :: tokens) = (if t.word = word then t.occurs else 0) + occursOf word tokens :=
  List.sum_cons

theorem occursOf_consMerging (word : String) (t : Token) (tokens : List Token) :
    occursOf word (consMerging t tokens) = occursOf word (t :: tokens) := by
  cases tokens with
  | nil => rfl
  | cons u rest =>
      rw [consMerging]
      split
      · next heq =>
        simp only [occursOf_cons, heq]
        split <;> omega
      · rfl

theorem occursOf_mergeRuns (word : String) (tokens : List Token) :
    occursOf word (mergeRuns tokens) = occursOf word tokens := by
  induction tokens with
  | nil => rfl
  | cons t tokens ih => rw [mergeRuns_cons, occursOf_consMerging, occursOf_cons, occursOf_cons, ih]

/-- Merging keeps the count of every word. -/
theorem occursOf_mergeDuplicates (word : String) (tokens : List Token) :
    occursOf word (mergeDuplicates tokens) = occursOf word tokens := by
  rw [mergeDuplicates, occursOf_mergeRuns]
  exact ((List.mergeSort_perm ..).map _).sum_eq

theorem occursOf_eq_zero {word : String} {tokens : List Token} (h : word ∉ tokens.map Token.word) :
    occursOf word tokens = 0 := by
  induction tokens with
  | nil => rfl
  | cons t tokens ih =>
      rw [List.map_cons, List.mem_cons, not_or] at h
      rw [occursOf_cons, if_neg (Ne.symm h.1), ih h.2, Int.zero_add]

theorem occursOf_eq_occurs {tokens : List Token} {t : Token} (h : t ∈ tokens)
    (hnodup : (tokens.map Token.word).Nodup) : occursOf t.word tokens = t.occurs := by
  induction tokens with
  | nil => cases h
  | cons u tokens ih =>
      rw [List.map_cons, List.nodup_cons] at hnodup
      rw [occursOf_cons]
      rcases List.mem_cons.mp h with rfl | h
      · rw [if_pos rfl, occursOf_eq_zero hnodup.1, Int.add_zero]
      · have hne : u.word ≠ t.word := fun heq => hnodup.1 (heq ▸ List.mem_map_of_mem h)
        rw [if_neg hne, ih h hnodup.2, Int.zero_add]

theorem occurs_of_mem_mergeDuplicates {tokens : List Token} {t : Token} (h : t ∈ mergeDuplicates tokens) :
    t.occurs = occursOf t.word tokens := by
  rw [← occursOf_mergeDuplicates]
  exact (occursOf_eq_occurs h (nodup_mergeDuplicates tokens)).symm

end LogMining.Token
