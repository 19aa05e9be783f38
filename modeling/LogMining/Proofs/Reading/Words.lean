import LogMining.Proofs.Reading.Path
import LogMining.Proofs.Refine.Parts
import LogMining.Proofs.Refine.Sweep

/-!
# Reading words

A placeholder may be read as itself or as any value of its shape, every other word as itself only. The
words of a path are read one after the other, with nothing or with one space between two of them. What
remains of values after a split reads as the values did, and a single value that remains of several is a
placeholder, so it is never joined with what follows.
-/

namespace LogMining

/-- A word may be read as a text. -/
def ReadsAs (word text : String) : Prop :=
  text = word ∨
    ∃ shape ∈ Shape.ofTokens, word = shape.placeholder ∧ shape.accepts text.toList = true

/-- Words that come after another one may be read as a text. -/
inductive ReadsAfter : List String → String → Prop
  | nil : ReadsAfter [] ""
  | cons {gap word text rest : String} {words : List String} (hgap : gap = "" ∨ gap = " ")
      (hword : ReadsAs word text) (hrest : ReadsAfter words rest) :
      ReadsAfter (word :: words) (gap ++ (text ++ rest))

/-- The words of a path may be read as a text. -/
inductive Reads : List String → String → Prop
  | nil : Reads [] ""
  | cons {word text rest : String} {words : List String} (hword : ReadsAs word text)
      (hrest : ReadsAfter words rest) : Reads (word :: words) (text ++ rest)

theorem readsAs_self (word : String) : ReadsAs word word := .inl rfl

theorem Reads.after {words : List String} {text : String} (h : Reads words text)
    (hne : words ≠ []) {gap : String} (hgap : gap = "" ∨ gap = " ") :
    ReadsAfter words (gap ++ text) := by
  cases h with
  | nil => exact absurd rfl hne
  | cons hword hrest => exact .cons hgap hword hrest

theorem reads_pathText (words : List String) : Reads words (pathText words) := by
  induction words with
  | nil => exact .nil
  | cons word words ih =>
      cases words with
      | nil =>
          have hword := Reads.cons (readsAs_self word) .nil
          rwa [String.append_empty] at hword
      | cons next words =>
          have hrest := ih.after (List.cons_ne_nil _ _) (.inr rfl)
          have hwords := Reads.cons (readsAs_self word) hrest
          rwa [← String.append_assoc, ← pathText_cons word (List.cons_ne_nil _ _)] at hwords

namespace Token

theorem readsAs_shaped (t : Token) : ReadsAs t.shaped.word t.word := by
  cases hshape : Shape.ofWord? t.word.toList with
  | none => exact .inl (by rw [shaped, shaped?, hshape]; rfl)
  | some shape =>
      have hmem : shape ∈ Shape.ofTokens := List.mem_of_find?_eq_some hshape
      have haccepts := List.find?_some hshape
      exact .inr ⟨shape, hmem, by rw [shaped, shaped?, hshape]; rfl, haccepts⟩

variable {values : List Token} {t r : Token}

theorem mem_map_word_settled (word : String) :
    word ∈ (settled values).map Token.word ↔
      ∃ t ∈ values, ({ t with subword := true } : Token).shaped.word = word := by
  rw [settled, mem_map_word_mergeDuplicates, List.map_map, List.mem_map]
  rfl

theorem exists_settled (h : t ∈ values) : ∃ r ∈ settled values, ReadsAs r.word t.word := by
  have hword : ({ t with subword := true } : Token).shaped.word ∈
      (settled values).map Token.word := (mem_map_word_settled _).mpr ⟨t, h, rfl⟩
  obtain ⟨r, hr, hrt⟩ := List.mem_map.mp hword
  exact ⟨r, hr, hrt ▸ readsAs_shaped { t with subword := true }⟩

theorem exists_of_mem_settled (h : r ∈ settled values) : ∃ t ∈ values, ReadsAs r.word t.word := by
  obtain ⟨t, ht, htr⟩ := (mem_map_word_settled r.word).mp (List.mem_map_of_mem h)
  exact ⟨t, ht, htr ▸ readsAs_shaped { t with subword := true }⟩

theorem isPlaceholder_of_shape {shape : Shape} (h : t.word = shape.placeholder) :
    t.isPlaceholder = true := by
  rw [isPlaceholder, h]
  cases shape <;> decide

/-- What remains of several values is not joined with what follows: if it is a single value, then a
placeholder stands for all of them. -/
theorem joint?_settled (hnodup : (values.map Token.word).Nodup) (hlength : 2 ≤ values.length)
    (below : Slots) : Slots.joint? (settled values) below = none := by
  by_cases hone : (settled values).length = 1
  · obtain ⟨r, hr⟩ := List.length_eq_one_iff.mp hone
    rw [hr]
    apply Slots.joint?_of_isPlaceholder
    obtain ⟨t, u, more, rfl⟩ : ∃ t u more, values = t :: u :: more := by
      rcases values with _ | ⟨t, _ | ⟨u, more⟩⟩
      · simp at hlength
      · simp at hlength
      · exact ⟨t, u, more, rfl⟩
    have hread : ∀ v ∈ t :: u :: more, ReadsAs r.word v.word := by
      intro v hv
      obtain ⟨r', hr', hreads⟩ := exists_settled hv
      rw [hr, List.mem_singleton] at hr'
      exact hr' ▸ hreads
    rcases hread t (by simp) with ht | ⟨shape, -, hshape, -⟩
    · rcases hread u (by simp) with hu | ⟨shape, -, hshape, -⟩
      · simp [ht, hu] at hnodup
      · exact isPlaceholder_of_shape hshape
    · exact isPlaceholder_of_shape hshape
  · exact Slots.joint?_of_length_ne_one hone below

end Token

end LogMining
