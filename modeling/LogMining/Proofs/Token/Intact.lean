import LogMining.Proofs.Token.OfWord
import Mathlib.Data.List.Basic

/-!
# Intact tokens

A token that stands for a shape must have the placeholder of a shape for its word. So it is with all tokens
of the words of a line. These are moreover genuine, that is, they also have a word to show, and conversely
stand for a shape whenever their word is the placeholder of one.
-/

namespace LogMining

theorem Shape.mem_placeholders_iff {word : String} :
    word ∈ placeholders ↔ ∃ shape : Shape, word = shape.placeholder := by
  rw [placeholders, (List.mergeSort_perm _ _).mem_iff, List.mem_map]
  constructor
  · rintro ⟨shape, -, rfl⟩
    exact ⟨shape, rfl⟩
  · rintro ⟨shape, rfl⟩
    exact ⟨shape, by cases shape <;> decide, rfl⟩

namespace Token

/-- A token that stands for a shape has the placeholder of a shape for its word. -/
def Intact (t : Token) : Prop := t.special = true → t.word ∈ Shape.placeholders

theorem intact_of_not_special {t : Token} (h : t.special = false) : t.Intact := by
  rw [Intact, h]
  exact Bool.noConfusion

theorem intact_of_shape {t : Token} (shape : Shape) (h : t.word = shape.placeholder) : t.Intact :=
  fun _ => Shape.mem_placeholders_iff.mpr ⟨shape, h⟩

theorem isPlaceholder_of_mem {t : Token} (h : t.word ∈ Shape.placeholders) : t.isPlaceholder = true := by
  obtain ⟨shape, hword⟩ := Shape.mem_placeholders_iff.mp h
  rw [isPlaceholder_iff, hword]
  cases shape <;> rfl

theorem Intact.isPlaceholder {t : Token} (h : t.Intact) (hspecial : t.special = true) :
    t.isPlaceholder = true := isPlaceholder_of_mem (h hspecial)

theorem Intact.special_eq_false {t : Token} (h : t.Intact) (hword : t.isPlaceholder = false) :
    t.special = false := by
  cases hspecial : t.special with
  | false => rfl
  | true =>
      rw [h.isPlaceholder hspecial] at hword
      cases hword

theorem shaped_of_ofWord? {t : Token} (h : Shape.ofWord? t.word.toList = none) : t.shaped = t := by
  rw [shaped, shaped?, h]
  rfl

theorem shaped_of_some {t : Token} {shape : Shape} (h : Shape.ofWord? t.word.toList = some shape) :
    t.shaped = { t with word := shape.placeholder, special := true } := by
  rw [shaped, shaped?, h]
  rfl

theorem intact_shaped {t : Token} (h : t.special = false) : t.shaped.Intact := by
  cases hshape : Shape.ofWord? t.word.toList with
  | none =>
      rw [shaped_of_ofWord? hshape]
      exact intact_of_not_special h
  | some shape =>
      rw [shaped_of_some hshape]
      exact intact_of_shape shape rfl

/-- A token that a line may have brought about: its word can be told from what stands around it, it has been
seen, and it stands for a shape if and only if its word is the placeholder of one. -/
structure Genuine (t : Token) : Prop where
  word_ne : t.word.toList ≠ []
  isInk : ∀ c ∈ t.word.toList, Text.isInk c = true
  seen : 1 ≤ t.occurs
  special_iff : t.special = true ↔ t.word ∈ Shape.placeholders

theorem Genuine.intact {t : Token} (h : t.Genuine) : t.Intact := h.special_iff.mp

theorem genuine_placeholder (shape : Shape) (subword : Bool) :
    ({ word := shape.placeholder, subword, special := true } : Token).Genuine where
  word_ne := by
    change shape.placeholder.toList ≠ []
    cases shape <;> decide
  isInk := by
    have hink : shape.placeholder.toList.all Text.isInk = true := by cases shape <;> decide
    exact List.all_eq_true.mp hink
  seen := Int.le_refl 1
  special_iff := iff_of_true rfl (Shape.mem_placeholders_iff.mpr ⟨shape, rfl⟩)

theorem genuine_of_not_isPlaceholder {t : Token} (hword : t.isPlaceholder = false)
    (hne : t.word.toList ≠ []) (hink : ∀ c ∈ t.word.toList, Text.isInk c = true) (hseen : 1 ≤ t.occurs)
    (hspecial : t.special = false) : t.Genuine where
  word_ne := hne
  isInk := hink
  seen := hseen
  special_iff := by
    refine iff_of_false (by simp [hspecial]) fun hmem => ?_
    rw [isPlaceholder_of_mem hmem] at hword
    cases hword

/-- The tokens of a word are genuine. -/
theorem genuine_of_mem_ofWord {word : List Char} {t : Token} (hne : word ≠ [])
    (hink : ∀ c ∈ word, Text.isInk c = true) (ht : t ∈ ofWord word) : t.Genuine := by
  have hlist : (String.ofList word).toList = word := String.toList_ofList
  rw [ofWord] at ht
  dsimp only at ht
  split at ht
  · obtain rfl := List.mem_singleton.mp ht
    exact ⟨by rwa [hlist], by rwa [hlist], Int.le_refl 1, decide_eq_true_iff⟩
  · next hword =>
    rw [Bool.not_eq_true] at hword
    split at ht
    · next s hs =>
      obtain rfl := List.mem_singleton.mp ht
      obtain ⟨shape, -, rfl⟩ := Option.map_eq_some_iff.mp hs
      exact genuine_placeholder shape false
    · split at ht
      · simp only [List.mem_cons, List.not_mem_nil, or_false] at ht
        rcases ht with rfl | rfl | rfl
        · exact genuine_placeholder .ipv4 true
        · exact genuine_of_not_isPlaceholder rfl (by decide) (List.all_eq_true.mp (by decide)) (Int.le_refl 1) rfl
        · exact genuine_placeholder .integer true
      · obtain rfl := List.mem_singleton.mp ht
        exact genuine_of_not_isPlaceholder hword (by rwa [hlist]) (by rwa [hlist]) (Int.le_refl 1) rfl

theorem Genuine.count {t : Token} (h : t.Genuine) : { t with occurs := t.occurs + 1 }.Genuine :=
  ⟨h.word_ne, h.isInk, by have := h.seen; show 1 ≤ t.occurs + 1; omega, h.special_iff⟩

theorem Genuine.countOne {t : Token} (h : t.Genuine) : { t with occurs := 1 }.Genuine :=
  ⟨h.word_ne, h.isInk, Int.le_refl 1, h.special_iff⟩

end Token

namespace Pending

def Intact (p : Pending) : Prop := ∀ t ∈ p.items, t.Intact

theorem intact_clear (p : Pending) : p.clear.Intact := by simp [Intact, clear]

end Pending

end LogMining
