import LogMining.Proofs.Accounts.Tally

/-!
# Lines that can be sorted in one way only

A slot takes another word for the sake of the word that comes next, so which words share a slot hangs on
what follows them. If two words are followed by the same word, and one of them by something else too, then
it also hangs on which of the lines comes first. `Slots.Unambiguous` rules this out, at the first word of
the lines and at all words after it.
-/

namespace LogMining.Slots

/-- A line goes on with the word, and then with `next` or not at all. -/
def Follows (lines : List (List String)) (word : String) (next : Option String) : Prop :=
  ∃ rest, word :: rest ∈ lines ∧ rest.head? = next

/-- Two words are the same or are both followed by a third one. -/
def Interchangeable (lines : List (List String)) (left right : String) : Prop :=
  left = right ∨ ∃ next, Follows lines left (some next) ∧ Follows lines right (some next)

/-- A word that shares a follower with another word is followed by nothing else. -/
def Settled (lines : List (List String)) : Prop :=
  ∀ left right next, left ≠ right → Follows lines left (some next) →
    Follows lines right (some next) → ∀ other, Follows lines left other → other = some next

/-- The words of the lines that are interchangeable with one of them. -/
def IsClass (lines : List (List String)) (words : List String) : Prop :=
  ∃ word ∈ words, ∀ w, w ∈ words ↔ (∃ rest, w :: rest ∈ lines) ∧ Interchangeable lines word w

/-- Whatever the order of the lines, the same words come to share a slot. -/
inductive Unambiguous : List (List String) → Prop
  | intro {lines : List (List String)} (settled : Settled lines)
      (below : ∀ words, IsClass lines words → Unambiguous (through words lines)) :
      Unambiguous lines

variable {lines lines' : List (List String)} {left mid right word : String}

theorem Follows.mono {next : Option String} (h : Follows lines word next) (hsub : lines ⊆ lines') :
    Follows lines' word next := by
  obtain ⟨rest, hrest, hnext⟩ := h
  exact ⟨rest, hsub hrest, hnext⟩

namespace Interchangeable

theorem symm (h : Interchangeable lines left right) : Interchangeable lines right left := by
  rcases h with rfl | ⟨next, hleft, hright⟩
  · exact .inl rfl
  · exact .inr ⟨next, hright, hleft⟩

theorem trans (h : Interchangeable lines left mid) (h' : Interchangeable lines mid right)
    (hsettled : Settled lines) : Interchangeable lines left right := by
  by_cases hne : mid = left
  · exact hne ▸ h'
  · rcases h with rfl | ⟨next, hleft, hmid⟩
    · exact absurd rfl hne
    · rcases h' with rfl | ⟨next', hmid', hright⟩
      · exact .inr ⟨next, hleft, hmid⟩
      · -- the word in between has one follower, which the other two share
        obtain rfl := Option.some.inj (hsettled mid left next hne hmid hleft _ hmid')
        exact .inr ⟨next', hleft, hright⟩

theorem exists_next (h : Interchangeable lines left right) (hne : left ≠ right)
    (hsettled : Settled lines) :
    ∃ next, (∀ other, Follows lines left other → other = some next) ∧
      ∀ other, Follows lines right other → other = some next := by
  rcases h with rfl | ⟨next, hleft, hright⟩
  · exact absurd rfl hne
  · exact ⟨next, hsettled left right next hne hleft hright,
      hsettled right left next hne.symm hright hleft⟩

end Interchangeable

theorem through_congr {words words' : List String}
    (h : ∀ word rest, word :: rest ∈ lines → (word ∈ words ↔ word ∈ words')) :
    through words lines = through words' lines := by
  apply List.filterMap_congr
  rintro (_ | ⟨word, rest⟩) hline
  · rfl
  · dsimp only
    rw [if_congr (h word rest hline) rfl rfl]

theorem exists_cons_mem_append {line : List String} :
    (∃ rest, word :: rest ∈ lines ++ [left :: line]) ↔
      (∃ rest, word :: rest ∈ lines) ∨ word = left := by
  constructor
  · rintro ⟨rest, hrest⟩
    rcases List.mem_append.mp hrest with hrest | hrest
    · exact .inl ⟨rest, hrest⟩
    · rw [List.mem_singleton, List.cons.injEq] at hrest
      exact .inr hrest.1
  · rintro (⟨rest, hrest⟩ | rfl)
    · exact ⟨rest, List.mem_append_left _ hrest⟩
    · exact ⟨line, by simp⟩

theorem unambiguous_of_rest {more : List String}
    (h : ∀ word rest, word :: rest ∈ lines → rest = more) : Unambiguous lines := by
  induction more generalizing lines with
  | nil =>
      refine .intro ?_ fun words _ => .intro ?_ ?_
      · rintro left right next - ⟨rest, hline, hnext⟩
        simp [h left rest hline] at hnext
      · rintro left right next - ⟨rest, hline, -⟩
        obtain ⟨word, -, hword⟩ := mem_through_iff.mp hline
        cases h word _ hword
      · rintro words' ⟨word, hword, hwords⟩
        obtain ⟨⟨rest, hline⟩, -⟩ := (hwords word).mp hword
        obtain ⟨word', -, hword'⟩ := mem_through_iff.mp hline
        cases h word' _ hword'
  | cons word more ih =>
      refine .intro ?_ fun words _ => ih ?_
      · rintro left right next - ⟨rest, hline, hnext⟩ - other ⟨rest', hline', hother⟩
        rw [← hother, ← hnext, h left rest hline, h left rest' hline']
      · intro word' rest hrest
        obtain ⟨w, -, hline⟩ := mem_through_iff.mp hrest
        exact (List.cons.inj (h w _ hline)).2

end LogMining.Slots
