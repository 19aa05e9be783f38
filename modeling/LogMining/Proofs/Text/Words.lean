import LogMining.Text.Words
import Mathlib.Data.List.TakeWhile

/-!
# The words of a text

The words of a text are its longest runs of characters other than blanks. So they can be read one after
the other: blanks are passed over, and the run that comes then is the first word.
-/

namespace LogMining.Text

section Run

variable {α : Type} {p : α → Bool} {run run' rest rest' : List α}

/-- A text is divided in one way only into a run of characters and a rest that does not go on with it. -/
theorem append_inj_of_run (hrun : ∀ a ∈ run, p a = true) (hrun' : ∀ a ∈ run', p a = true)
    (hrest : ∀ a ∈ rest.head?, p a = false) (hrest' : ∀ a ∈ rest'.head?, p a = false)
    (h : run ++ rest = run' ++ rest') : run = run' ∧ rest = rest' := by
  have htake : ∀ {run rest : List α}, (∀ a ∈ run, p a = true) → (∀ a ∈ rest.head?, p a = false) →
      (run ++ rest).takeWhile p = run := by
    intro run rest hrun hrest
    rw [List.takeWhile_append_of_pos hrun]
    cases rest with
    | nil => rw [List.takeWhile_nil, List.append_nil]
    | cons a rest => rw [List.takeWhile_cons, hrest a rfl, if_neg Bool.false_ne_true, List.append_nil]
  have hsame : run = run' := by rw [← htake hrun hrest, h, htake hrun' hrest']
  subst hsame
  exact ⟨rfl, List.append_cancel_left h⟩

end Run

variable {α : Type} [DecidableEq α] {sep : α} {l piece : List α} {more : List (List α)}

theorem separated_append {front : List α} (h : sep ∉ front) (hl : separated sep l = piece :: more) :
    separated sep (front ++ l) = (front ++ piece) :: more := by
  induction front with
  | nil => exact hl
  | cons a front ih =>
      rw [List.mem_cons, not_or] at h
      rw [List.cons_append, separated_cons, if_neg (Ne.symm h.1), ih h.2]
      rfl

theorem separated_ne_nil (sep : α) (l : List α) : separated sep l ≠ [] := by
  cases l with
  | nil => exact List.cons_ne_nil _ _
  | cons a l =>
      rw [separated_cons]
      split
      · exact List.cons_ne_nil _ _
      · cases separated sep l <;> exact List.cons_ne_nil _ _

theorem separated_append_cons (sep : α) (l rest : List α) :
    separated sep (l ++ sep :: rest) = separated sep l ++ separated sep rest := by
  induction l with
  | nil =>
      rw [List.nil_append, separated_cons, if_pos rfl]
      rfl
  | cons a l ih =>
      obtain ⟨piece, more, hl⟩ := List.exists_cons_of_ne_nil (separated_ne_nil sep l)
      rw [List.cons_append, separated_cons, separated_cons, ih, hl]
      split <;> rfl

variable {c : Char} {word rest text : List Char}

theorem isInk_eq_not (c : Char) : isInk c = !isBlank c := rfl

theorem ne_space_of_isInk (h : isInk c = true) : c ≠ ' ' := by
  rintro rfl
  exact absurd h (by decide)

@[simp] theorem words_nil : words [] = [] := rfl

theorem words_cons_of_isBlank (h : isBlank c = true) (text : List Char) :
    words (c :: text) = words text := by
  rw [words, List.map_cons, if_pos h, separated_cons, if_pos rfl]
  rfl

theorem words_dropWhile_isBlank (text : List Char) :
    words (text.dropWhile isBlank) = words text := by
  induction text with
  | nil => rfl
  | cons c text ih =>
      rw [List.dropWhile_cons]
      split
      · next h => rw [ih, words_cons_of_isBlank h]
      · rfl

/-- A run of characters that is ended by a blank or by the end of the text is a word. -/
theorem words_append (hne : word ≠ []) (hword : ∀ c ∈ word, isInk c = true)
    (hrest : ∀ c ∈ rest.head?, isBlank c = true) : words (word ++ rest) = word :: words rest := by
  have hmap : word.map (fun c => if isBlank c then ' ' else c) = word := by
    refine (List.map_congr_left fun c hc => ?_).trans (List.map_id word)
    have hink := hword c hc
    rw [isInk_eq_not, Bool.not_eq_true'] at hink
    rw [hink]
    rfl
  have hspace : ' ' ∉ word := fun hmem => ne_space_of_isInk (hword _ hmem) rfl
  have hkept : (!word.isEmpty) = true := by simpa using hne
  cases rest with
  | nil =>
      rw [List.append_nil, words, hmap, ← List.append_nil word, separated_append hspace rfl]
      simp [hne]
  | cons c rest =>
      have hblank := hrest c rfl
      rw [words_cons_of_isBlank hblank, words, List.map_append, hmap, List.map_cons, if_pos hblank,
        separated_append hspace (separated_cons ' ' ' ' _), List.append_nil]
      exact List.filter_cons_of_pos hkept

theorem dropWhile_isBlank_eq_nil (h : (text.dropWhile isBlank).takeWhile isInk = []) :
    text.dropWhile isBlank = [] := by
  cases hinked : text.dropWhile isBlank with
  | nil => rfl
  | cons c inked =>
      have hblank := List.head?_dropWhile_not isBlank text
      rw [hinked] at hblank h
      rw [List.takeWhile_cons, if_pos (by simpa [isInk_eq_not] using hblank)] at h
      cases h

theorem words_eq (text : List Char) :
    words text =
      if ((text.dropWhile isBlank).takeWhile isInk).isEmpty then []
      else (text.dropWhile isBlank).takeWhile isInk ::
        words ((text.dropWhile isBlank).dropWhile isInk) := by
  rw [← words_dropWhile_isBlank text]
  generalize hinked : text.dropWhile isBlank = inked
  split
  · next hempty =>
    rw [List.isEmpty_iff, ← hinked] at hempty
    rw [← hinked, dropWhile_isBlank_eq_nil hempty, words_nil]
  · next hne =>
    rw [List.isEmpty_iff] at hne
    have hrest : ∀ c ∈ (inked.dropWhile isInk).head?, isBlank c = true := by
      intro c hc
      have hnot := List.head?_dropWhile_not isInk inked
      rw [Option.mem_def.mp hc] at hnot
      simpa [isInk_eq_not] using hnot
    have hfirst := words_append hne (fun c hc => List.mem_takeWhile_imp hc) hrest
    rwa [List.takeWhile_append_dropWhile] at hfirst

theorem dropWhile_isBlank_of_words_eq_nil (h : words text = []) : text.dropWhile isBlank = [] := by
  rw [words_eq] at h
  split at h
  · next hempty => exact dropWhile_isBlank_eq_nil (List.isEmpty_iff.mp hempty)
  · cases h

theorem of_words_eq_cons {words' : List (List Char)} (h : words text = word :: words') :
    (text.dropWhile isBlank).takeWhile isInk = word ∧ word ≠ [] ∧
      words ((text.dropWhile isBlank).dropWhile isInk) = words' := by
  rw [words_eq] at h
  split at h
  · cases h
  · next hne =>
    obtain ⟨rfl, hrest⟩ := List.cons.inj h
    exact ⟨rfl, by simpa using hne, hrest⟩

/-- What stands around the first word: blanks before it, and a blank or the end of the text behind it. -/
theorem exists_append_of_words_eq_cons {words' : List (List Char)} (h : words text = word :: words') :
    ∃ blanks rest, text = blanks ++ (word ++ rest) ∧ (∀ c ∈ blanks, isBlank c = true) ∧
      (∀ c ∈ rest.head?, isBlank c = true) ∧ words rest = words' := by
  obtain ⟨hword, -, hrest⟩ := of_words_eq_cons h
  refine ⟨text.takeWhile isBlank, (text.dropWhile isBlank).dropWhile isInk, ?_,
    fun c hc => List.mem_takeWhile_imp hc, fun c hc => ?_, hrest⟩
  · rw [← hword, List.takeWhile_append_dropWhile, List.takeWhile_append_dropWhile]
  · have hnot := List.head?_dropWhile_not isInk (text.dropWhile isBlank)
    rw [Option.mem_def.mp hc] at hnot
    simpa [isInk_eq_not] using hnot

theorem isInk_of_mem_words (h : word ∈ words text) : word ≠ [] ∧ ∀ c ∈ word, isInk c = true := by
  generalize hwords : words text = all at h
  induction all generalizing text with
  | nil => cases h
  | cons first all ih =>
      obtain ⟨hfirst, hne, hrest⟩ := of_words_eq_cons hwords
      rcases List.mem_cons.mp h with rfl | hmem
      · exact ⟨hne, fun c hc => List.mem_takeWhile_imp (hfirst ▸ hc)⟩
      · exact ih hrest hmem

theorem words_append_cons (h : isBlank c = true) (before after : List Char) :
    words (before ++ c :: after) = words before ++ words after := by
  rw [words, List.map_append, List.map_cons, if_pos h, separated_append_cons, List.filter_append]
  rfl

theorem words_intercalate (h : isBlank c = true) {all : List (List Char)}
    (hall : ∀ word ∈ all, word ≠ [] ∧ ∀ c ∈ word, isInk c = true) : words ([c].intercalate all) = all := by
  have hone : ∀ {word}, (word ≠ [] ∧ ∀ c ∈ word, isInk c = true) → words word = [word] := by
    intro word ⟨hne, hink⟩
    have hword : words (word ++ []) = word :: words [] := words_append hne hink fun c hc => by cases hc
    rwa [List.append_nil] at hword
  induction all with
  | nil => rfl
  | cons word all ih =>
      rw [List.forall_mem_cons] at hall
      cases all with
      | nil => rw [List.intercalate_singleton, hone hall.1]
      | cons next all =>
          rw [List.intercalate_cons_cons, List.append_assoc, List.singleton_append, words_append_cons h,
            hone hall.1, ih hall.2]
          rfl

theorem exists_append_of_mem_words (h : word ∈ words text) :
    ∃ before after, text = before ++ word ++ after ∧
      (∀ c ∈ before.getLast?, isBlank c = true) ∧ ∀ c ∈ after.head?, isBlank c = true := by
  generalize hwords : words text = all at h
  induction all generalizing text with
  | nil => cases h
  | cons first all ih =>
      obtain ⟨blanks, rest, rfl, hblanks, hafter, hrest⟩ := exists_append_of_words_eq_cons hwords
      rcases List.mem_cons.mp h with rfl | hmem
      · exact ⟨blanks, rest, (List.append_assoc ..).symm,
          fun c hc => hblanks c (List.mem_of_mem_getLast? hc), hafter⟩
      · obtain ⟨before, after, rfl, hbefore, hafter'⟩ := ih hrest hmem
        -- what is left behind the first word begins with a blank, so it is not the word itself
        have hpos : before ≠ [] := by
          rintro rfl
          obtain ⟨c, word', rfl⟩ := List.exists_cons_of_ne_nil (isInk_of_mem_words (hrest ▸ hmem)).1
          have hink := (isInk_of_mem_words (hrest ▸ hmem)).2 c List.mem_cons_self
          rw [isInk_eq_not, hafter c rfl] at hink
          cases hink
        refine ⟨blanks ++ first ++ before, after, by simp only [List.append_assoc], ?_, hafter'⟩
        rwa [List.getLast?_append, Option.or_of_isSome (by simpa using hpos)]

/-- The words of a text are its longest runs of characters other than blanks. -/
theorem mem_words_iff : word ∈ words text ↔
    ∃ before after, text = before ++ word ++ after ∧ word ≠ [] ∧ (∀ c ∈ word, isInk c = true) ∧
      (∀ c ∈ before.getLast?, isBlank c = true) ∧ ∀ c ∈ after.head?, isBlank c = true := by
  constructor
  · intro h
    obtain ⟨before, after, htext, hbefore, hafter⟩ := exists_append_of_mem_words h
    exact ⟨before, after, htext, (isInk_of_mem_words h).1, (isInk_of_mem_words h).2, hbefore, hafter⟩
  · rintro ⟨before, after, rfl, hne, hink, hbefore, hafter⟩
    have hfirst := words_append hne hink hafter
    rcases List.eq_nil_or_concat before with rfl | ⟨before, c, rfl⟩
    · rw [List.nil_append, hfirst]
      exact List.mem_cons_self
    · have hblank : isBlank c = true := hbefore c (by simp)
      rw [List.concat_eq_append, List.append_assoc, List.append_assoc, List.singleton_append,
        words_append_cons hblank, hfirst]
      exact List.mem_append_right _ List.mem_cons_self

/-- The runs of a text from left to right: blanks, then a longest run of other characters, and so on with what is
left. Blanks at the end of the text belong to no run. -/
inductive Runs : List Char → List (List Char) → Prop
  | blanks {text : List Char} (h : ∀ c ∈ text, isBlank c = true) : Runs text []
  | run {blanks run rest : List Char} {more : List (List Char)} (hblanks : ∀ c ∈ blanks, isBlank c = true)
      (hne : run ≠ []) (hink : ∀ c ∈ run, isInk c = true) (hrest : ∀ c ∈ rest.head?, isBlank c = true)
      (hmore : Runs rest more) : Runs (blanks ++ (run ++ rest)) (run :: more)

theorem words_append_of_isBlank {blanks : List Char} (h : ∀ c ∈ blanks, isBlank c = true)
    (text : List Char) : words (blanks ++ text) = words text := by
  induction blanks with
  | nil => rfl
  | cons c blanks ih =>
      rw [List.forall_mem_cons] at h
      rw [List.cons_append, words_cons_of_isBlank h.1, ih h.2]

/-- A text has its words for runs, and has no others. -/
theorem runs_iff {all : List (List Char)} : Runs text all ↔ all = words text := by
  constructor
  · intro h
    induction h with
    | @blanks text h =>
        have hwords := words_append_of_isBlank h []
        rw [List.append_nil] at hwords
        exact hwords.symm
    | run hblanks hne hink hrest _ ih =>
        rw [words_append_of_isBlank hblanks, words_append hne hink hrest, ← ih]
  · rintro rfl
    generalize hwords : words text = all
    induction all generalizing text with
    | nil =>
        have hinked := dropWhile_isBlank_of_words_eq_nil hwords
        exact .blanks (List.dropWhile_eq_nil_iff.mp hinked)
    | cons first all ih =>
        obtain ⟨blanks, rest, rfl, hblanks, hafter, hrest⟩ := exists_append_of_words_eq_cons hwords
        have hfirst : first ∈ words (blanks ++ (first ++ rest)) := hwords ▸ List.mem_cons_self
        obtain ⟨hne, hink⟩ := isInk_of_mem_words hfirst
        exact .run hblanks hne hink hafter (ih hrest)

end LogMining.Text
