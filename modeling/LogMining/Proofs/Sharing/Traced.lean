import LogMining.Proofs.Accounts.Route
import LogMining.Proofs.Order.Ambiguity
import LogMining.Proofs.Slots.Linked

/-!
# Why the words of a slot are together

A slot is opened for one word and gets its first child from the word after it. From then on a word is
taken in if the same word comes after it, and neither the first child nor its first word ever changes. So
each word of a slot with a child is followed by the first word of the child in some line, and a slot with
several words has a child. `Slots.Traced` says this of a chain and of all chains below it, together with
the line that every word comes from, and `Tree.Coherent` says it of the nodes of a tree.
-/

namespace LogMining

namespace Slots

/-- The words of a slot come from lines, which go on to its child if it has one. -/
structure Member.Traced (m : Member) (lines : List (List String)) : Prop where
  nonempty : m.values ≠ []
  start : ∀ word ∈ m.words, ∃ rest, word :: rest ∈ lines
  /-- Several words are together for the sake of what follows them. -/
  below : 2 ≤ m.values.length → m.inside.2 ≠ nil
  next : ∀ next, m.inside.2.firstWord? = some next → ∀ word ∈ m.words,
    Follows lines word (some next)

def Traced : Slots → List (List String) → Prop
  | nil, _ => True
  | slot _ values ends below beside, lines =>
    Member.Traced ⟨values, (ends, below)⟩ lines ∧
      below.Covers (through (values.map Token.word) lines) ∧
      below.Traced (through (values.map Token.word) lines) ∧ beside.Traced lines

/-- A chain belongs to lines, each of which goes on with one of its words. -/
structure Traces (slots : Slots) (lines : List (List String)) : Prop where
  covers : slots.Covers lines
  traced : slots.Traced lines

variable {slots : Slots} {lines lines' : List (List String)} {id : Nat} {values : List Token}
  {ends : Int} {below beside : Slots} {members members' : List Member} {t : Token}
  {next : Option String} {grown : Int × Slots → Int × Slots} {word : String}

theorem traced_slot :
    (slot id values ends below beside).Traced lines ↔
      Member.Traced ⟨values, (ends, below)⟩ lines ∧
        below.Traces (through (values.map Token.word) lines) ∧ beside.Traced lines := by
  constructor
  · rintro ⟨hmember, hcovers, hbelow, hbeside⟩
    exact ⟨hmember, ⟨hcovers, hbelow⟩, hbeside⟩
  · rintro ⟨hmember, ⟨hcovers, hbelow⟩, hbeside⟩
    exact ⟨hmember, hcovers, hbelow, hbeside⟩

theorem traced_iff : slots.Traced lines ↔
    ∀ m ∈ slots.members, m.Traced lines ∧ m.inside.2.Traces (through m.words lines) := by
  induction slots with
  | nil => simp [Traced]
  | slot id values ends below beside _ ihBeside =>
      rw [traced_slot, ihBeside, members_slot, List.forall_mem_cons, and_assoc]
      rfl

theorem Traced.distinct (h : slots.Traced lines) : slots.Distinct := by
  induction slots generalizing lines with
  | nil => trivial
  | slot id values ends below beside ihBelow ihBeside =>
      obtain ⟨-, htraces, hbeside⟩ := traced_slot.mp h
      exact ⟨htraces.covers.nodup, ihBelow htraces.traced, ihBeside hbeside⟩

theorem Member.Traced.mono {m : Member} (h : m.Traced lines) (hsub : lines ⊆ lines') :
    m.Traced lines' where
  nonempty := h.nonempty
  start word hword := by
    obtain ⟨rest, hrest⟩ := h.start word hword
    exact ⟨rest, hsub hrest⟩
  below := h.below
  next next hnext word hword := (h.next next hnext word hword).mono hsub

theorem traces_nil : nil.Traces [] where
  covers := ⟨List.nodup_nil, by simp⟩
  traced := trivial

theorem firstWord?_eq (slots : Slots) :
    slots.firstWord? = slots.members.head?.bind fun m => m.words.head? := by
  match slots with
  | nil => rfl
  | slot _ [] _ _ _ => rfl
  | slot _ (_ :: _) _ _ _ => rfl

theorem Enters.head?_words (h : Enters t next grown members members')
    (hword : (members.head?.bind fun m => m.words.head?) = some word) :
    (members'.head?.bind fun m => m.words.head?) = some word := by
  cases h with
  | @counted before after values inside hmem =>
      cases before with
      | nil =>
          rw [List.nil_append, List.head?_cons, Option.bind_some] at hword ⊢
          rw [Member.words_countWord ⟨values, inside⟩]
          exact hword
      | cons m before => exact hword
  | @joined before after values inside hmem =>
      cases before with
      | nil =>
          rw [List.nil_append, List.head?_cons, Option.bind_some] at hword ⊢
          rw [Member.words_append ⟨values, inside⟩, List.head?_append, hword, Option.some_or]
      | cons m before => exact hword
  | opened =>
      cases members with
      | nil => simp at hword
      | cons m members => exact hword

theorem firstWord?_grow (fresh : Nat) (tokens : List Token) (ends : Int)
    (h : below.firstWord? = some word) :
    (grow true fresh tokens (ends, below)).2.firstWord? = some word := by
  cases tokens with
  | nil => exact h
  | cons t more =>
      obtain ⟨fresh', -, henters⟩ := enters_grow fresh ends below t more
      rw [firstWord?_eq] at h ⊢
      exact henters.head?_words h

theorem firstWord?_grow_nil (fresh : Nat) (tokens : List Token) (ends : Int) :
    (grow true fresh tokens (ends, nil)).2.firstWord? = tokens.head?.map Token.word := by
  cases tokens with
  | nil => rfl
  | cons t more =>
      have hword : t.word ∉ nil.words := List.not_mem_nil
      have hlead : nil.from? (leadsTo (more.head?.map Token.word)) = none := rfl
      obtain ⟨fresh', hgrow⟩ := grow_of_opens fresh ends hword hlead
      rw [hgrow]
      rfl

theorem Traced.exists_firstWord? (h : slots.Traced lines) (hne : slots ≠ nil) :
    ∃ word, slots.firstWord? = some word := by
  match slots, h with
  | slot _ (t :: _) _ _ _, _ => exact ⟨t.word, rfl⟩
  | slot _ [] _ _ _, h => exact absurd rfl (traced_slot.mp h).1.nonempty
  | nil, _ => exact absurd rfl hne

/-- A slot that a line enters is traced if it has the word of the line only, or leads on with each of its
words. -/
theorem traced_enter {values : List Token} {inside : Int × Slots} {more : List Token} (fresh : Nat)
    (hinside : inside.2.Traced lines') (hne : values ≠ [])
    (hstart : ∀ w ∈ values.map Token.word, ∃ rest, w :: rest ∈ lines)
    (hline : word :: more.map Token.word ∈ lines)
    (hnil : inside.2 = nil → values.map Token.word = [word])
    (hnext : ∀ next, inside.2.firstWord? = some next → ∀ w ∈ values.map Token.word,
      Follows lines w (some next)) :
    Member.Traced ⟨values, grow true fresh more inside⟩ lines := by
  obtain ⟨ends, below⟩ := inside
  by_cases hbelow : below = nil
  · subst hbelow
    have hword : ∀ w ∈ values.map Token.word, w = word := by
      intro w hw
      rw [hnil rfl] at hw
      exact List.mem_singleton.mp hw
    refine ⟨hne, hstart, fun hlength => ?_, fun next hfirst w hw => ?_⟩
    · have hone := congrArg List.length (hnil rfl)
      rw [List.length_map, List.length_singleton] at hone
      dsimp only at hlength
      omega
    · rw [firstWord?_grow_nil, ← List.head?_map] at hfirst
      rw [hword w hw]
      exact ⟨more.map Token.word, hline, hfirst⟩
  · obtain ⟨first, hfirst⟩ := hinside.exists_firstWord? hbelow
    have hgrown := firstWord?_grow fresh more ends hfirst
    refine ⟨hne, hstart, fun _ hempty => ?_, fun next hlead => ?_⟩
    · dsimp only at hempty
      rw [hempty] at hgrown
      cases hgrown
    · rw [hgrown] at hlead
      exact hnext next (hlead ▸ hfirst)

namespace Member.Traced

variable {m : Member} {more : List Token}

theorem words_eq_singleton (h : m.Traced lines) (hword : word ∈ m.words) (hnil : m.inside.2 = nil) :
    m.words = [word] := by
  have hpos := List.length_pos_of_mem hword
  have hlength : ¬2 ≤ m.values.length := fun hlength => h.below hlength hnil
  have hmap : m.words.length = m.values.length := List.length_map ..
  obtain ⟨w, hw⟩ := List.length_eq_one_iff.mp (show m.words.length = 1 by omega)
  rw [hw, List.mem_singleton] at hword
  rw [hw, hword]

theorem counted (h : m.Traced lines) (hinside : m.inside.2.Traced lines') (fresh : Nat)
    (hword : t.word ∈ m.words) (hline : t.word :: more.map Token.word ∈ lines) :
    Member.Traced ⟨Tree.countWord t.word m.values, grow true fresh more m.inside⟩ lines := by
  have hwords : (Tree.countWord t.word m.values).map Token.word = m.words :=
    m.words_countWord t.word (grow true fresh more m.inside)
  refine traced_enter fresh hinside ?_ ?_ hline ?_ ?_
  · intro hnil
    rw [hnil, List.map_nil] at hwords
    exact h.nonempty (List.map_eq_nil_iff.mp hwords.symm)
  · rw [hwords]
    exact h.start
  · rw [hwords]
    exact h.words_eq_singleton hword
  · rw [hwords]
    exact h.next

/-- A member stays traced when it takes in the word of a line that goes on to what is below it. -/
theorem joined (h : m.Traced lines) (hinside : m.inside.2.Traced lines') (fresh : Nat)
    (hsome : (more.head?.map Token.word).isSome)
    (hlead : m.inside.2.firstWord? = more.head?.map Token.word)
    (hline : t.word :: more.map Token.word ∈ lines) :
    Member.Traced ⟨m.values ++ [{ t with occurs := 1 }], grow true fresh more m.inside⟩ lines := by
  have hwords : (m.values ++ [{ t with occurs := 1 }]).map Token.word = m.words ++ [t.word] :=
    m.words_append t m.inside
  refine traced_enter fresh hinside (by simp) ?_ hline ?_ ?_
  · rw [hwords, List.forall_mem_append, List.forall_mem_singleton]
    exact ⟨h.start, more.map Token.word, hline⟩
  · intro hnil
    rw [hnil] at hlead
    rw [← hlead] at hsome
    cases hsome
  · intro next hnext
    rw [hwords, List.forall_mem_append, List.forall_mem_singleton]
    refine ⟨h.next next hnext, more.map Token.word, hline, ?_⟩
    rw [List.head?_map, ← hlead, hnext]

theorem opened (fresh : Nat) (hline : t.word :: more.map Token.word ∈ lines) :
    Member.Traced ⟨[t], grow true fresh more (0, nil)⟩ lines := by
  refine traced_enter fresh traces_nil.traced (by simp) ?_ hline (fun _ => rfl) ?_
  · exact List.forall_mem_singleton.mpr ⟨more.map Token.word, hline⟩
  · intro next hnext
    cases hnext

end Member.Traced

theorem Traced.enters {slots' : Slots} {more : List Token} (h : slots.Traces lines) (fresh : Nat)
    (henters : Enters t (more.head?.map Token.word) (grow true fresh more) slots.members
      slots'.members)
    (hgrown : ∀ {p : Int × Slots} {lines}, p.2.Traces lines →
      (grow true fresh more p).2.Traces (lines ++ [more.map Token.word])) :
    slots'.Traced (lines ++ [t.word :: more.map Token.word]) := by
  have hmembers := traced_iff.mp h.traced
  have hsub : lines ⊆ lines ++ [t.word :: more.map Token.word] := List.subset_append_left _ _
  have hline : t.word :: more.map Token.word ∈ lines ++ [t.word :: more.map Token.word] := by simp
  have hnone : t.word ∉ slots.members.flatMap Member.words → ∀ rest, t.word :: rest ∉ lines := by
    intro hnot rest hmem
    rw [flatMap_words] at hnot
    exact hnot (h.covers.mem _ rest hmem)
  rw [traced_iff]
  intro m' hm'
  rcases henters.cases_member (flatMap_words slots ▸ h.covers.nodup) hm' with ⟨hm, hnot⟩ |
    ⟨m, hm, hword, rfl⟩ | ⟨hword, m, hm, ⟨hsome, hlead⟩, rfl⟩ | ⟨hword, rfl⟩
  · obtain ⟨hmember, hbelow⟩ := hmembers m' hm
    rw [through_append_of_not _ (by simpa using hnot)]
    exact ⟨hmember.mono hsub, hbelow⟩
  · obtain ⟨hmember, hbelow⟩ := hmembers m hm
    rw [Member.words_countWord, through_append_cons _ hword]
    exact ⟨(hmember.mono hsub).counted hbelow.traced fresh hword hline, hgrown hbelow⟩
  · obtain ⟨hmember, hbelow⟩ := hmembers m hm
    rw [Member.words_append, through_append_cons _ (by simp), through_append_word _ (hnone hword)]
    exact ⟨(hmember.mono hsub).joined hbelow.traced fresh hsome hlead hline, hgrown hbelow⟩
  · rw [Member.words_singleton, through_singleton_append (hnone hword)]
    exact ⟨Member.Traced.opened fresh hline, hgrown (p := (0, nil)) traces_nil⟩

/-- A chain belongs to the lines that have been inserted and to one more when that is inserted. -/
theorem traces_grow (fresh : Nat) (tokens : List Token) {p : Int × Slots} (h : p.2.Traces lines) :
    (grow true fresh tokens p).2.Traces (lines ++ [tokens.map Token.word]) := by
  induction tokens generalizing fresh p lines with
  | nil =>
      obtain ⟨ends, below⟩ := p
      rw [grow_nil]
      refine ⟨⟨h.covers.nodup, ?_⟩, ?_⟩
      · intro word rest hmem
        exact h.covers.mem word rest (by simpa using hmem)
      · rw [traced_iff]
        intro m hm
        obtain ⟨hmember, hbelow⟩ := traced_iff.mp h.traced m hm
        rw [List.map_nil, through_append_of_not _ (by simp)]
        exact ⟨hmember.mono (List.subset_append_left _ _), hbelow⟩
  | cons t more ih =>
      obtain ⟨ends, below⟩ := p
      obtain ⟨fresh', -, henters⟩ := enters_grow fresh ends below t more
      exact ⟨h.covers.enters henters, Traced.enters h fresh' henters (ih fresh')⟩

end Slots

end LogMining
