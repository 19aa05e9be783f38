import LogMining.Proofs.Growth.Members
import LogMining.Proofs.Order.Ambiguity
import Mathlib.Data.List.Pairwise

/-!
# Which lines come to a slot

A chain that has grown from lines sorts them into its slots: the inside of each slot has grown from what
remains of the lines that go on with its words, in their order. Where the lines are settled, two words
share a slot if and only if they are interchangeable, so that the order is of no account.
-/

namespace LogMining.Slots

/-- The slots of a chain have their lines to themselves and have grown from them. -/
structure Splits (lines : List (List String)) (members : List Member) : Prop where
  nodup : (members.flatMap Member.words).Nodup
  mem_iff : ∀ word, word ∈ members.flatMap Member.words ↔ ∃ rest, word :: rest ∈ lines
  grown : ∀ m ∈ members, m.words ≠ [] ∧ Grown (through m.words lines) m.inside

/-- Two words are in one slot. -/
def Together (members : List Member) (left right : String) : Prop :=
  ∃ m ∈ members, left ∈ m.words ∧ right ∈ m.words

/-- The words of a chain that are in one slot are those that are interchangeable. -/
def Sorts (whole : List (List String)) (members : List Member) : Prop :=
  ∀ left ∈ members.flatMap Member.words, ∀ right ∈ members.flatMap Member.words,
    Together members left right ↔ Interchangeable whole left right

variable {lines whole : List (List String)} {members members' : List Member} {m m' : Member}
  {t : Token} {next : Option String} {left right : String} {grown : Int × Slots → Int × Slots}

theorem together_nil : Together [] left right ↔ False := by simp [Together]

theorem together_cons : Together (m :: members) left right ↔
    (left ∈ m.words ∧ right ∈ m.words) ∨ Together members left right := by
  simp [Together]

theorem together_append : Together (members ++ members') left right ↔
    Together members left right ∨ Together members' left right := by
  simp [Together, or_and_right, exists_or]

theorem Together.symm (h : Together members left right) : Together members right left := by
  obtain ⟨m, hm, hleft, hright⟩ := h
  exact ⟨m, hm, hright, hleft⟩

theorem Splits.together_iff (h : Splits lines members) (hm : m ∈ members) (hleft : left ∈ m.words) :
    Together members left right ↔ right ∈ m.words := by
  refine ⟨?_, fun hright => ⟨m, hm, hleft, hright⟩⟩
  rintro ⟨m', hm', hleft', hright⟩
  by_cases heq : m = m'
  · exact heq ▸ hright
  · have hsymm : Std.Symm (Function.onFun List.Disjoint Member.words) :=
      ⟨fun _ _ hdisjoint _ hw hw' => hdisjoint hw' hw⟩
    have hdisjoint := (List.nodup_flatMap.mp h.nodup).2.forall hm hm' heq
    exact absurd hleft' (hdisjoint hleft)

namespace Enters

theorem together_iff (h : Enters t next grown members members')
    (hleft : left ∈ members.flatMap Member.words) (hright : right ∈ members.flatMap Member.words) :
    Together members' left right ↔ Together members left right := by
  have hne : t.word ∉ members.flatMap Member.words → left ≠ t.word ∧ right ≠ t.word :=
    fun hword => ⟨fun heq => hword (heq ▸ hleft), fun heq => hword (heq ▸ hright)⟩
  cases h with
  | counted => simp only [together_append, together_cons, Member.words, map_word_countWord]
  | joined hword =>
      obtain ⟨hl, hr⟩ := hne hword
      simp only [together_append, together_cons, Member.words, List.map_append, List.mem_append,
        List.map_cons, List.map_nil, List.mem_singleton, hl, hr, or_false]
  | opened hword =>
      obtain ⟨hl, hr⟩ := hne hword
      rw [together_append, together_cons]
      simp [Member.words, hl, together_nil]

theorem together_new (h : Enters t next grown members members')
    (hword : t.word ∉ members.flatMap Member.words) :
    (∃ m ∈ members, next.isSome ∧ m.inside.2.firstWord? = next ∧
        ∀ left ∈ members.flatMap Member.words,
          Together members' left t.word ↔ left ∈ m.words) ∨
      (∀ m ∈ members, next.isSome → m.inside.2.firstWord? ≠ next) ∧
        ∀ left ∈ members.flatMap Member.words, ¬Together members' left t.word := by
  have hother : ∀ {ms : List Member} {left : String}, t.word ∉ ms.flatMap Member.words →
      ¬Together ms left t.word := by
    rintro ms left hnot ⟨m, hm, -, hright⟩
    exact hnot (List.mem_flatMap_of_mem hm hright)
  -- a word that is new is not counted anywhere, so it joins a slot or opens one
  cases h with
  | @counted before after values inside hmem =>
      refine absurd (List.mem_flatMap.mpr ⟨⟨values, inside⟩, ?_, hmem⟩) hword
      exact List.mem_append_right _ List.mem_cons_self
  | @joined before after values inside _ hnext hlead =>
      left
      refine ⟨⟨values, inside⟩, by simp, hnext, hlead, ?_⟩
      intro left hleft
      have hne : left ≠ t.word := fun heq => hword (heq ▸ hleft)
      rw [List.flatMap_append, List.flatMap_cons, List.mem_append, List.mem_append, not_or,
        not_or] at hword
      rw [together_append, together_cons]
      simp [hother hword.1, hother hword.2.2, Member.words, hne]
  | opened _ hlead =>
      right
      refine ⟨hlead, ?_⟩
      intro left hleft
      have hne : left ≠ t.word := fun heq => hword (heq ▸ hleft)
      rw [together_append, together_cons]
      simp [hother hword, Member.words, hne, together_nil]

end Enters

theorem Splits.enters {line : List String} (h : Splits lines members)
    (henters : Enters t next grown members members')
    (hgrown : ∀ {lines p}, Grown lines p → Grown (lines ++ [line]) (grown p)) :
    Splits (lines ++ [t.word :: line]) members' := by
  have hnone : t.word ∉ members.flatMap Member.words → ∀ rest, t.word :: rest ∉ lines :=
    fun hnot rest hrest => hnot ((h.mem_iff t.word).mpr ⟨rest, hrest⟩)
  refine ⟨henters.nodup_words h.nodup, ?_, ?_⟩
  · intro word
    rw [exists_cons_mem_append, ← h.mem_iff, henters.mem_words_iff]
  · intro m' hm'
    rcases henters.cases_member h.nodup hm' with ⟨hm, hnot⟩ | ⟨m, hm, hword, rfl⟩ |
      ⟨hword, m, hm, -, rfl⟩ | ⟨hword, rfl⟩
    · rw [through_append_of_not _ (by simpa using hnot)]
      exact h.grown m' hm
    · rw [Member.words_countWord, through_append_cons _ hword]
      exact ⟨(h.grown m hm).1, hgrown (h.grown m hm).2⟩
    · rw [Member.words_append, through_append_cons _ (by simp), through_append_word _ (hnone hword)]
      exact ⟨by simp, hgrown (h.grown m hm).2⟩
    · rw [Member.words_singleton, through_singleton_append (hnone hword)]
      exact ⟨by simp, hgrown .empty⟩

theorem Grown.splits {p : Int × Slots} (h : Grown lines p) : Splits lines p.2.members := by
  induction h with
  | empty => exact ⟨List.nodup_nil, by simp, by simp⟩
  | @insert lines p tokens fresh hone h ih =>
      obtain ⟨ends, below⟩ := p
      cases tokens with
      | nil =>
          rw [grow_nil, List.map_nil]
          refine ⟨ih.nodup, fun word => ?_, fun m hm => ?_⟩
          · simpa using ih.mem_iff word
          · rw [through_append_of_not _ (by simp)]
            exact ih.grown m hm
      | cons t more =>
          obtain ⟨fresh', -, henters⟩ := enters_grow fresh ends below t more
          exact ih.enters henters
            (.insert fresh' fun u hu => hone u (List.mem_cons_of_mem t hu))

theorem mem_words_of_firstWord? {slots : Slots} {word : String}
    (h : slots.firstWord? = some word) : word ∈ slots.words := by
  match slots, h with
  | slot _ (t :: _) _ _ _, h => simpa [firstWord?] using .inl (Option.some.inj h).symm

theorem exists_firstWord? {slots : Slots} {word : String}
    (hne : ∀ m ∈ slots.members, m.words ≠ []) (hword : word ∈ slots.words) :
    ∃ first, slots.firstWord? = some first := by
  cases slots with
  | nil => simp at hword
  | slot id values ends below beside =>
      cases values with
      | nil => exact absurd rfl (hne _ List.mem_cons_self)
      | cons t values => exact ⟨t.word, rfl⟩

theorem Splits.follows_of_firstWord? (h : Splits lines members) (hm : m ∈ members) {word : String}
    (hlead : m.inside.2.firstWord? = some word) : ∃ w ∈ m.words, Follows lines w (some word) := by
  have hmem := mem_words_of_firstWord? hlead
  rw [← flatMap_words, (h.grown m hm).2.splits.mem_iff] at hmem
  obtain ⟨rest, hrest⟩ := hmem
  obtain ⟨w, hw, hline⟩ := mem_through_iff.mp hrest
  exact ⟨w, hw, word :: rest, hline, rfl⟩

theorem Splits.firstWord?_of_follows (h : Splits lines members) (hm : m ∈ members) {word : String}
    (hall : ∀ w ∈ m.words, ∀ other, Follows lines w other → other = some word) :
    m.inside.2.firstWord? = some word := by
  obtain ⟨hne, hgrown⟩ := h.grown m hm
  obtain ⟨w, hw⟩ := List.exists_mem_of_ne_nil _ hne
  obtain ⟨rest, hrest⟩ := (h.mem_iff w).mp (List.mem_flatMap_of_mem hm hw)
  obtain ⟨more, rfl⟩ := List.head?_eq_some_iff.mp (hall w hw _ ⟨rest, hrest, rfl⟩)
  have hword : word ∈ m.inside.2.words := by
    rw [← flatMap_words, hgrown.splits.mem_iff]
    exact ⟨more, mem_through_iff.mpr ⟨w, hw, hrest⟩⟩
  -- the chain has a first word, and a line goes on with it
  obtain ⟨first, hfirst⟩ :=
    exists_firstWord? (fun m hm => (hgrown.splits.grown m hm).1) hword
  obtain ⟨w', hw', hfollows⟩ := h.follows_of_firstWord? hm hfirst
  rw [hfirst, hall w' hw' _ hfollows]

section Sorts

variable {line : List String} (hsettled : Settled whole) (hsub : lines ++ [t.word :: line] ⊆ whole)
  (hsplits : Splits lines members) (h : Sorts whole members)

include hsettled hsub hsplits h

theorem interchangeable_iff_of_leads (hm : m ∈ members) (hnext : line.head?.isSome)
    (hlead : m.inside.2.firstWord? = line.head?) (hleft : left ∈ members.flatMap Member.words) :
    Interchangeable whole left t.word ↔ left ∈ m.words := by
  obtain ⟨next, hnext⟩ := Option.isSome_iff_exists.mp hnext
  obtain ⟨w, hw, hfollows⟩ := hsplits.follows_of_firstWord? hm (hlead.trans hnext)
  have hnew : Interchangeable whole w t.word :=
    .inr ⟨next, hfollows.mono fun _ hmem => hsub (List.mem_append_left _ hmem),
      line, hsub (by simp), hnext⟩
  rw [← hsplits.together_iff hm hw, h w (List.mem_flatMap_of_mem hm hw) left hleft]
  constructor
  · intro hleft
    exact hnew.trans hleft.symm hsettled
  · intro hleft
    exact hleft.symm.trans hnew hsettled

theorem not_interchangeable_of_opens (hword : t.word ∉ members.flatMap Member.words)
    (hlead : ∀ m ∈ members, line.head?.isSome → m.inside.2.firstWord? ≠ line.head?)
    (hleft : left ∈ members.flatMap Member.words) : ¬Interchangeable whole left t.word := by
  intro hnew
  have hne : left ≠ t.word := fun heq => hword (heq ▸ hleft)
  obtain ⟨next, hnext, hline⟩ := hnew.exists_next hne hsettled
  have hhead : line.head? = some next := hline _ ⟨line, hsub (by simp), rfl⟩
  have hsub' : lines ⊆ whole := fun _ hmem => hsub (List.mem_append_left _ hmem)
  obtain ⟨m, hm, hleft'⟩ := List.mem_flatMap.mp hleft
  refine hlead m hm (by simp [hhead]) ?_
  rw [hhead]
  apply hsplits.firstWord?_of_follows hm
  intro w hw other hother
  -- the words of the slot are interchangeable, so what follows one of them follows them all
  by_cases heq : left = w
  · exact hnext other (heq ▸ hother.mono hsub')
  · have hmem := List.mem_flatMap_of_mem hm hw
    have htogether := (h left hleft w hmem).mp ⟨m, hm, hleft', hw⟩
    obtain ⟨next', hnext', hw'⟩ := htogether.exists_next heq hsettled
    obtain ⟨rest, hrest⟩ := (hsplits.mem_iff left).mp hleft
    have hfollows : Follows whole left rest.head? := ⟨rest, hsub' hrest, rfl⟩
    rw [hw' other (hother.mono hsub'), ← hnext' _ hfollows, hnext _ hfollows]

/-- The insertion of a line keeps interchangeable words together and the others apart. -/
theorem Sorts.enters (henters : Enters t line.head? grown members members') :
    Sorts whole members' := by
  rcases henters.perm_words with ⟨-, hperm⟩ | ⟨hword, -⟩
  · intro left hleft right hright
    rw [hperm.mem_iff] at hleft hright
    rw [henters.together_iff hleft hright]
    exact h left hleft right hright
  · have hnew : ∀ left ∈ members.flatMap Member.words,
        Together members' left t.word ↔ Interchangeable whole left t.word := by
      intro left hleft
      rcases henters.together_new hword with ⟨m, hm, hnext, hlead, hiff⟩ | ⟨hlead, hnot⟩
      · rw [hiff left hleft,
          interchangeable_iff_of_leads hsettled hsub hsplits h hm hnext hlead hleft]
      · exact iff_of_false (hnot left hleft)
          (not_interchangeable_of_opens hsettled hsub hsplits h hword hlead hleft)
    intro left hleft right hright
    rw [henters.mem_words_iff] at hleft hright
    rcases hleft with hleft | rfl
    · rcases hright with hright | rfl
      · rw [henters.together_iff hleft hright]
        exact h left hleft right hright
      · exact hnew left hleft
    · rcases hright with hright | rfl
      · exact ⟨fun htogether => ((hnew right hright).mp htogether.symm).symm,
          fun hinter => ((hnew right hright).mpr hinter.symm).symm⟩
      · refine iff_of_true ?_ (.inl rfl)
        obtain ⟨m, hm, hw⟩ := List.mem_flatMap.mp ((henters.mem_words_iff t.word).mpr (.inr rfl))
        exact ⟨m, hm, hw, hw⟩

end Sorts

/-- Where the lines are settled, a chain that has grown from some of them keeps interchangeable words
together and the others apart. -/
theorem Grown.sorts {p : Int × Slots} (h : Grown lines p) (hsettled : Settled whole)
    (hsub : lines ⊆ whole) : Sorts whole p.2.members := by
  induction h with
  | empty =>
      intro left hleft
      simp at hleft
  | @insert lines p tokens fresh hone h ih =>
      obtain ⟨ends, below⟩ := p
      have hsorts := ih fun _ hmem => hsub (List.mem_append_left _ hmem)
      cases tokens with
      | nil =>
          rw [grow_nil]
          exact hsorts
      | cons t more =>
          obtain ⟨fresh', -, henters⟩ := enters_grow fresh ends below t more
          rw [← List.head?_map] at henters
          exact Sorts.enters hsettled hsub h.splits hsorts henters

theorem Splits.mem_words_iff (h : Splits lines members) (hsorts : Sorts whole members)
    (hm : m ∈ members) {w : String} (hw : w ∈ m.words) (v : String) :
    v ∈ m.words ↔ (∃ rest, v :: rest ∈ lines) ∧ Interchangeable whole w v := by
  rw [← h.mem_iff]
  constructor
  · intro hv
    have hmem := List.mem_flatMap_of_mem hm hv
    exact ⟨hmem, (hsorts w (List.mem_flatMap_of_mem hm hw) v hmem).mp ⟨m, hm, hw, hv⟩⟩
  · rintro ⟨hmem, hinter⟩
    rw [← h.together_iff hm hw]
    exact (hsorts w (List.mem_flatMap_of_mem hm hw) v hmem).mpr hinter

end LogMining.Slots
