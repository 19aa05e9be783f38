import LogMining.Proofs.Growth.Enter

/-!
# The members of a chain

A chain read as the list of its slots, each with its values and with what is inside it, which is its line
ends and the chain below it. `Slots.Enters` says what the insertion of one token and of the rest of its
line makes of the members: one of them is changed, or one is added at the end.
-/

namespace LogMining.Slots

/-- A slot of a chain without its number. -/
structure Member where
  values : List Token
  inside : Int × Slots

namespace Member

def words (m : Member) : List String := m.values.map Token.word

theorem words_countWord (m : Member) (word : String) (inside : Int × Slots) :
    words ⟨Tree.countWord word m.values, inside⟩ = m.words :=
  map_word_countWord word m.values

theorem words_append (m : Member) (t : Token) (inside : Int × Slots) :
    words ⟨m.values ++ [{ t with occurs := 1 }], inside⟩ = m.words ++ [t.word] := by
  simp [words]

theorem words_singleton (t : Token) (inside : Int × Slots) : words ⟨[t], inside⟩ = [t.word] := rfl

end Member

def members : Slots → List Member
  | nil => []
  | slot _ values ends below beside => ⟨values, (ends, below)⟩ :: beside.members

/-- The insertion of a token that is followed by `next` leads from the first members to the second ones,
where `grown` is what the rest of the line makes of the inside of a slot. -/
inductive Enters (t : Token) (next : Option String) (grown : Int × Slots → Int × Slots) :
    List Member → List Member → Prop
  | counted {before after : List Member} {values : List Token} {inside : Int × Slots}
      (hword : t.word ∈ values.map Token.word) :
      Enters t next grown (before ++ ⟨values, inside⟩ :: after)
        (before ++ ⟨Tree.countWord t.word values, grown inside⟩ :: after)
  | joined {before after : List Member} {values : List Token} {inside : Int × Slots}
      (hword : t.word ∉ (before ++ ⟨values, inside⟩ :: after).flatMap Member.words)
      (hnext : next.isSome) (hlead : inside.2.firstWord? = next) :
      Enters t next grown (before ++ ⟨values, inside⟩ :: after)
        (before ++ ⟨values ++ [{ t with occurs := 1 }], grown inside⟩ :: after)
  | opened {members : List Member} (hword : t.word ∉ members.flatMap Member.words)
      (hlead : ∀ m ∈ members, next.isSome → m.inside.2.firstWord? ≠ next) :
      Enters t next grown members (members ++ [⟨[t], grown (0, nil)⟩])

variable {slots : Slots} {id : Nat} {values : List Token} {ends : Int} {below beside : Slots}

@[simp] theorem members_nil : nil.members = [] := rfl

@[simp] theorem members_slot (id : Nat) (values : List Token) (ends : Int) (below beside : Slots) :
    (slot id values ends below beside).members = ⟨values, (ends, below)⟩ :: beside.members := rfl

theorem members_append (slots more : Slots) :
    (slots.append more).members = slots.members ++ more.members := by
  induction slots with
  | nil => rfl
  | slot id values ends below beside _ ihBeside =>
      rw [append_slot, members_slot, members_slot, ihBeside, List.cons_append]

theorem flatMap_words (slots : Slots) : slots.members.flatMap Member.words = slots.words := by
  induction slots with
  | nil => rfl
  | slot id values ends below beside _ ihBeside =>
      rw [members_slot, List.flatMap_cons, ihBeside, words_slot]
      rfl

theorem members_changeFrom {test : Slots → Bool}
    (hrest : slots.from? test = some (slot id values ends below beside))
    (change : List Token → List Token) (grown : Int × Slots → Int × Slots) :
    ∃ before after, slots.members = before ++ ⟨values, (ends, below)⟩ :: after ∧
      (slots.changeFrom test (enter change grown)).members =
        before ++ ⟨change values, grown (ends, below)⟩ :: after := by
  induction slots with
  | nil => simp at hrest
  | slot id' values' ends' below' beside' _ ihBeside =>
      rw [from?_slot] at hrest
      rw [changeFrom_slot]
      split at hrest
      · next htest =>
        cases hrest
        rw [if_pos htest, enter_slot]
        exact ⟨[], beside.members, rfl, rfl⟩
      · next htest =>
        obtain ⟨before, after, hmembers, hchanged⟩ := ihBeside hrest
        rw [if_neg htest]
        refine ⟨⟨values', (ends', below')⟩ :: before, after, ?_, ?_⟩
        · rw [members_slot, hmembers, List.cons_append]
        · rw [members_slot, hchanged, List.cons_append]

theorem firstWord?_ne_of_from? {next : Option String} (h : slots.from? (leadsTo next) = none) :
    ∀ m ∈ slots.members, next.isSome → m.inside.2.firstWord? ≠ next := by
  induction slots with
  | nil => simp
  | slot id values ends below beside _ ihBeside =>
      rw [from?_slot] at h
      split at h
      · cases h
      · next htest =>
        intro m hm hnext hlead
        rcases List.mem_cons.mp hm with rfl | hm
        · apply htest
          rw [leadsTo, hnext, Bool.true_and, beq_iff_eq]
          exact hlead
        · exact ihBeside h m hm hnext hlead

/-- The insertion of a line enters a member with its first token. -/
theorem enters_grow (fresh : Nat) (ends : Int) (below : Slots) (t : Token) (more : List Token) :
    ∃ fresh', (grow true fresh (t :: more) (ends, below)).1 = ends ∧
      Enters t (more.head?.map Token.word) (grow true fresh' more) below.members
        (grow true fresh (t :: more) (ends, below)).2.members := by
  by_cases hmem : t.word ∈ below.words
  · obtain ⟨fresh', hgrow⟩ := grow_of_mem fresh ends more hmem
    obtain ⟨rest, hrest⟩ : ∃ rest, below.from? (holdsWord t.word) = some rest := by
      rw [← Option.isSome_iff_exists, Option.isSome_iff_ne_none, ne_eq, from?_holdsWord_eq_none_iff]
      exact not_not_intro hmem
    obtain ⟨htest, id, values, ends', below', beside, rfl⟩ := from?_eq_some hrest
    obtain ⟨before, after, hmembers, hchanged⟩ :=
      members_changeFrom hrest (Tree.countWord t.word) (grow true fresh' more)
    refine ⟨fresh', by rw [hgrow], ?_⟩
    rw [hgrow, hmembers, hchanged]
    exact .counted ((holdsWord_slot ..).mp htest)
  · have hword : t.word ∉ below.members.flatMap Member.words := by rwa [flatMap_words]
    cases hrest : below.from? (leadsTo (more.head?.map Token.word)) with
    | some rest =>
        obtain ⟨fresh', hgrow⟩ := grow_of_leadsTo fresh ends hmem hrest
        obtain ⟨htest, id, values, ends', below', beside, rfl⟩ := from?_eq_some hrest
        obtain ⟨before, after, hmembers, hchanged⟩ :=
          members_changeFrom hrest (· ++ [{ t with occurs := 1 }]) (grow true fresh' more)
        rw [leadsTo, Bool.and_eq_true, beq_iff_eq] at htest
        refine ⟨fresh', by rw [hgrow], ?_⟩
        rw [hmembers] at hword
        rw [hgrow, hmembers, hchanged]
        exact .joined hword htest.1 htest.2
    | none =>
        obtain ⟨fresh', hgrow⟩ := grow_of_opens fresh ends hmem hrest
        refine ⟨fresh', by rw [hgrow], ?_⟩
        rw [hgrow, members_append]
        exact .opened hword (firstWord?_ne_of_from? hrest)

namespace Enters

variable {members members' : List Member} {m' : Member} {t : Token} {next : Option String}
  {grown : Int × Slots → Int × Slots}

theorem perm_words (h : Enters t next grown members members') :
    (t.word ∈ members.flatMap Member.words ∧
        (members'.flatMap Member.words).Perm (members.flatMap Member.words)) ∨
      (t.word ∉ members.flatMap Member.words ∧
        (members'.flatMap Member.words).Perm (members.flatMap Member.words ++ [t.word])) := by
  cases h with
  | @counted before after values inside hword =>
      left
      simp only [List.flatMap_append, List.flatMap_cons, Member.words, map_word_countWord]
      exact ⟨by simp [hword], List.Perm.refl _⟩
  | @joined before after values inside hword =>
      refine .inr ⟨hword, ?_⟩
      simp only [List.flatMap_append, List.flatMap_cons, Member.words, List.map_append,
        List.map_cons, List.map_nil, List.append_assoc]
      exact (List.perm_append_comm.append_left _).append_left _
  | opened hword =>
      refine .inr ⟨hword, ?_⟩
      rw [List.flatMap_append]
      exact List.Perm.refl _

theorem mem_words_iff (h : Enters t next grown members members') (w : String) :
    w ∈ members'.flatMap Member.words ↔ w ∈ members.flatMap Member.words ∨ w = t.word := by
  rcases h.perm_words with ⟨hword, hperm⟩ | ⟨-, hperm⟩
  · rw [hperm.mem_iff]
    refine ⟨.inl, ?_⟩
    rintro (hw | rfl)
    · exact hw
    · exact hword
  · rw [hperm.mem_iff, List.mem_append, List.mem_singleton]

theorem nodup_words (h : Enters t next grown members members')
    (hnodup : (members.flatMap Member.words).Nodup) : (members'.flatMap Member.words).Nodup := by
  rcases h.perm_words with ⟨-, hperm⟩ | ⟨hword, hperm⟩
  · exact hperm.nodup_iff.mpr hnodup
  · rw [hperm.nodup_iff, ← List.concat_eq_append, List.nodup_concat]
    exact ⟨hword, hnodup⟩

/-- After a member has been entered, each member is an old one without the word, or the one that was
entered and holds it. -/
theorem cases_member (h : Enters t next grown members members')
    (hnodup : (members.flatMap Member.words).Nodup) (hm' : m' ∈ members') :
    (m' ∈ members ∧ t.word ∉ m'.words) ∨
      (∃ m ∈ members, t.word ∈ m.words ∧
        m' = ⟨Tree.countWord t.word m.values, grown m.inside⟩) ∨
      (t.word ∉ members.flatMap Member.words ∧ ∃ m ∈ members,
        (next.isSome ∧ m.inside.2.firstWord? = next) ∧
          m' = ⟨m.values ++ [{ t with occurs := 1 }], grown m.inside⟩) ∨
      (t.word ∉ members.flatMap Member.words ∧ m' = ⟨[t], grown (0, nil)⟩) := by
  have hother : ∀ {ms : List Member}, t.word ∉ ms.flatMap Member.words → m' ∈ ms →
      t.word ∉ m'.words :=
    fun hnot hmem hword => hnot (List.mem_flatMap_of_mem hmem hword)
  cases h with
  | @counted before after values inside hword =>
      rw [List.flatMap_append, List.flatMap_cons] at hnodup
      rcases List.mem_append.mp hm' with hm' | hm'
      · refine .inl ⟨List.mem_append_left _ hm', hother ?_ hm'⟩
        intro hmem
        exact (List.nodup_append.mp hnodup).2.2 _ hmem _ (List.mem_append_left _ hword) rfl
      · rcases List.mem_cons.mp hm' with rfl | hm'
        · exact .inr (.inl ⟨⟨values, inside⟩, by simp, hword, rfl⟩)
        · refine .inl ⟨by simp [hm'], hother ?_ hm'⟩
          intro hmem
          exact (List.nodup_append.mp (List.nodup_append.mp hnodup).2.1).2.2 _ hword _ hmem rfl
  | @joined before after values inside hword hnext hlead =>
      by_cases heq : m' = ⟨values ++ [{ t with occurs := 1 }], grown inside⟩
      · exact .inr (.inr (.inl ⟨hword, ⟨values, inside⟩, by simp, ⟨hnext, hlead⟩, heq⟩))
      · have hold : m' ∈ before ++ ⟨values, inside⟩ :: after := by
          simp only [List.mem_append, List.mem_cons, heq, false_or] at hm' ⊢
          exact hm'.imp_right .inr
        exact .inl ⟨hold, hother hword hold⟩
  | opened hword =>
      rcases List.mem_append.mp hm' with hm' | hm'
      · exact .inl ⟨hm', hother hword hm'⟩
      · exact .inr (.inr (.inr ⟨hword, List.mem_singleton.mp hm'⟩))

end Enters

end LogMining.Slots
