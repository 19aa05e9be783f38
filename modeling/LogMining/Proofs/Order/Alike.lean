import LogMining.Proofs.Growth.Members
import Mathlib.Data.List.Perm.Basic

/-!
# Trees that are equal up to order

`Slots.Alike` relates two chains of which one becomes the other when the slots of a chain are exchanged,
there or anywhere below, and the values of a slot. What stays is the nesting, the words of each slot with
their counts, and the line ends. The numbers of the slots are of no account.
-/

namespace LogMining

def Token.counted (t : Token) : String × Int := (t.word, t.occurs)

namespace Slots

/-- Two chains are equal up to the order of their slots and of the values of a slot. -/
inductive Alike : Slots → Slots → Prop
  | nil : Alike nil nil
  | slot {id id' : Nat} {values values' : List Token} {ends : Int}
      {below below' beside beside' : Slots}
      (hvalues : (values.map Token.counted).Perm (values'.map Token.counted))
      (hbelow : Alike below below') (hbeside : Alike beside beside') :
      Alike (slot id values ends below beside) (slot id' values' ends below' beside')
  | swap {id id' : Nat} {values values' : List Token} {ends ends' : Int}
      {below below' beside : Slots} :
      Alike (slot id values ends below (slot id' values' ends' below' beside))
        (slot id' values' ends' below' (slot id values ends below beside))
  | trans {first second third : Slots} (hleft : Alike first second) (hright : Alike second third) :
      Alike first third

/-- Two slots have the same counts and are alike below. -/
structure Member.Alike (m m' : Member) : Prop where
  values : (m.values.map Token.counted).Perm (m'.values.map Token.counted)
  ends : m.inside.1 = m'.inside.1
  below : Slots.Alike m.inside.2 m'.inside.2

variable {slots slots' : Slots}

theorem Alike.refl (slots : Slots) : Alike slots slots := by
  induction slots with
  | nil => exact .nil
  | slot id values ends below beside ihBelow ihBeside =>
      exact .slot (List.Perm.refl _) ihBelow ihBeside

theorem Alike.symm (h : Alike slots slots') : Alike slots' slots := by
  induction h with
  | nil => exact .nil
  | slot values _ _ ihBelow ihBeside => exact .slot values.symm ihBelow ihBeside
  | swap => exact .swap
  | trans _ _ ihLeft ihRight => exact ihRight.trans ihLeft

namespace Member

theorem Alike.refl (m : Member) : m.Alike m := ⟨List.Perm.refl _, rfl, Slots.Alike.refl _⟩

theorem Alike.trans {m m' m'' : Member} (h : m.Alike m') (h' : m'.Alike m'') : m.Alike m'' :=
  ⟨h.values.trans h'.values, h.ends.trans h'.ends, h.below.trans h'.below⟩

theorem Alike.perm_words {m m' : Member} (h : m.Alike m') : m.words.Perm m'.words := by
  have hwords := h.values.map Prod.fst
  rwa [List.map_map, List.map_map] at hwords

end Member

theorem Alike.exists_member (h : Alike slots slots') :
    ∀ m ∈ slots.members, ∃ m' ∈ slots'.members, m.Alike m' := by
  induction h with
  | nil => simp
  | slot hvalues hbelow _ _ ihBeside =>
      intro m hm
      rcases List.mem_cons.mp hm with rfl | hm
      · exact ⟨_, List.mem_cons_self, hvalues, rfl, hbelow⟩
      · obtain ⟨m', hm', halike⟩ := ihBeside m hm
        exact ⟨m', List.mem_cons_of_mem _ hm', halike⟩
  | swap =>
      intro m hm
      refine ⟨m, ?_, Member.Alike.refl m⟩
      simp only [members_slot, List.mem_cons] at hm ⊢
      exact or_left_comm.mp hm
  | trans _ _ ihLeft ihRight =>
      intro m hm
      obtain ⟨m', hm', halike⟩ := ihLeft m hm
      obtain ⟨m'', hm'', halike'⟩ := ihRight m' hm'
      exact ⟨m'', hm'', halike.trans halike'⟩

theorem exists_alike_front {m : Member} (h : m ∈ slots.members) :
    ∃ id rest, Alike slots (slot id m.values m.inside.1 m.inside.2 rest) ∧
      slots.members.Perm (m :: rest.members) := by
  induction slots with
  | nil => simp at h
  | slot id values ends below beside _ ihBeside =>
      rcases List.mem_cons.mp h with rfl | h
      · exact ⟨id, beside, Alike.refl _, List.Perm.refl _⟩
      · obtain ⟨id', rest, halike, hperm⟩ := ihBeside h
        refine ⟨id', slot id values ends below rest, ?_, ?_⟩
        · exact (Alike.slot (List.Perm.refl _) (Alike.refl _) halike).trans .swap
        · exact (hperm.cons _).trans (List.Perm.swap ..)

/-- Chains with the same words, none of them twice, are alike if each slot of the one has its like in the
other. -/
theorem alike_of_members (hwords : slots.words.Perm slots'.words) (hnodup : slots.words.Nodup)
    (hne : ∀ m ∈ slots.members, m.values ≠ []) (hne' : ∀ m ∈ slots'.members, m.values ≠ [])
    (h : ∀ m ∈ slots.members, ∃ m' ∈ slots'.members, m.Alike m') : Alike slots slots' := by
  induction slots generalizing slots' with
  | nil =>
      cases slots' with
      | nil => exact .nil
      | slot id values ends below beside =>
          have hnil : values = [] ∧ beside.words = [] := by simpa using hwords
          exact absurd hnil.1 (hne' _ List.mem_cons_self)
  | slot id values ends below beside _ ihBeside =>
      obtain ⟨m, hm, halike⟩ := h _ List.mem_cons_self
      obtain ⟨id', rest, hfront, hperm⟩ := exists_alike_front hm
      have hrest : beside.words.Perm rest.words := by
        have hsplit : slots'.words.Perm (m.words ++ rest.words) := by
          rw [← flatMap_words, ← flatMap_words]
          exact hperm.flatMap_right Member.words
        have hhead := halike.perm_words.append_right rest.words
        exact (List.perm_append_left_iff _).mp ((hwords.trans hsplit).trans hhead.symm)
      obtain ⟨-, hbeside, hdisjoint⟩ := List.nodup_append.mp hnodup
      refine .trans (.slot halike.values halike.below ?_) (halike.ends ▸ hfront.symm)
      refine ihBeside hrest hbeside (fun n hn => hne n (List.mem_cons_of_mem _ hn))
        (fun n hn => hne' n (hperm.symm.subset (List.mem_cons_of_mem m hn))) ?_
      intro n hn
      obtain ⟨n', hn', halike'⟩ := h n (List.mem_cons_of_mem _ hn)
      rcases List.mem_cons.mp (hperm.subset hn') with rfl | hn'
      · -- the like of the first slot is taken, since its words are not in another slot
        obtain ⟨t, ht⟩ := List.exists_mem_of_ne_nil _ (hne n (List.mem_cons_of_mem _ hn))
        have hword : t.word ∈ n.words := List.mem_map_of_mem ht
        have hhead := (halike'.perm_words.trans halike.perm_words.symm).subset hword
        have htail : t.word ∈ beside.words := by
          rw [← flatMap_words]
          exact List.mem_flatMap_of_mem hn hword
        exact absurd rfl (hdisjoint _ hhead _ htail)
      · exact ⟨n', hn', halike'⟩

end Slots

end LogMining
