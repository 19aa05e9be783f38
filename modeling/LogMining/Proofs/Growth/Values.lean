import LogMining.Proofs.Growth.Line

/-!
# The values of all slots

`slots.All P` says `P` of the values of every slot of a chain and of what is below it. The insertion of a
line puts tokens of the line into slots and counts others, so what is true of every value stays true if
counting does not change it.
-/

namespace LogMining

namespace Slots

/-- The values of all slots are such as `P` says. -/
def All (P : List Token → Prop) : Slots → Prop
  | nil => True
  | slot _ values _ below beside => P values ∧ below.All P ∧ beside.All P

/-- The slots, each with its number and its values, in the order of a walk. -/
def entries : Slots → List (Nat × List Token)
  | nil => []
  | slot id values _ below beside => (id, values) :: (below.entries ++ beside.entries)

variable {P : List Token → Prop} {slots rest : Slots} {id : Nat} {values : List Token} {ends : Int}
  {below beside : Slots}

@[simp] theorem entries_nil : nil.entries = [] := rfl

@[simp] theorem entries_slot (id : Nat) (values : List Token) (ends : Int) (below beside : Slots) :
    (slot id values ends below beside).entries = (id, values) :: (below.entries ++ beside.entries) :=
  rfl

theorem all_slot : (slot id values ends below beside).All P ↔
    P values ∧ below.All P ∧ beside.All P := Iff.rfl

theorem all_iff : slots.All P ↔ ∀ e ∈ slots.entries, P e.2 := by
  induction slots with
  | nil => simp [All]
  | slot id values ends below beside ihBelow ihBeside =>
      rw [all_slot, ihBelow, ihBeside, entries_slot, List.forall_mem_cons, List.forall_mem_append]

theorem map_entries (slots : Slots) : slots.entries.map Prod.fst = slots.ids := by
  induction slots with
  | nil => rfl
  | slot id values ends below beside ihBelow ihBeside =>
      rw [entries_slot, List.map_cons, List.map_append, ihBelow, ihBeside, ids_slot]

theorem Proper.all (h : slots.Proper) :
    slots.All fun values => values ≠ [] ∧ (values.map Token.word).Nodup := by
  induction slots with
  | nil => trivial
  | slot id values ends below beside ihBelow ihBeside =>
      exact ⟨⟨h.1, h.2.1⟩, ihBelow h.2.2.1, ihBeside h.2.2.2⟩

theorem All.changeFrom {test : Slots → Bool} {change : Slots → Slots} (h : slots.All P)
    (hchange : ∀ rest, slots.from? test = some rest → rest.All P → (change rest).All P) :
    (slots.changeFrom test change).All P := by
  induction slots with
  | nil => exact h
  | slot id values ends below beside _ ihBeside =>
      rw [changeFrom_slot]
      rw [from?_slot] at hchange
      split
      · next htest => exact hchange _ (if_pos htest) h
      · next htest =>
        refine ⟨h.1, h.2.1, ihBeside h.2.2 fun rest hrest => ?_⟩
        exact hchange rest ((if_neg htest).trans hrest)

theorem All.append {more : Slots} (h : slots.All P) (hmore : more.All P) :
    (slots.append more).All P := by
  induction slots with
  | nil => exact hmore
  | slot id values ends below beside _ ihBeside => exact ⟨h.1, h.2.1, ihBeside h.2.2⟩

theorem All.mapValues {change : List Token → List Token} (h : slots.All P)
    (hchange : ∀ values, P values → P (change values)) : (slots.mapValues change).All P := by
  cases slots with
  | nil => exact h
  | slot id values ends below beside => exact ⟨hchange values h.1, h.2⟩

variable {Q : Token → Prop} {t : Token} {tokens : List Token}

theorem forall_mem_countWord (hcount : ∀ t, Q t → Q { t with occurs := t.occurs + 1 }) {word : String}
    (h : ∀ t ∈ values, Q t) : ∀ t ∈ Tree.countWord word values, Q t := by
  induction values with
  | nil => exact h
  | cons u values ih =>
      obtain ⟨hu, hrest⟩ := List.forall_mem_cons.mp h
      rw [Tree.countWord]
      split
      · exact List.forall_mem_cons.mpr ⟨hcount u hu, hrest⟩
      · exact List.forall_mem_cons.mpr ⟨hu, ih hrest⟩

theorem All.place (hcount : ∀ t, Q t → Q { t with occurs := t.occurs + 1 })
    (hone : ∀ t, Q t → Q { t with occurs := 1 }) (h : slots.All fun values => ∀ t ∈ values, Q t)
    (fresh : Nat) (ht : Q t) (next : Option String) :
    (slots.place fresh t next).All fun values => ∀ t ∈ values, Q t := by
  rw [Slots.place]
  split
  · exact h.changeFrom fun rest _ hrest => hrest.mapValues fun _ => forall_mem_countWord hcount
  · split
    · refine h.changeFrom fun rest _ hrest => hrest.mapValues fun values hvalues => ?_
      exact List.forall_mem_append.mpr ⟨hvalues, List.forall_mem_singleton.mpr (hone t ht)⟩
    · exact h.append ⟨List.forall_mem_singleton.mpr ht, trivial, trivial⟩

/-- What is true of every value and of every token of a line, and stays true when a token is counted, is
true of every value when the line has been inserted. -/
theorem All.grow (hcount : ∀ t, Q t → Q { t with occurs := t.occurs + 1 })
    (hone : ∀ t, Q t → Q { t with occurs := 1 }) (h : below.All fun values => ∀ t ∈ values, Q t)
    (ended : Bool) (fresh : Nat) (htokens : ∀ t ∈ tokens, Q t) (ends : Int) :
    (grow ended fresh tokens (ends, below)).2.All fun values => ∀ t ∈ values, Q t := by
  induction tokens generalizing fresh ends below with
  | nil => exact h
  | cons t more ih =>
      obtain ⟨ht, hrest⟩ := List.forall_mem_cons.mp htokens
      by_cases hmore : more ≠ [] ∨ ended = true
      · rw [grow_cons _ _ _ hmore]
        refine (h.place hcount hone fresh ht _).changeFrom fun rest _ hplaced => ?_
        cases rest with
        | nil => exact hplaced
        | slot id values ends' below' beside => exact ⟨hplaced.1, ih hplaced.2.1 _ hrest _, hplaced.2.2⟩
      · obtain ⟨rfl, rfl⟩ : more = [] ∧ ended = false := by simpa using hmore
        exact h

end Slots

namespace Tree

variable {tree : Tree} {parent : Option NodeId} {slots : Slots} {n : Nat} {values : List Token}

theorem exists_node_of_mem_entries (h : tree.Spells parent slots) (hmem : (n, values) ∈ slots.entries) :
    ∃ node, tree.get? n = some node ∧ node.values = values := by
  induction slots generalizing parent with
  | nil => simp at hmem
  | slot id values' ends below beside ihBelow ihBeside =>
      simp only [Slots.entries_slot, List.mem_cons, List.mem_append] at hmem
      rcases hmem with heq | hmem | hmem
      · cases heq
        exact ⟨_, h.1, rfl⟩
      · exact ihBelow h.2.1 hmem
      · exact ihBeside h.2.2 hmem

theorem Comprises.mem_entries {ends : Int} {below : Slots} {node : Node}
    (h : tree.Comprises ends below) (hnode : tree.get? n = some node) (hn : n ≠ 0) :
    (n, node.values) ∈ below.entries := by
  have hmem := mem_below_ids h hnode hn
  rw [← Slots.map_entries] at hmem
  obtain ⟨⟨m, values⟩, hentry, rfl⟩ := List.mem_map.mp hmem
  obtain ⟨node', hnode', rfl⟩ := exists_node_of_mem_entries h.holds.below.spells hentry
  cases hnode.symm.trans hnode'
  exact hentry

end Tree

end LogMining
