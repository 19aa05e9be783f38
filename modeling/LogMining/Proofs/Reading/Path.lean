import LogMining.Proofs.Slots.Read
import Mathlib.Data.String.Basic

/-!
# The texts that a tree describes

A path goes from the root down to a node without children, and on every node of it one value is chosen.
`Tree.Chooses` are the words that are chosen below a node, `Slots.Along` and `Slots.Down` the same for
slots. Joined by single spaces the words are the text of the path; `Slots.Describes` are the texts of a
chain and `Slots.After` what may follow a word, with the gap between the word and what comes next.
-/

namespace LogMining

/-- Words that are chosen one per node on the way from a node, which is left out, down to a node without
children. -/
inductive Tree.Chooses (tree : Tree) : NodeId → List String → Prop
  | leaf {id : NodeId} (h : tree.children id = .ok []) : Chooses tree id []
  | next {id child : NodeId} {ids : List NodeId} {node : Node} {t : Token} {words : List String}
      (hids : tree.children id = .ok ids) (hchild : child ∈ ids)
      (hnode : tree.node child = .ok node) (ht : t ∈ node.values)
      (rest : Chooses tree child words) : Chooses tree id (t.word :: words)

def pathText (words : List String) : String := " ".intercalate words

theorem pathText_cons (word : String) {words : List String} (h : words ≠ []) :
    pathText (word :: words) = word ++ " " ++ pathText words :=
  String.intercalate_cons_of_ne_nil h

namespace Slots

/-- Words that are chosen one per slot on the way from one of the slots of a chain down to a slot with
nothing below it. -/
def Along : Slots → List String → Prop
  | nil, _ => False
  | slot _ values _ below beside, words =>
    (∃ t ∈ values, ∃ rest, words = t.word :: rest ∧ (below = nil ∧ rest = [] ∨ below.Along rest)) ∨
      beside.Along words

def Down (below : Slots) (words : List String) : Prop :=
  below = nil ∧ words = [] ∨ below.Along words

theorem along_slot {id : Nat} {values : List Token} {ends : Int} {below beside : Slots}
    {words : List String} :
    (slot id values ends below beside).Along words ↔
      (∃ t ∈ values, ∃ rest, words = t.word :: rest ∧ below.Down rest) ∨ beside.Along words :=
  Iff.rfl

theorem Along.ne_nil {slots : Slots} {words : List String} (h : slots.Along words) :
    words ≠ [] := by
  induction slots with
  | nil => exact absurd h id
  | slot id values ends below beside _ ihBeside =>
      rcases along_slot.mp h with ⟨t, -, rest, rfl, -⟩ | h
      · exact List.cons_ne_nil _ _
      · exact ihBeside h

/-- The texts of the paths through a chain. -/
def Describes (slots : Slots) (text : String) : Prop :=
  ∃ words, slots.Along words ∧ pathText words = text

/-- What may come after a word: nothing if there is nothing below its slot, else the gap and a text of
the chain there. -/
def After (gap : String) (below : Slots) (text : String) : Prop :=
  below = nil ∧ text = "" ∨ ∃ rest, below.Describes rest ∧ text = gap ++ rest

theorem not_describes_nil (text : String) : ¬nil.Describes text := by
  rintro ⟨words, hwords, -⟩
  exact hwords

theorem describes_slot {id : Nat} {values : List Token} {ends : Int} {below beside : Slots}
    {text : String} :
    (slot id values ends below beside).Describes text ↔
      (∃ t ∈ values, ∃ rest, below.After " " rest ∧ text = t.word ++ rest) ∨
        beside.Describes text := by
  constructor
  · rintro ⟨words, hwords, rfl⟩
    rcases along_slot.mp hwords with ⟨t, ht, rest, rfl, hrest⟩ | hwords
    · refine .inl ⟨t, ht, ?_⟩
      rcases hrest with ⟨rfl, rfl⟩ | hrest
      · exact ⟨"", .inl ⟨rfl, rfl⟩, by simp [pathText]⟩
      · refine ⟨" " ++ pathText rest, .inr ⟨_, ⟨rest, hrest, rfl⟩, rfl⟩, ?_⟩
        rw [pathText_cons _ hrest.ne_nil, String.append_assoc]
    · exact .inr ⟨words, hwords, rfl⟩
  · rintro (⟨t, ht, rest, hrest, rfl⟩ | ⟨words, hwords, rfl⟩)
    · rcases hrest with ⟨rfl, rfl⟩ | ⟨_, ⟨words, hwords, rfl⟩, rfl⟩
      · exact ⟨[t.word], .inl ⟨t, ht, [], rfl, .inl ⟨rfl, rfl⟩⟩, by simp [pathText]⟩
      · refine ⟨t.word :: words, .inl ⟨t, ht, words, rfl, .inr hwords⟩, ?_⟩
        rw [pathText_cons _ hwords.ne_nil, String.append_assoc]
    · exact ⟨words, .inr hwords, rfl⟩

end Slots

namespace Tree

variable {tree : Tree} {parent : Option NodeId} {slots : Slots}

theorem exists_slot_of_mem_chain (h : tree.Holds parent slots) {child : NodeId}
    (hchild : child ∈ slots.chain) :
    ∃ id values ends below beside, child = ((id : Nat) : Int) ∧
      tree.Holds parent (.slot id values ends below beside) ∧
      ∀ t ∈ values, ∀ words, below.Down words → slots.Along (t.word :: words) := by
  induction slots with
  | nil => simp at hchild
  | slot id values ends below beside _ ihBeside =>
      rw [Slots.chain_slot, List.mem_cons] at hchild
      rcases hchild with rfl | hchild
      · refine ⟨id, values, ends, below, beside, rfl, h, ?_⟩
        intro t ht words hwords
        exact .inl ⟨t, ht, words, rfl, hwords⟩
      · obtain ⟨id', values', ends', below', beside', rfl, hslot, halong⟩ :=
          ihBeside h.beside hchild
        refine ⟨id', values', ends', below', beside', rfl, hslot, ?_⟩
        intro t ht words hwords
        exact .inr (halong t ht words hwords)

/-- The words of a path through a chain are chosen below every node among whose children the chain
is. -/
theorem chooses_of_along {words : List String} (hwords : slots.Along words)
    (h : tree.Holds parent slots) {id : NodeId} {ids : List NodeId}
    (hids : tree.children id = .ok ids) (hsub : slots.chain ⊆ ids) : tree.Chooses id words := by
  induction slots generalizing parent id ids words with
  | nil => exact absurd hwords (by simp [Slots.Along])
  | slot n values ends below beside ihBelow ihBeside =>
      rcases Slots.along_slot.mp hwords with ⟨t, ht, rest, rfl, hrest⟩ | hwords
      · have hchildren := children_eq h
        have hmem : (n : Int) ∈ ids := hsub (by simp)
        refine .next hids hmem (node_of_get? h.spells.1) ht ?_
        rcases hrest with ⟨rfl, rfl⟩ | hrest
        · exact .leaf hchildren
        · exact ihBelow hrest h.below hchildren (List.Subset.refl _)
      · exact ihBeside hwords h.beside hids fun m hm => hsub (List.mem_cons_of_mem _ hm)

theorem chooses_iff {id : Nat} {values : List Token} {ends : Int} {below beside : Slots}
    (h : tree.Holds parent (.slot id values ends below beside)) {words : List String} :
    tree.Chooses id words ↔ below.Down words := by
  constructor
  · intro hchooses
    generalize hid : (id : Int) = node at hchooses
    induction hchooses generalizing parent id values ends below beside with
    | leaf hleaf =>
        subst hid
        rw [children_eq h] at hleaf
        cases below with
        | nil => exact .inl ⟨rfl, rfl⟩
        | slot id' values' ends' below' beside' => simp at hleaf
    | next hids hchild hnode ht _ ih =>
        subst hid
        rw [children_eq h] at hids
        cases hids
        obtain ⟨id', values', ends', below', beside', rfl, hslot, halong⟩ :=
          exists_slot_of_mem_chain h.below hchild
        rw [node_of_get? hslot.spells.1] at hnode
        cases hnode
        exact .inr (halong _ ht _ (ih hslot rfl))
  · rintro (⟨rfl, rfl⟩ | hwords)
    · exact .leaf (children_eq h)
    · exact chooses_of_along hwords h.below (children_eq h) (List.Subset.refl _)

end Tree

end LogMining
