import LogMining.Tree.Basic
import Mathlib.Data.List.Nodup

/-!
# Slots as nested data

A tree keeps its nodes in one array and links them by number. `Slots` is the same tree with the
links followed: a chain of slots, each with the chain below it and the chain that goes on beside it.
The numbers of the nodes stay with the slots, so that a chain can be compared with the array it was
read from.

The recursion of every definition here is that of the type, first below and then beside, which is
also the order in which the operations on trees follow the links.
-/

namespace LogMining

/-- A chain of slots, with the number, the values and the line ends of each. -/
inductive Slots where
  | nil
  | slot (id : Nat) (values : List Token) (lineEnds : Int) (below beside : Slots)
deriving DecidableEq, Repr

namespace Slots

def first : Slots → Option NodeId
  | nil => none
  | slot id _ _ _ _ => some (id : Int)

/-- The word under which a chain is looked up, which is the first word of its first slot. -/
def firstWord? : Slots → Option String
  | slot _ (t :: _) _ _ _ => some t.word
  | _ => none

/-- The numbers of all slots, in the order of a walk. -/
def ids : Slots → List Nat
  | nil => []
  | slot id _ _ below beside => id :: (below.ids ++ beside.ids)

def chain : Slots → List NodeId
  | nil => []
  | slot id _ _ _ beside => (id : Int) :: beside.chain

def words : Slots → List String
  | nil => []
  | slot _ values _ _ beside => values.map Token.word ++ beside.words

/-- Every slot has a value, and no word twice. -/
def Proper : Slots → Prop
  | nil => True
  | slot _ values _ below beside =>
    values ≠ [] ∧ (values.map Token.word).Nodup ∧ below.Proper ∧ beside.Proper

@[simp] theorem first_nil : nil.first = none := rfl

@[simp] theorem first_slot (id : Nat) (values : List Token) (ends : Int) (below beside : Slots) :
    (slot id values ends below beside).first = some (id : Int) := rfl

@[simp] theorem ids_nil : nil.ids = [] := rfl

@[simp] theorem ids_slot (id : Nat) (values : List Token) (ends : Int) (below beside : Slots) :
    (slot id values ends below beside).ids = id :: (below.ids ++ beside.ids) := rfl

@[simp] theorem chain_nil : nil.chain = [] := rfl

@[simp] theorem chain_slot (id : Nat) (values : List Token) (ends : Int) (below beside : Slots) :
    (slot id values ends below beside).chain = (id : Int) :: beside.chain := rfl

@[simp] theorem words_nil : nil.words = [] := rfl

@[simp] theorem words_slot (id : Nat) (values : List Token) (ends : Int) (below beside : Slots) :
    (slot id values ends below beside).words = values.map Token.word ++ beside.words := rfl

@[simp] theorem proper_nil : nil.Proper := trivial

@[simp] theorem proper_slot (id : Nat) (values : List Token) (ends : Int) (below beside : Slots) :
    (slot id values ends below beside).Proper ↔
      values ≠ [] ∧ (values.map Token.word).Nodup ∧ below.Proper ∧ beside.Proper :=
  Iff.rfl

theorem first_eq_none_iff (slots : Slots) : slots.first = none ↔ slots = nil := by
  cases slots <;> simp

theorem length_chain_le (slots : Slots) : slots.chain.length ≤ slots.ids.length := by
  induction slots with
  | nil => simp
  | slot id values ends below beside _ ihBeside =>
      simp only [chain_slot, ids_slot, List.length_cons, List.length_append]
      omega

theorem mem_ids_of_mem_chain (slots : Slots) {n : Nat} (h : (n : Int) ∈ slots.chain) : n ∈ slots.ids := by
  induction slots with
  | nil => simp at h
  | slot id values ends below beside _ ihBeside =>
      rw [chain_slot, List.mem_cons] at h
      rw [ids_slot, List.mem_cons, List.mem_append]
      rcases h with h | h
      · exact .inl (Int.ofNat.inj h)
      · exact .inr (.inr (ihBeside h))

theorem nodup_ids_slot {id : Nat} {values : List Token} {ends : Int} {below beside : Slots} :
    (slot id values ends below beside).ids.Nodup ↔
      id ∉ below.ids ∧ id ∉ beside.ids ∧ below.ids.Nodup ∧ beside.ids.Nodup ∧
        ∀ n ∈ below.ids, n ∉ beside.ids := by
  simp only [ids_slot, List.nodup_cons, List.mem_append, not_or, List.nodup_append, ne_eq]
  constructor
  · rintro ⟨⟨hBelow, hBeside⟩, hb, hs, h⟩
    exact ⟨hBelow, hBeside, hb, hs, fun n hn hn' => h n hn n hn' rfl⟩
  · rintro ⟨hBelow, hBeside, hb, hs, h⟩
    exact ⟨⟨hBelow, hBeside⟩, hb, hs, fun n hn m hm hnm => h n hn (hnm ▸ hm)⟩

end Slots

end LogMining
