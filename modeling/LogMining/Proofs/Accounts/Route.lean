import LogMining.Proofs.Accounts.Tally

/-!
# The route of a line

A line is followed from a node by going to the one child that holds its first word, and on from there with
the rest of the line. `Tree.route` are the nodes that are reached. In slots the child is the first one that
holds the word, which is the only one as long as no word is in two slots of a chain.
-/

namespace LogMining

namespace Tree

def holdsWord (tree : Tree) (word : String) (id : NodeId) : Bool :=
  match tree.node id with
  | .ok node => (node.value? word).isSome
  | .error _ => false

def holders (tree : Tree) (id : NodeId) (word : String) : List NodeId :=
  match tree.children id with
  | .ok ids => ids.filter (tree.holdsWord word)
  | .error _ => []

/-- The nodes to which the words of a line lead from a node, each the only child that holds the word.
Where there is no such child the route ends. -/
def route (tree : Tree) : NodeId → List String → List NodeId
  | _, [] => []
  | id, word :: words =>
    match tree.holders id word with
    | [child] => child :: tree.route child words
    | _ => []

/-- Whether a line, followed from the root, passes a node at a word. -/
def passes (tree : Tree) (id : NodeId) (word : String) (line : List String) : Bool :=
  (tree.route root line).zip line |>.contains (id, word)

/-- Whether a line, followed from the root, ends at a node. -/
def endsAt (tree : Tree) (id : NodeId) (line : List String) : Bool :=
  (root :: tree.route root line).getLast? == some id

end Tree

namespace Slots

/-- The slots to which the words of a line lead. -/
def route : Slots → List String → List NodeId
  | _, [] => []
  | slots, word :: words =>
    match slots.from? (holdsWord word) with
    | some (slot id _ _ below _) => (id : Int) :: below.route words
    | _ => []

def Distinct : Slots → Prop
  | nil => True
  | slot _ _ _ below beside => below.words.Nodup ∧ below.Distinct ∧ beside.Distinct

variable {id : Nat} {values : List Token} {ends : Int} {below beside : Slots}

@[simp] theorem route_nil (slots : Slots) : slots.route [] = [] := by
  cases slots <;> rfl

@[simp] theorem nil_route (line : List String) : nil.route line = [] := by
  cases line <;> rfl

theorem route_slot (id : Nat) (values : List Token) (ends : Int) (below beside : Slots)
    (word : String) (words : List String) :
    (slot id values ends below beside).route (word :: words) =
      if word ∈ values.map Token.word then (id : Int) :: below.route words
      else beside.route (word :: words) := by
  rw [route, from?_slot]
  split
  · next heq =>
    split at heq
    · next hholds =>
      cases heq
      rw [if_pos ((holdsWord_slot ..).mp hholds)]
    · next hholds =>
      rw [if_neg (mt (holdsWord_slot ..).mpr hholds), route, heq]
  · next hnone =>
    have hholds : ¬holdsWord word (slot id values ends below beside) = true := by
      intro hholds
      exact hnone id values ends below beside (if_pos hholds)
    rw [if_neg hholds] at hnone
    rw [if_neg (mt (holdsWord_slot ..).mpr hholds), route]
    split
    · next heq => exact absurd heq (hnone _ _ _ _ _)
    · rfl

theorem Tallies.distinct {slots : Slots} {lines : List (List String)} (h : slots.Tallies lines) :
    slots.Distinct := by
  induction slots generalizing lines with
  | nil => trivial
  | slot id values ends below beside ihBelow ihBeside =>
      obtain ⟨-, haccounts, hbeside⟩ := tallies_slot.mp h
      exact ⟨haccounts.covers.nodup, ihBelow haccounts.tallies, ihBeside hbeside⟩

theorem mem_ids_of_mem_route {slots : Slots} {line : List String} {id : NodeId}
    (h : id ∈ slots.route line) : ∃ n ∈ slots.ids, id = (n : Int) := by
  induction slots generalizing line with
  | nil => simp at h
  | slot n values ends below beside ihBelow ihBeside =>
      cases line with
      | nil => simp at h
      | cons word words =>
          rw [route_slot] at h
          split at h
          · rcases List.mem_cons.mp h with rfl | h
            · exact ⟨n, by simp, rfl⟩
            · obtain ⟨m, hm, rfl⟩ := ihBelow h
              exact ⟨m, by simp [hm], rfl⟩
          · obtain ⟨m, hm, rfl⟩ := ihBeside h
            exact ⟨m, by simp [hm], rfl⟩

theorem length_route {slots : Slots} {lines : List (List String)} (h : slots.Tallies lines)
    {line : List String} (hline : line ∈ lines) (hhead : ∀ w ∈ line.head?, w ∈ slots.words) :
    (slots.route line).length = line.length := by
  induction slots generalizing line lines with
  | nil =>
      cases line with
      | nil => rfl
      | cons word words => simp at hhead
  | slot id values ends below beside ihBelow ihBeside =>
      cases line with
      | nil => simp
      | cons word words =>
          obtain ⟨-, haccounts, hbeside⟩ := tallies_slot.mp h
          rw [route_slot]
          split
          · next hword =>
            have hmem := mem_through_iff.mpr ⟨word, hword, hline⟩
            rw [List.length_cons, List.length_cons, ihBelow haccounts.tallies hmem]
            intro w hw
            obtain ⟨rest, rfl⟩ := List.head?_eq_some_iff.mp hw
            exact haccounts.covers.mem w rest hmem
          · next hword =>
            refine ihBeside hbeside hline ?_
            intro w hw
            obtain rfl : word = w := by simpa using hw
            exact (List.mem_append.mp (hhead word rfl)).resolve_left hword

end Slots

namespace Tree

variable {tree : Tree} {parent : Option NodeId} {slots : Slots}

theorem holdsWord_eq {id : Nat} {values : List Token} {ends : Int} {below beside : Slots}
    (h : tree.Spells parent (.slot id values ends below beside)) (word : String) :
    tree.holdsWord word id = Slots.holdsWord word (.slot id values ends below beside) := by
  rw [holdsWord, node_of_get? h.1]
  rfl

theorem filter_holdsWord (h : tree.Holds parent slots) (hnodup : slots.words.Nodup)
    (word : String) :
    slots.chain.filter (tree.holdsWord word) =
      ((slots.from? (Slots.holdsWord word)).bind Slots.first).toList := by
  induction slots with
  | nil => rfl
  | slot id values ends below beside _ ihBeside =>
      have hrest := ihBeside h.beside (List.nodup_append.mp hnodup).2.1
      rw [Slots.chain_slot, List.filter_cons, holdsWord_eq h.spells, hrest, Slots.from?_slot]
      by_cases hholds : Slots.holdsWord word (.slot id values ends below beside) = true
      · have hnot : word ∉ beside.words := by
          intro hmem
          exact (List.nodup_append.mp hnodup).2.2 _ ((Slots.holdsWord_slot ..).mp hholds) _ hmem rfl
        rw [if_pos hholds, if_pos hholds, (Slots.from?_holdsWord_eq_none_iff ..).mpr hnot]
        rfl
      · rw [if_neg hholds, if_neg hholds]

theorem distinct_from? {test : Slots → Bool} {rest : Slots} (h : slots.Distinct)
    (hrest : slots.from? test = some rest) : rest.Distinct := by
  induction slots with
  | nil => simp at hrest
  | slot id values ends below beside _ ihBeside =>
      rw [Slots.from?_slot] at hrest
      split at hrest
      · cases hrest
        exact h
      · exact ihBeside h.2.2 hrest

theorem route_eq {id : Nat} {values : List Token} {ends : Int} {below beside : Slots}
    (h : tree.Holds parent (.slot id values ends below beside)) (hnodup : below.words.Nodup)
    (hdistinct : below.Distinct) (line : List String) : tree.route id line = below.route line := by
  induction line generalizing parent id values ends below beside with
  | nil => cases below <;> rfl
  | cons word words ih =>
      rw [route, holders, children_eq h]
      dsimp only
      rw [filter_holdsWord h.below hnodup, Slots.route]
      cases hrest : below.from? (Slots.holdsWord word) with
      | none => rfl
      | some rest =>
          obtain ⟨-, id', values', ends', below', beside', rfl⟩ := Slots.from?_eq_some hrest
          have hslot := distinct_from? hdistinct hrest
          rw [Option.bind_some, Slots.first_slot, Option.toList_some]
          dsimp only
          rw [ih (h.below.from? hrest) hslot.1 hslot.2.1]

end Tree

end LogMining
