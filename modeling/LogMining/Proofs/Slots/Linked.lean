import LogMining.Proofs.Slots.Read
import LogMining.Proofs.Slots.Whole

/-!
# Well-formed trees

The properties of the links of a tree that every operation relies on: a node is reached from the root in
one way only, its parent is the node in whose chain it stands, and a walk comes to it once. They are
stated for the links as they stand in the nodes, without reference to slots, and follow for a tree that
consists of slots.
-/

namespace LogMining

/-- The links from a node to its child and to its sibling. -/
def Node.links (node : Node) : List NodeId := node.child.toList ++ node.sibling.toList

namespace Tree

def numbers (tree : Tree) : List Nat :=
  (List.range tree.size).filter fun n => (tree.get? n).isSome

def linksAt (tree : Tree) (n : Nat) : List NodeId := (tree.get? n).elim [] Node.links

def links (tree : Tree) : List NodeId := tree.numbers.flatMap tree.linksAt

/-- The links of a tree make up a tree, and every node has values. -/
structure WellFormed (tree : Tree) : Prop where
  /-- The root has neither parent nor sibling. -/
  root : ∃ node, tree.get? 0 = some node ∧ node.parent = none ∧ node.sibling = none
  /-- No link leads to a node that is not there. -/
  linked : ∀ id ∈ tree.links, ∃ n ∈ tree.numbers, id = (n : Int)
  /-- One link leads to every node but the root, to which none leads. -/
  count_links : ∀ n ∈ tree.numbers, tree.links.count (n : Int) = if n = 0 then 0 else 1
  /-- A walk comes to every node once. -/
  walk : ∃ visits, tree.walk = .ok visits ∧
    (visits.map Prod.snd).Perm (tree.numbers.map Int.ofNat) ∧ visits.length = tree.live
  /-- The parent of a node is the one node among whose children it is. -/
  parent : ∀ n node, tree.get? n = some node → n ≠ 0 → ∃ p : Nat, node.parent = some (p : Int) ∧
    ∀ q : Nat, (∃ ids, tree.children q = .ok ids ∧ (n : Int) ∈ ids) ↔ q = p
  /-- A node has values, and no word twice. -/
  values : ∀ n node, tree.get? n = some node →
    node.values ≠ [] ∧ (node.values.map Token.word).Nodup

theorem mem_numbers {tree : Tree} {n : Nat} :
    n ∈ tree.numbers ↔ ∃ node, tree.get? n = some node := by
  rw [numbers, List.mem_filter, List.mem_range, Option.isSome_iff_exists]
  constructor
  · intro h
    exact h.2
  · intro h
    obtain ⟨node, hnode⟩ := h
    exact ⟨lt_size_of_get? hnode, node, hnode⟩

theorem nodup_numbers (tree : Tree) : tree.numbers.Nodup := List.nodup_range.filter _

theorem length_numbers (tree : Tree) : tree.numbers.length = tree.live := by
  have hnodes : tree.nodes.toList = (List.range tree.size).map tree.get? := by
    apply List.ext_getElem
    · simp [size]
    · intro n hn hn'
      simp [get?]
      rw [Array.getElem?_eq_getElem (by simpa using hn)]
      rfl
  rw [numbers, live, ← Array.countP_toList, hnodes, List.countP_map, ← List.countP_eq_length_filter]
  rfl

variable {tree : Tree} {parent : Option NodeId} {slots : Slots}

theorem linksAt_of_get? {n : Nat} {node : Node} (h : tree.get? n = some node) :
    tree.linksAt n = node.links := by
  rw [linksAt, h]
  rfl

/-- The links of slots, together with the one that leads to the first of them, lead to every slot
once. -/
theorem Spells.perm_links (h : tree.Spells parent slots) :
    (slots.first.toList ++ slots.ids.flatMap tree.linksAt).Perm (slots.ids.map Int.ofNat) := by
  induction slots generalizing parent with
  | nil => exact .nil
  | slot id values ends below beside ihBelow ihBeside =>
      have hrest := (ihBelow h.2.1).append (ihBeside h.2.2)
      rw [List.perm_iff_count] at hrest ⊢
      intro m
      have hcount := hrest m
      simp only [Slots.first_slot, Slots.ids_slot, List.flatMap_cons, List.flatMap_append,
        List.map_cons, List.map_append, linksAt_of_get? h.1, Node.links, List.count_append,
        Option.toList_some, List.count_cons, List.count_nil, Int.ofNat_eq_natCast] at hcount ⊢
      omega

theorem exists_get?_of_children {n : Nat} {ids : List NodeId} (h : tree.children n = .ok ids) :
    ∃ node, tree.get? n = some node := by
  rw [children] at h
  cases hnode : tree.node n with
  | error fault =>
      rw [hnode] at h
      cases h
  | ok node => exact ⟨node, node_eq_ok_iff.mp hnode⟩

/-- Every slot of a chain is read as a chain of its own, and stands in the chain or among the children
of another slot. -/
theorem Holds.exists_slot (h : tree.Holds parent slots) {n : Nat} (hn : n ∈ slots.ids) :
    ∃ parent' values ends below beside, tree.Holds parent' (.slot n values ends below beside) ∧
      (slots.Proper → (Slots.slot n values ends below beside).Proper) ∧
      (parent' = parent ∧ (n : Int) ∈ slots.chain ∨
        ∃ (p : Nat) (ids : List NodeId), parent' = some (p : Int) ∧ tree.children p = .ok ids ∧
          (n : Int) ∈ ids) := by
  induction slots generalizing parent with
  | nil => simp at hn
  | slot id values ends below beside ihBelow ihBeside =>
      simp only [Slots.ids_slot, List.mem_cons, List.mem_append] at hn
      rcases hn with rfl | hn | hn
      · exact ⟨parent, values, ends, below, beside, h, fun hproper => hproper, .inl ⟨rfl, by simp⟩⟩
      · obtain ⟨parent', values', ends', below', beside', hslot, hproper', hwhere⟩ := ihBelow h.below hn
        refine ⟨parent', values', ends', below', beside', hslot,
          fun hproper => hproper' hproper.2.2.1, .inr ?_⟩
        rcases hwhere with ⟨rfl, hchain⟩ | hwhere
        · exact ⟨id, below.chain, rfl, children_eq h, hchain⟩
        · exact hwhere
      · obtain ⟨parent', values', ends', below', beside', hslot, hproper', hwhere⟩ := ihBeside h.beside hn
        refine ⟨parent', values', ends', below', beside', hslot, fun hproper => hproper' hproper.2.2.2, ?_⟩
        exact hwhere.imp_left fun hchain => ⟨hchain.1, List.mem_cons_of_mem _ hchain.2⟩

theorem Spells.parent_of_mem_chain (h : tree.Spells parent slots) {n : Nat}
    (hn : (n : Int) ∈ slots.chain) : ∃ node, tree.get? n = some node ∧ node.parent = parent := by
  induction slots with
  | nil => simp at hn
  | slot id values ends below beside _ ihBeside =>
      rw [Slots.chain_slot, List.mem_cons] at hn
      rcases hn with hn | hn
      · obtain rfl : n = id := Int.ofNat.inj hn
        exact ⟨_, h.1, rfl⟩
      · exact ihBeside h.2.2 hn

namespace Comprises

variable {ends : Int} {below : Slots}

theorem mem_ids_iff (h : tree.Comprises ends below) {n : Nat} :
    n ∈ (Slots.root ends below).ids ↔ ∃ node, tree.get? n = some node := by
  constructor
  · intro hn
    exact Option.isSome_iff_exists.mp (h.holds.spells.isSome hn)
  · intro hn
    obtain ⟨node, hnode⟩ := hn
    exact h.live n node hnode

theorem perm_numbers (h : tree.Comprises ends below) :
    tree.numbers.Perm (Slots.root ends below).ids := by
  refine (List.perm_ext_iff_of_nodup tree.nodup_numbers h.holds.nodup).mpr ?_
  intro n
  rw [mem_numbers, h.mem_ids_iff]

theorem length_ids_root (h : tree.Comprises ends below) : (Slots.root ends below).ids.length = tree.live := by
  rw [← length_numbers]
  exact h.perm_numbers.length_eq.symm

theorem live_eq (h : tree.Comprises ends below) : tree.live = below.ids.length + 1 := by
  rw [← h.length_ids_root, Slots.root, Slots.ids_slot, List.length_cons, Slots.ids_nil, List.append_nil]

theorem perm_links (h : tree.Comprises ends below) :
    ((0 : Int) :: tree.links).Perm (tree.numbers.map Int.ofNat) := by
  have hids := h.perm_numbers
  have hlinks := (hids.flatMap_right tree.linksAt).cons (0 : Int)
  have hroot := h.holds.spells.perm_links
  exact (hlinks.trans hroot).trans (hids.map _).symm

theorem proper_root (h : tree.Comprises ends below) : (Slots.root ends below).Proper := by
  simp [Slots.root, h.proper]

theorem walk_eq (h : tree.Comprises ends below) :
    tree.walk = .ok ((Slots.root ends below).visits 0) :=
  walkFrom_eq h.holds 0

theorem exists_parent (h : tree.Comprises ends below) {n : Nat} {node : Node}
    (hnode : tree.get? n = some node) (hn : n ≠ 0) :
    ∃ p : Nat, node.parent = some (p : Int) ∧
      ∀ q : Nat, (∃ ids, tree.children q = .ok ids ∧ (n : Int) ∈ ids) ↔ q = p := by
  obtain ⟨parent', values, ends', below', beside, hslot, -, hwhere⟩ :=
    h.holds.exists_slot (h.live n node hnode)
  obtain rfl : node = _ := Option.some.inj (hnode.symm.trans hslot.spells.1)
  rcases hwhere with ⟨-, hchain⟩ | ⟨p, ids, rfl, hids, hmem⟩
  · simp [Slots.root, hn] at hchain
  · refine ⟨p, rfl, ?_⟩
    intro q
    constructor
    · rintro ⟨ids', hids', hmem'⟩
      -- its chain is that of its slot
      obtain ⟨node', hq⟩ := exists_get?_of_children hids'
      obtain ⟨_, values', _, below'', beside', hslot', -⟩ :=
        h.holds.exists_slot (h.live q node' hq)
      rw [children_eq hslot'] at hids'
      cases hids'
      obtain ⟨node'', hnode'', hparent⟩ := hslot'.below.spells.parent_of_mem_chain hmem'
      rw [hnode] at hnode''
      cases hnode''
      exact (Int.ofNat.inj (Option.some.inj hparent)).symm
    · rintro rfl
      exact ⟨ids, hids, hmem⟩

theorem wellFormed (h : tree.Comprises ends below) : tree.WellFormed where
  root := ⟨_, h.holds.spells.1, rfl, rfl⟩
  linked id hid := by
    have hmem := h.perm_links.subset (List.mem_cons_of_mem 0 hid)
    obtain ⟨n, hn, hnid⟩ := List.mem_map.mp hmem
    exact ⟨n, hn, hnid.symm⟩
  count_links n hn := by
    have hnodup : (tree.numbers.map Int.ofNat).Nodup :=
      tree.nodup_numbers.map fun _ _ => Int.ofNat.inj
    have hcount := h.perm_links.count_eq (Int.ofNat n)
    rw [List.count_eq_one_of_mem hnodup (List.mem_map_of_mem hn), List.count_cons] at hcount
    by_cases hzero : n = 0
    · subst hzero
      simpa using hcount
    · have hne : ¬(0 : Int) = n := by omega
      simpa [hzero, hne] using hcount
  walk := by
    refine ⟨_, h.walk_eq, ?_, ?_⟩
    · rw [Slots.map_visits]
      exact (h.perm_numbers.map _).symm
    · rw [← List.length_map Prod.snd, Slots.map_visits, List.length_map, h.length_ids_root]
  parent n node hnode hn := h.exists_parent hnode hn
  values n node hnode := by
    obtain ⟨parent', values, ends', below', beside, hslot, hproper, -⟩ :=
      h.holds.exists_slot (h.live n node hnode)
    obtain rfl : node = _ := Option.some.inj (hnode.symm.trans hslot.spells.1)
    have hproper := hproper h.proper_root
    exact ⟨hproper.1, hproper.2.1⟩

end Comprises

end Tree

end LogMining
