import LogMining.Proofs.Slots.Basic
import Mathlib.Data.List.Perm.Subperm

/-!
# Trees that hold slots

`tree.Spells parent slots` says that the nodes of a tree are linked as the slots are nested, and
`tree.Holds parent slots` that no two of the slots are the same node. Steps on trees change a few nodes
and leave the others alone; `tree.Replaces tree' parent slots slots'` says so of a step that puts
`slots'` in the place of `slots`. What lies outside of the slots before is outside of those after, and
what has dropped out of them is deleted. So the step that replaces a part of a chain replaces the
chain, and nothing has to be said about the rest of the tree.
-/

namespace LogMining.Tree

def get? (tree : Tree) (n : Nat) : Option Node := (tree.nodes[n]?).join

def lineEndsAt (tree : Tree) (n : Nat) : Int := ((tree.get? n).map Node.lineEnds).getD 0

theorem get?_eq_some_iff {tree : Tree} {n : Nat} {node : Node} :
    tree.get? n = some node ↔ tree.nodes[n]? = some (some node) := by
  rw [get?, Option.join_eq_some_iff]

theorem get?_eq_none_of_size_le {tree : Tree} {n : Nat} (h : tree.size ≤ n) :
    tree.get? n = none := by
  rw [get?, Array.getElem?_eq_none h, Option.join_none]

theorem lt_size_of_get? {tree : Tree} {n : Nat} {node : Node} (h : tree.get? n = some node) :
    n < tree.size := by
  by_contra hn
  rw [get?_eq_none_of_size_le (Nat.le_of_not_lt hn)] at h
  cases h

theorem locate_of_get? {tree : Tree} {n : Nat} {node : Node} (h : tree.get? n = some node) :
    tree.locate n = .ok (n, node) :=
  locate_natCast (get?_eq_some_iff.mp h)

theorem node_of_get? {tree : Tree} {n : Nat} {node : Node} (h : tree.get? n = some node) :
    tree.node n = .ok node := by
  rw [Tree.node, locate_of_get? h]
  rfl

theorem node_eq_ok_iff {tree : Tree} {n : Nat} {node : Node} :
    tree.node n = .ok node ↔ tree.get? n = some node := by
  refine ⟨fun h => ?_, node_of_get?⟩
  cases hget : tree.get? n with
  | some node' =>
      rw [node_of_get? hget] at h
      cases h
      rfl
  | none =>
      rw [Tree.node, locate, place?_natCast, Option.bind_some] at h
      rw [get?] at hget
      cases hnode : tree.nodes[n]? with
      | none => simp [hnode, Except.map] at h
      | some o =>
          cases o with
          | none => simp [hnode, Except.map] at h
          | some node' => simp [hnode] at hget

theorem get?_setAt (n : Nat) (change : Node → Node) (tree : Tree) (m : Nat) :
    (setAt n change tree).get? m = if n = m then (tree.get? m).map change else tree.get? m := by
  simp only [get?, getElem?_setAt]
  split
  · cases tree.nodes[m]? with
    | none => rfl
    | some o => cases o <;> rfl
  · rfl

theorem get?_push (tree : Tree) (node : Node) (m : Nat) :
    (⟨tree.nodes.push (some node)⟩ : Tree).get? m =
      if m = tree.size then some node else tree.get? m := by
  simp only [get?, Array.getElem?_push]
  by_cases h : m = tree.nodes.size
  · rw [if_pos h, if_pos (show m = tree.size from h)]
    rfl
  · rw [if_neg h, if_neg (show ¬m = tree.size from h)]

theorem get?_erase (tree : Tree) (n m : Nat) :
    (⟨tree.nodes.setIfInBounds n none⟩ : Tree).get? m =
      if m = n then none else tree.get? m := by
  simp only [get?, Array.getElem?_setIfInBounds]
  by_cases h : n = m
  · subst h
    simp
    split <;> simp
  · simp [h, Ne.symm h]

@[simp] theorem size_push (tree : Tree) (node : Node) :
    (⟨tree.nodes.push (some node)⟩ : Tree).size = tree.size + 1 := by
  simp [size]

@[simp] theorem size_erase (tree : Tree) (n : Nat) :
    (⟨tree.nodes.setIfInBounds n none⟩ : Tree).size = tree.size := by
  simp [size]

/-- The nodes of a tree are linked as the slots are nested, and the slots of the chain have the given
parent. -/
def Spells (tree : Tree) : Option NodeId → Slots → Prop
  | _, .nil => True
  | parent, .slot id values lineEnds below beside =>
    tree.get? id =
        some { values, parent, child := below.first, sibling := beside.first, lineEnds } ∧
      tree.Spells (some (id : Int)) below ∧ tree.Spells parent beside

@[simp] theorem spells_nil (tree : Tree) (parent : Option NodeId) : tree.Spells parent .nil :=
  trivial

theorem spells_slot {tree : Tree} {parent : Option NodeId} {id : Nat} {values : List Token}
    {lineEnds : Int} {below beside : Slots} :
    tree.Spells parent (.slot id values lineEnds below beside) ↔
      tree.get? id =
          some { values, parent, child := below.first, sibling := beside.first, lineEnds } ∧
        tree.Spells (some (id : Int)) below ∧ tree.Spells parent beside :=
  Iff.rfl

/-- The nodes of a tree are linked as the slots are nested, whatever parents they name. -/
def Nests (tree : Tree) : Slots → Prop
  | .nil => True
  | .slot id values lineEnds below beside =>
    (∃ parent, tree.get? id =
        some { values, parent, child := below.first, sibling := beside.first, lineEnds }) ∧
      tree.Nests below ∧ tree.Nests beside

theorem Spells.nests {tree : Tree} {slots : Slots} {parent : Option NodeId}
    (h : tree.Spells parent slots) : tree.Nests slots := by
  induction slots generalizing parent with
  | nil => trivial
  | slot id values ends below beside ihBelow ihBeside =>
      exact ⟨⟨parent, h.1⟩, ihBelow h.2.1, ihBeside h.2.2⟩

theorem Spells.congr {tree tree' : Tree} {slots : Slots} {parent : Option NodeId}
    (h : tree.Spells parent slots) (hget : ∀ n ∈ slots.ids, tree'.get? n = tree.get? n) :
    tree'.Spells parent slots := by
  induction slots generalizing parent with
  | nil => trivial
  | slot id values ends below beside ihBelow ihBeside =>
      obtain ⟨hNode, hBelow, hBeside⟩ := h
      simp only [Slots.ids_slot, List.mem_cons, List.mem_append] at hget
      refine ⟨?_, ihBelow hBelow fun n hn => hget n (.inr (.inl hn)),
        ihBeside hBeside fun n hn => hget n (.inr (.inr hn))⟩
      rw [hget id (.inl rfl), hNode]

theorem Spells.isSome {tree : Tree} {slots : Slots} {parent : Option NodeId}
    (h : tree.Spells parent slots) {n : Nat} (hn : n ∈ slots.ids) : (tree.get? n).isSome := by
  induction slots generalizing parent with
  | nil => simp at hn
  | slot id values ends below beside ihBelow ihBeside =>
      obtain ⟨hNode, hBelow, hBeside⟩ := h
      simp only [Slots.ids_slot, List.mem_cons, List.mem_append] at hn
      rcases hn with rfl | hn | hn
      · rw [hNode]
        rfl
      · exact ihBelow hBelow hn
      · exact ihBeside hBeside hn

theorem Spells.lt_size {tree : Tree} {slots : Slots} {parent : Option NodeId}
    (h : tree.Spells parent slots) {n : Nat} (hn : n ∈ slots.ids) : n < tree.size := by
  obtain ⟨node, hnode⟩ := Option.isSome_iff_exists.mp (h.isSome hn)
  exact lt_size_of_get? hnode

theorem Spells.unique {tree : Tree} {slots slots' : Slots} {parent parent' : Option NodeId}
    (h : tree.Spells parent slots) (h' : tree.Spells parent' slots')
    (hfirst : slots.first = slots'.first) : slots = slots' := by
  induction slots generalizing parent parent' slots' with
  | nil => exact ((Slots.first_eq_none_iff slots').mp hfirst.symm).symm
  | slot id values ends below beside ihBelow ihBeside =>
      cases slots' with
      | nil => cases hfirst
      | slot id' values' ends' below' beside' =>
          obtain rfl : id = id' := Int.ofNat.inj (Option.some.inj hfirst)
          obtain ⟨hNode, hBelow, hBeside⟩ := h
          obtain ⟨hNode', hBelow', hBeside'⟩ := h'
          have hsame := Option.some.inj (hNode.symm.trans hNode')
          rw [Node.mk.injEq] at hsame
          obtain ⟨rfl, -, hbelow, hbeside, rfl⟩ := hsame
          rw [ihBelow hBelow hBelow' hbelow, ihBeside hBeside hBeside' hbeside]

/-- A tree spells out the slots, and no two of them are the same node. -/
structure Holds (tree : Tree) (parent : Option NodeId) (slots : Slots) : Prop where
  spells : tree.Spells parent slots
  nodup : slots.ids.Nodup

theorem Holds.below {tree : Tree} {parent : Option NodeId} {id : Nat} {values : List Token}
    {ends : Int} {below beside : Slots} (h : tree.Holds parent (.slot id values ends below beside)) :
    tree.Holds (some (id : Int)) below :=
  ⟨h.spells.2.1, (Slots.nodup_ids_slot.mp h.nodup).2.2.1⟩

theorem Holds.beside {tree : Tree} {parent : Option NodeId} {id : Nat} {values : List Token}
    {ends : Int} {below beside : Slots} (h : tree.Holds parent (.slot id values ends below beside)) :
    tree.Holds parent beside :=
  ⟨h.spells.2.2, (Slots.nodup_ids_slot.mp h.nodup).2.2.2.1⟩

theorem Holds.length_ids_le {tree : Tree} {parent : Option NodeId} {slots : Slots}
    (h : tree.Holds parent slots) : slots.ids.length ≤ tree.size := by
  have hsub : slots.ids ⊆ List.range tree.size := fun n hn =>
    List.mem_range.mpr (h.spells.lt_size hn)
  simpa using (List.subperm_of_subset h.nodup hsub).length_le

theorem Holds.length_ids_le_linkLimit {tree : Tree} {parent : Option NodeId} {slots : Slots}
    (h : tree.Holds parent slots) : slots.ids.length ≤ tree.linkLimit :=
  Nat.le_succ_of_le h.length_ids_le

/-- A step from a tree to another one has put `slots'` in the place of `slots`. -/
structure Replaces (tree tree' : Tree) (parent : Option NodeId) (slots slots' : Slots) : Prop
    extends tree'.Holds parent slots' where
  /-- Nodes that belong to neither are as they were. -/
  kept : ∀ n, n ∉ slots.ids → n ∉ slots'.ids → tree'.get? n = tree.get? n
  /-- Slots that are not there any more have been deleted. -/
  gone : ∀ n ∈ slots.ids, n ∉ slots'.ids → tree'.get? n = none
  /-- Slots that were not there have been created. -/
  fresh : ∀ n ∈ slots'.ids, n ∈ slots.ids ∨ tree.size ≤ n
  size_le : tree.size ≤ tree'.size

namespace Replaces

variable {tree tree' tree'' : Tree} {parent : Option NodeId} {slots slots' slots'' : Slots}

theorem refl (h : tree.Holds parent slots) : tree.Replaces tree parent slots slots where
  toHolds := h
  kept _ _ _ := rfl
  gone _ hn hn' := absurd hn hn'
  fresh _ hn := .inl hn
  size_le := Nat.le_refl _

theorem not_mem (h : tree.Replaces tree' parent slots slots') {n : Nat} (hlt : n < tree.size)
    (hn : n ∉ slots.ids) : n ∉ slots'.ids := by
  intro hn'
  rcases h.fresh n hn' with hmem | hle
  · exact hn hmem
  · omega

theorem get?_of_lt (h : tree.Replaces tree' parent slots slots') {n : Nat} (hlt : n < tree.size)
    (hn : n ∉ slots.ids) : tree'.get? n = tree.get? n :=
  h.kept n hn (h.not_mem hlt hn)

theorem trans (h : tree.Replaces tree' parent slots slots')
    (h' : tree'.Replaces tree'' parent slots' slots'') :
    tree.Replaces tree'' parent slots slots'' where
  toHolds := h'.toHolds
  kept n hn hn'' := by
    by_cases hn' : n ∈ slots'.ids
    · rw [h'.gone n hn' hn'']
      rcases h.fresh n hn' with hmem | hle
      · exact absurd hmem hn
      · exact (get?_eq_none_of_size_le hle).symm
    · rw [h'.kept n hn' hn'', h.kept n hn hn']
  gone n hn hn'' := by
    by_cases hn' : n ∈ slots'.ids
    · exact h'.gone n hn' hn''
    · rw [h'.kept n hn' hn'', h.gone n hn hn']
  fresh n hn := by
    rcases h'.fresh n hn with hmem | hle
    · exact h.fresh n hmem
    · exact .inr (Nat.le_trans h.size_le hle)
  size_le := Nat.le_trans h.size_le h'.size_le

variable {id : Nat} {values values' : List Token} {ends ends' : Int}
  {below below' beside beside' : Slots}

/-- What replaces the chain below a node replaces the slot of the node. The node itself may be
changed before and after. -/
theorem around {mid mid' : Tree} (h : tree.Holds parent (.slot id values ends below beside))
    (hbefore : ∀ n, n ≠ id → mid.get? n = tree.get? n) (hsize : mid.size = tree.size)
    (hbelow : mid.Replaces mid' (some (id : Int)) below below')
    (hafter : ∀ n, n ≠ id → tree'.get? n = mid'.get? n) (hsize' : tree'.size = mid'.size)
    (hnode : tree'.get? id = some
      { values := values', parent, child := below'.first, sibling := beside.first,
        lineEnds := ends' }) :
    tree.Replaces tree' parent (.slot id values ends below beside)
      (.slot id values' ends' below' beside) := by
  obtain ⟨hidBelow, hidBeside, -, hnodup, hapart⟩ := Slots.nodup_ids_slot.mp h.nodup
  have hidBelow' : id ∉ below'.ids :=
    hbelow.not_mem (hsize ▸ h.spells.lt_size (by simp)) hidBelow
  have hother : ∀ n, n ≠ id → n ∉ below.ids → n ∉ below'.ids →
      tree'.get? n = tree.get? n := fun n hid hn hn' => by
    rw [hafter n hid, hbelow.kept n hn hn', hbefore n hid]
  have hbeside : ∀ n ∈ beside.ids, n ∉ below.ids ∧ n ∉ below'.ids := fun n hn => by
    have hn' : n ∉ below.ids := fun hmem => hapart n hmem hn
    exact ⟨hn', hbelow.not_mem (hsize ▸ h.beside.spells.lt_size hn) hn'⟩
  refine ⟨⟨⟨hnode, ?_, ?_⟩, ?_⟩, ?_, ?_, ?_, ?_⟩
  · exact hbelow.spells.congr fun n hn => hafter n fun hid => hidBelow' (hid ▸ hn)
  · refine h.beside.spells.congr fun n hn => ?_
    exact hother n (fun hid => hidBeside (hid ▸ hn)) (hbeside n hn).1 (hbeside n hn).2
  · refine Slots.nodup_ids_slot.mpr ⟨hidBelow', hidBeside, hbelow.nodup, hnodup, ?_⟩
    exact fun n hn hmem => (hbeside n hmem).2 hn
  · intro n hn hn'
    simp only [Slots.ids_slot, List.mem_cons, List.mem_append, not_or] at hn hn'
    exact hother n hn.1 hn.2.1 hn'.2.1
  · intro n hn hn'
    simp only [Slots.ids_slot, List.mem_cons, List.mem_append, not_or] at hn hn'
    rcases hn with hid | hn | hn
    · exact absurd hid hn'.1
    · rw [hafter n hn'.1]
      exact hbelow.gone n hn hn'.2.1
    · exact absurd hn hn'.2.2
  · intro n hn
    simp only [Slots.ids_slot, List.mem_cons, List.mem_append] at hn ⊢
    rcases hn with hid | hn | hn
    · exact .inl (.inl hid)
    · rcases hbelow.fresh n hn with hmem | hle
      · exact .inl (.inr (.inl hmem))
      · exact .inr (hsize ▸ hle)
    · exact .inl (.inr (.inr hn))
  · rw [hsize', ← hsize]
    exact hbelow.size_le

theorem lift_below (h : tree.Holds parent (.slot id values ends below beside))
    (hbelow : tree.Replaces tree' (some (id : Int)) below below')
    (hfirst : below'.first = below.first) :
    tree.Replaces tree' parent (.slot id values ends below beside)
      (.slot id values ends below' beside) := by
  have hid : id ∉ below.ids := (Slots.nodup_ids_slot.mp h.nodup).1
  refine around h (fun _ _ => rfl) rfl hbelow (fun _ _ => rfl) rfl ?_
  rw [hbelow.get?_of_lt (h.spells.lt_size (by simp)) hid, h.spells.1, hfirst]

theorem changed {change : Node → Node}
    (h : tree.Holds parent (.slot id values ends below beside))
    (hchange :
      change
          { values, parent, child := below.first, sibling := beside.first, lineEnds := ends } =
        { values := values', parent, child := below.first, sibling := beside.first,
          lineEnds := ends' }) :
    tree.Replaces (setAt id change tree) parent (.slot id values ends below beside)
      (.slot id values' ends' below beside) := by
  refine around h (fun _ _ => rfl) rfl (refl h.below) (fun n hn => ?_) (size_setAt ..) ?_
  · rw [get?_setAt, if_neg hn.symm]
  · rw [get?_setAt, if_pos rfl, h.spells.1, Option.map_some, hchange]

/-- What replaces the chain that goes on beside a slot replaces the chain from the slot on. The node
itself may be changed afterwards. -/
theorem around_beside {mid : Tree} (h : tree.Holds parent (.slot id values ends below beside))
    (hbeside : tree.Replaces mid parent beside beside')
    (hafter : ∀ n, n ≠ id → tree'.get? n = mid.get? n) (hsize : tree'.size = mid.size)
    (hnode : tree'.get? id = some
      { values, parent, child := below.first, sibling := beside'.first, lineEnds := ends }) :
    tree.Replaces tree' parent (.slot id values ends below beside)
      (.slot id values ends below beside') := by
  obtain ⟨hidBelow, hidBeside, hnodup, -, hapart⟩ := Slots.nodup_ids_slot.mp h.nodup
  have hidBeside' : id ∉ beside'.ids :=
    hbeside.not_mem (h.spells.lt_size (by simp)) hidBeside
  have hbelow : ∀ n ∈ below.ids, n ∉ beside.ids ∧ n ∉ beside'.ids := fun n hn =>
    ⟨hapart n hn, hbeside.not_mem (h.below.spells.lt_size hn) (hapart n hn)⟩
  refine ⟨⟨⟨hnode, ?_, ?_⟩, ?_⟩, ?_, ?_, ?_, hsize ▸ hbeside.size_le⟩
  · refine h.below.spells.congr fun n hn => ?_
    rw [hafter n fun hid => hidBelow (hid ▸ hn),
      hbeside.kept n (hbelow n hn).1 (hbelow n hn).2]
  · exact hbeside.spells.congr fun n hn => hafter n fun hid => hidBeside' (hid ▸ hn)
  · exact Slots.nodup_ids_slot.mpr
      ⟨hidBelow, hidBeside', hnodup, hbeside.nodup, fun n hn => (hbelow n hn).2⟩
  · intro n hn hn'
    simp only [Slots.ids_slot, List.mem_cons, List.mem_append, not_or] at hn hn'
    rw [hafter n hn.1, hbeside.kept n hn.2.2 hn'.2.2]
  · intro n hn hn'
    simp only [Slots.ids_slot, List.mem_cons, List.mem_append, not_or] at hn hn'
    rcases hn with hid | hn | hn
    · exact absurd hid hn'.1
    · exact absurd hn hn'.2.1
    · rw [hafter n hn'.1, hbeside.gone n hn hn'.2.2]
  · intro n hn
    simp only [Slots.ids_slot, List.mem_cons, List.mem_append] at hn ⊢
    rcases hn with hid | hn | hn
    · exact .inl (.inl hid)
    · exact .inl (.inr (.inl hn))
    · exact (hbeside.fresh n hn).imp (fun hmem => .inr (.inr hmem)) fun hle => hle

theorem lift_beside (h : tree.Holds parent (.slot id values ends below beside))
    (hbeside : tree.Replaces tree' parent beside beside')
    (hfirst : beside'.first = beside.first) :
    tree.Replaces tree' parent (.slot id values ends below beside)
      (.slot id values ends below beside') := by
  have hid : id ∉ beside.ids := (Slots.nodup_ids_slot.mp h.nodup).2.1
  refine around_beside h hbeside (fun _ _ => rfl) rfl ?_
  rw [hbeside.get?_of_lt (h.spells.lt_size (by simp)) hid, h.spells.1, hfirst]

theorem created (tree : Tree) (parent : Option NodeId) (values : List Token) (ends : Int) :
    tree.Replaces ⟨tree.nodes.push (some { values, parent, lineEnds := ends })⟩ parent .nil
      (.slot tree.size values ends .nil .nil) where
  spells := by simp [spells_slot, get?_push]
  nodup := by simp
  kept n _ hn := by
    have hne : n ≠ tree.size := by simpa using hn
    rw [get?_push, if_neg hne]
  gone n hn := by simp at hn
  fresh n hn := by
    have heq : n = tree.size := by simpa using hn
    exact .inr (Nat.le_of_eq heq.symm)
  size_le := by simp

end Replaces

end LogMining.Tree
