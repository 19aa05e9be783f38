import LogMining.Proofs.Slots.Held
import LogMining.Refine.Factor

/-!
# Relinking nodes

The three ways in which refining rewrites links: the nodes of a chain get another parent, a new node is
put between a node and its children, and a node is taken out from between its parent and its children.
Each is a replacement of slots.
-/

namespace LogMining.Tree

variable {tree : Tree} {parent : Option NodeId} {slots : Slots}

theorem Replaces.of_ids_eq {tree' : Tree} {slots' : Slots} (hnodup : slots.ids.Nodup)
    (hids : slots'.ids = slots.ids) (hspells : tree'.Spells parent slots')
    (hkept : ∀ n, n ∉ slots.ids → tree'.get? n = tree.get? n) (hsize : tree'.size = tree.size) :
    tree.Replaces tree' parent slots slots' where
  spells := hspells
  nodup := hids ▸ hnodup
  kept _ hn _ := hkept _ hn
  gone _ hn hn' := absurd (hids ▸ hn) hn'
  fresh _ hn := .inl (hids ▸ hn)
  size_le := Nat.le_of_eq hsize.symm

theorem run_adoptWithin (q : NodeId) {n : Nat} (h : tree.Holds parent slots)
    (hn : slots.chain.length ≤ n) :
    ∃ tree', (adoptWithin q n slots.first).run tree = .ok () tree' ∧
      tree'.Spells (some q) slots ∧ (∀ m, m ∉ slots.ids → tree'.get? m = tree.get? m) ∧
      tree'.size = tree.size := by
  -- on the chain alone: what is below its slots keeps the parents it has
  induction slots generalizing tree n with
  | nil => exact ⟨tree, by cases n <;> rfl, trivial, fun _ _ => rfl, rfl⟩
  | slot id values ends below beside _ ihBeside =>
      obtain ⟨hidBelow, hidBeside, -, -, hapart⟩ := Slots.nodup_ids_slot.mp h.nodup
      cases n with
      | zero => simp at hn
      | succ n =>
          let change : Node → Node := fun node => { node with parent := some q }
          have hnode : (setAt id change tree).get? id = some
              { values, parent := some q, child := below.first, sibling := beside.first,
                lineEnds := ends } := by
            rw [get?_setAt, if_pos rfl, h.spells.1]
            rfl
          have hother : ∀ m, m ≠ id → (setAt id change tree).get? m = tree.get? m := by
            intro m hm
            rw [get?_setAt, if_neg hm.symm]
          have hbeside : (setAt id change tree).Holds parent beside :=
            ⟨h.beside.spells.congr fun m hm => hother m fun hid => hidBeside (hid ▸ hm),
              h.beside.nodup⟩
          obtain ⟨tree', hrun, hspells, hkept, hsize⟩ :=
            ihBeside hbeside (by simpa using hn)
          refine ⟨tree', ?_, ⟨?_, ?_, hspells⟩, ?_, ?_⟩
          · rw [Slots.first_slot, adoptWithin, EStateM.run_bind,
              run_update (locate_of_get? h.spells.1)]
            simp only [EStateM.run_bind, Step.run_query]
            rw [node_of_get? hnode]
            exact hrun
          · rw [hkept id hidBeside, hnode]
          · refine h.below.spells.congr ?_
            intro m hm
            rw [hkept m (hapart m hm), hother m fun hid => hidBelow (hid ▸ hm)]
          · intro m hm
            simp only [Slots.ids_slot, List.mem_cons, List.mem_append, not_or] at hm
            rw [hkept m hm.2.2, hother m hm.1]
          · rw [hsize, size_setAt]

theorem run_adopt (q : NodeId) (h : tree.Holds parent slots) :
    ∃ tree', (adopt q slots.first).run tree = .ok () tree' ∧
      tree.Replaces tree' (some q) slots slots ∧ tree'.size = tree.size := by
  obtain ⟨tree', hrun, hspells, hkept, hsize⟩ :=
    run_adoptWithin q h (Nat.le_trans slots.length_chain_le h.length_ids_le_linkLimit)
  exact ⟨tree', hrun, Replaces.of_ids_eq h.nodup rfl hspells hkept hsize, hsize⟩

variable {id : Nat} {values : List Token} {ends : Int} {below beside : Slots}

theorem run_splice (h : tree.Holds parent (.slot id values ends below beside))
    (more : List Token) :
    ∃ tree', (splice id id below.first more).run tree = .ok (tree.size : Int) tree' ∧
      tree.Replaces tree' parent (.slot id values ends below beside)
        (.slot id values ends (.slot tree.size more 0 below .nil) beside) ∧
      tree'.size = tree.size + 1 := by
  let new : Node := { values := more, parent := some (id : Int), child := below.first }
  let created : Tree := ⟨tree.nodes.push (some new)⟩
  have hold : ∀ n, n < tree.size → created.get? n = tree.get? n := by
    intro n hn
    rw [get?_push, if_neg (Nat.ne_of_lt hn)]
  have hnew : tree.size ∉ below.ids := fun hmem =>
    Nat.lt_irrefl _ (h.below.spells.lt_size hmem)
  have hcreated : created.Holds (some (id : Int)) below :=
    ⟨h.below.spells.congr fun n hn => hold n (h.below.spells.lt_size hn), h.below.nodup⟩
  -- the chain below is handed to the new node before the node it comes from is linked to it
  obtain ⟨adopted, hrun, hadopted, hsize⟩ := run_adopt (tree.size : Int) hcreated
  have hbelow : tree.Replaces adopted (some (id : Int)) below (.slot tree.size more 0 below .nil) := by
    have hnode : adopted.get? tree.size = some new := by
      rw [hadopted.kept _ hnew hnew, get?_push, if_pos rfl]
    refine ⟨⟨⟨hnode, hadopted.spells, trivial⟩, ?_⟩, ?_, ?_, ?_, ?_⟩
    · simpa [List.nodup_cons] using ⟨hnew, h.below.nodup⟩
    · intro n hn hn'
      have hne : n ≠ tree.size := by
        rintro rfl
        simp at hn'
      rw [hadopted.kept n hn hn, get?_push, if_neg hne]
    · intro n hn hn'
      simp [hn] at hn'
    · intro n hn
      have hn' : n = tree.size ∨ n ∈ below.ids := by simpa using hn
      exact hn'.symm.imp_right fun heq => Nat.le_of_eq heq.symm
    · rw [hsize, size_push]
      exact Nat.le_succ _
  have hlt : id < tree.size := h.spells.lt_size (by simp)
  refine ⟨setAt id (fun node => { node with child := some (tree.size : Int) }) adopted, ?_, ?_, ?_⟩
  · simp only [splice, EStateM.run_bind, run_create]
    rw [hrun]
    rfl
  · refine Replaces.around h (fun _ _ => rfl) rfl hbelow ?_ (size_setAt ..) ?_
    · intro n hn
      rw [get?_setAt, if_neg hn.symm]
    · have hid : id ∉ below.ids := (Slots.nodup_ids_slot.mp h.nodup).1
      rw [get?_setAt, if_pos rfl, hbelow.get?_of_lt hlt hid, h.spells.1]
      rfl
  · rw [size_setAt, hsize, size_push]

/-- The only child of a node is taken out, and the node takes over its children. -/
theorem run_dissolve {cid : Nat} {more : List Token} {ends' : Int}
    {values' : List Token} {tree' : Tree}
    (h : tree.Holds parent (.slot id values ends (.slot cid more ends' below .nil) beside))
    (hother : ∀ n, n ≠ id → tree'.get? n = tree.get? n) (hsize : tree'.size = tree.size)
    (hnode : tree'.get? id = some
      { values := values', parent, child := below.first, sibling := beside.first,
        lineEnds := ends' }) :
    ∃ adopted tree'', (adopt id below.first).run tree' = .ok () adopted ∧
      (delete cid).run adopted = .ok () tree'' ∧
      tree.Replaces tree'' parent (.slot id values ends (.slot cid more ends' below .nil) beside)
        (.slot id values' ends' below beside) := by
  obtain ⟨hidChild, -, -, -, -⟩ := Slots.nodup_ids_slot.mp h.nodup
  obtain ⟨hcid, -, -, -, -⟩ := Slots.nodup_ids_slot.mp h.below.nodup
  simp only [Slots.ids_slot, Slots.ids_nil, List.append_nil, List.mem_cons, not_or] at hidChild
  have hbelow' : tree'.Holds (some (cid : Int)) below :=
    ⟨h.below.below.spells.congr fun n hn => hother n fun hid => hidChild.2 (hid ▸ hn),
      h.below.below.nodup⟩
  obtain ⟨adopted, hrun, hadopted, hsize'⟩ := run_adopt (id : Int) hbelow'
  have hchild : ∃ node, adopted.get? cid = some node := by
    rw [hadopted.kept _ hcid hcid, hother cid (Ne.symm hidChild.1), h.below.spells.1]
    exact ⟨_, rfl⟩
  obtain ⟨child, hchild⟩ := hchild
  let deleted : Tree := ⟨adopted.nodes.setIfInBounds cid none⟩
  have hkept : ∀ n, n ≠ cid → deleted.get? n = adopted.get? n := by
    intro n hn
    rw [get?_erase, if_neg hn]
  have hbelow : tree'.Replaces deleted (some (id : Int)) (.slot cid more ends' below .nil) below := by
    refine ⟨⟨?_, h.below.below.nodup⟩, ?_, ?_, ?_, ?_⟩
    · exact hadopted.spells.congr fun n hn => hkept n fun heq => hcid (heq ▸ hn)
    · intro n hn _
      simp only [Slots.ids_slot, Slots.ids_nil, List.append_nil, List.mem_cons, not_or] at hn
      rw [hkept n hn.1, hadopted.kept n hn.2 hn.2]
    · intro n hn hn'
      obtain rfl : n = cid := by simpa [hn'] using hn
      rw [get?_erase, if_pos rfl]
    · intro n hn
      exact .inl (by simp [hn])
    · exact Nat.le_of_eq (by rw [size_erase, hsize'])
  refine ⟨adopted, deleted, hrun, run_delete (locate_of_get? hchild), ?_⟩
  refine Replaces.around h hother hsize hbelow (fun _ _ => rfl) rfl ?_
  rw [hkept id hidChild.1, hadopted.kept id hidChild.2 hidChild.2, hnode]

end LogMining.Tree
