import LogMining.Proofs.Slots.Whole

/-!
# Trees that differ in their numbers

`tree.Renumbers tree' f` says that giving every node `n` the number `f n` makes the one tree of the other. So
the trees are nested alike, with the same values and line ends in the same places. For whole trees this is so
if and only if the slots that they hold are the same without their numbers.
-/

namespace LogMining

def renumber (f : Nat → Nat) (id : NodeId) : NodeId := f id.toNat

def Node.renumbered (f : Nat → Nat) (node : Node) : Node :=
  { node with
    parent := node.parent.map (renumber f)
    child := node.child.map (renumber f)
    sibling := node.sibling.map (renumber f) }

/-- Another numbering of the nodes makes the one tree of the other. -/
structure Tree.Renumbers (tree tree' : Tree) (f : Nat → Nat) : Prop where
  root : f 0 = 0
  node : ∀ n node, tree.get? n = some node → tree'.get? (f n) = some (node.renumbered f)
  injective : ∀ n m, (tree.get? n).isSome → (tree.get? m).isSome → f n = f m → n = m
  surjective : ∀ m, (tree'.get? m).isSome → ∃ n, (tree.get? n).isSome ∧ f n = m

namespace Slots

def renumbered (f : Nat → Nat) : Slots → Slots
  | nil => nil
  | slot id values ends below beside =>
    slot (f id) values ends (below.renumbered f) (beside.renumbered f)

def unnumbered (slots : Slots) : Slots := slots.renumbered fun _ => 0

variable {slots slots' : Slots} {f g : Nat → Nat}

@[simp] theorem renumbered_nil (f : Nat → Nat) : nil.renumbered f = nil := rfl

@[simp] theorem renumbered_slot (f : Nat → Nat) (id : Nat) (values : List Token) (ends : Int)
    (below beside : Slots) : (slot id values ends below beside).renumbered f =
      slot (f id) values ends (below.renumbered f) (beside.renumbered f) := rfl

@[simp] theorem unnumbered_nil : nil.unnumbered = nil := rfl

@[simp] theorem unnumbered_slot (id : Nat) (values : List Token) (ends : Int) (below beside : Slots) :
    (slot id values ends below beside).unnumbered =
      slot 0 values ends below.unnumbered beside.unnumbered := rfl

theorem ids_renumbered (f : Nat → Nat) (slots : Slots) : (slots.renumbered f).ids = slots.ids.map f := by
  induction slots with
  | nil => rfl
  | slot id values ends below beside ihBelow ihBeside => simp [ihBelow, ihBeside]

theorem first_renumbered (f : Nat → Nat) (slots : Slots) :
    (slots.renumbered f).first = slots.first.map (renumber f) := by
  cases slots <;> rfl

theorem renumbered_congr (h : ∀ n ∈ slots.ids, f n = g n) : slots.renumbered f = slots.renumbered g := by
  induction slots with
  | nil => rfl
  | slot id values ends below beside ihBelow ihBeside =>
      simp only [ids_slot, List.mem_cons, List.mem_append] at h
      rw [renumbered_slot, renumbered_slot, h id (.inl rfl), ihBelow fun n hn => h n (.inr (.inl hn)),
        ihBeside fun n hn => h n (.inr (.inr hn))]

theorem unnumbered_renumbered (f : Nat → Nat) (slots : Slots) :
    (slots.renumbered f).unnumbered = slots.unnumbered := by
  induction slots with
  | nil => rfl
  | slot id values ends below beside ihBelow ihBeside =>
      rw [renumbered_slot, unnumbered_slot, unnumbered_slot, ihBelow, ihBeside]

/-- Slots that are the same without their numbers become each other when numbers are exchanged. -/
theorem exists_renumbered (h : slots.unnumbered = slots'.unnumbered) (hnodup : slots.ids.Nodup) :
    ∃ f, slots' = slots.renumbered f := by
  induction slots generalizing slots' with
  | nil =>
      cases slots' with
      | nil => exact ⟨id, rfl⟩
      | slot id values ends below beside => cases h
  | slot id values ends below beside ihBelow ihBeside =>
      cases slots' with
      | nil => cases h
      | slot id' values' ends' below' beside' =>
          simp only [unnumbered_slot, slot.injEq, true_and] at h
          obtain ⟨rfl, rfl, hbelow, hbeside⟩ := h
          obtain ⟨hidBelow, hidBeside, hnodupBelow, hnodupBeside, hapart⟩ := nodup_ids_slot.mp hnodup
          obtain ⟨fBelow, rfl⟩ := ihBelow hbelow hnodupBelow
          obtain ⟨fBeside, rfl⟩ := ihBeside hbeside hnodupBeside
          -- no number is in two of the three parts, so each part may exchange its own
          refine ⟨fun n => if n = id then id' else if n ∈ below.ids then fBelow n else fBeside n, ?_⟩
          rw [renumbered_slot, if_pos rfl]
          congr 1
          · refine renumbered_congr fun n hn => ?_
            have hne : n ≠ id := fun hid => hidBelow (hid ▸ hn)
            rw [if_neg hne, if_pos hn]
          · refine renumbered_congr fun n hn => ?_
            have hne : n ≠ id := fun hid => hidBeside (hid ▸ hn)
            rw [if_neg hne, if_neg fun hmem => hapart n hmem hn]

end Slots

namespace Tree

variable {tree tree' : Tree} {parent : Option NodeId} {slots : Slots} {ends ends' : Int}
  {below below' : Slots} {f : Nat → Nat}

theorem Spells.renumbered (h : tree.Spells parent slots)
    (h' : tree'.Spells (parent.map (renumber f)) (slots.renumbered f)) {n : Nat} {node : Node}
    (hn : n ∈ slots.ids) (hnode : tree.get? n = some node) :
    tree'.get? (f n) = some (node.renumbered f) := by
  induction slots generalizing parent with
  | nil => simp at hn
  | slot id values ends below beside ihBelow ihBeside =>
      rw [Slots.renumbered_slot] at h'
      simp only [Slots.ids_slot, List.mem_cons, List.mem_append] at hn
      rcases hn with rfl | hn | hn
      · cases h.1.symm.trans hnode
        rw [h'.1, Slots.first_renumbered, Slots.first_renumbered]
        rfl
      · exact ihBelow h.2.1 h'.2.1 hn
      · exact ihBeside h.2.2 h'.2.2 hn

/-- A tree whose nodes are those of another one with numbers exchanged spells the slots with numbers
exchanged. -/
theorem Spells.of_renumbers (h : tree.Spells parent slots) (hrenumbers : tree.Renumbers tree' f) :
    tree'.Spells (parent.map (renumber f)) (slots.renumbered f) := by
  induction slots generalizing parent with
  | nil => trivial
  | slot id values ends below beside ihBelow ihBeside =>
      refine ⟨?_, ihBelow h.2.1, ihBeside h.2.2⟩
      rw [hrenumbers.node _ _ h.1, Slots.first_renumbered, Slots.first_renumbered]
      rfl

/-- Whole trees differ in their numbers only if and only if their slots are the same without numbers. -/
theorem Comprises.exists_renumbers_iff (h : tree.Comprises ends below) (h' : tree'.Comprises ends' below') :
    (∃ f, tree.Renumbers tree' f) ↔
      (Slots.root ends below).unnumbered = (Slots.root ends' below').unnumbered := by
  constructor
  · rintro ⟨f, hrenumbers⟩
    have hspells := h.holds.spells.of_renumbers hrenumbers
    have hsame : (Slots.root ends below).renumbered f = Slots.root ends' below' := by
      refine hspells.unique h'.holds.spells ?_
      rw [Slots.first_renumbered, Slots.root, Slots.root, Slots.first_slot, Slots.first_slot]
      exact congrArg (fun n : Nat => some (n : Int)) hrenumbers.root
    rw [← hsame, Slots.unnumbered_renumbered]
  · intro hsame
    obtain ⟨f, hf⟩ := Slots.exists_renumbered hsame h.holds.nodup
    have hspells' := h'.holds.spells
    have hnodup' := h'.holds.nodup
    have hlive' := h'.live
    rw [hf] at hspells' hnodup' hlive'
    rw [Slots.ids_renumbered] at hnodup' hlive'
    have hlive : ∀ {n : Nat}, (tree.get? n).isSome → n ∈ (Slots.root ends below).ids := by
      intro n hn
      obtain ⟨node, hnode⟩ := Option.isSome_iff_exists.mp hn
      exact h.live n node hnode
    refine ⟨f, ?_, fun n node hnode => ?_, fun n m hn hm => ?_, fun m hm => ?_⟩
    · exact (Slots.slot.inj hf).1.symm
    · exact h.holds.spells.renumbered hspells' (h.live n node hnode) hnode
    · exact List.inj_on_of_nodup_map hnodup' (hlive hn) (hlive hm)
    · obtain ⟨node, hnode⟩ := Option.isSome_iff_exists.mp hm
      obtain ⟨n, hn, hfn⟩ := List.mem_map.mp (hlive' m node hnode)
      exact ⟨n, h.holds.spells.isSome hn, hfn⟩

end Tree

end LogMining
