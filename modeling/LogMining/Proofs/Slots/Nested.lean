import LogMining.Proofs.Slots.Linked

/-!
# Trees whose links are sound consist of slots

A whole tree is well-formed; this is the way back. If a walk from the root comes to every node once, following
it gives slots that the nodes are linked as, whatever parents they name. The parents then are the ones that
slots have, since each node names the one among whose children it is.
-/

namespace LogMining.Tree

/-- The links of a tree make up a tree, whatever values its nodes have. -/
structure WellLinked (tree : Tree) : Prop where
  /-- The root has neither parent nor sibling. -/
  root : ∃ node, tree.get? 0 = some node ∧ node.parent = none ∧ node.sibling = none
  /-- No link leads to a node that is not there. -/
  linked : ∀ id ∈ tree.links, ∃ n ∈ tree.numbers, id = (n : Int)
  /-- A walk comes to every node once. -/
  walk : ∃ visits, tree.walk = .ok visits ∧ (visits.map Prod.snd).Perm (tree.numbers.map Int.ofNat)
  /-- The parent of a node is the one node among whose children it is. -/
  parent : ∀ n node, tree.get? n = some node → n ≠ 0 → ∃ p : Nat, node.parent = some (p : Int) ∧
    ∀ q : Nat, (∃ ids, tree.children q = .ok ids ∧ (n : Int) ∈ ids) ↔ q = p

variable {tree : Tree} {slots : Slots}

theorem WellFormed.wellLinked (h : tree.WellFormed) : tree.WellLinked where
  root := h.root
  linked := h.linked
  walk := by
    obtain ⟨visits, hwalk, hperm, -⟩ := h.walk
    exact ⟨visits, hwalk, hperm⟩
  parent := h.parent

theorem mem_links_of_get? {n : Nat} {node : Node} (hnode : tree.get? n = some node) {id : NodeId}
    (hid : id ∈ node.links) : id ∈ tree.links := by
  rw [links, List.mem_flatMap]
  exact ⟨n, mem_numbers.mpr ⟨node, hnode⟩, linksAt_of_get? hnode ▸ hid⟩

/-- The loop of a walk that comes to an end has visited slots with the link on top of its stack, and has gone on
from there with the rest of the stack. -/
theorem exists_nests_of_walkLoop (hlinked : ∀ id ∈ tree.links, ∃ n ∈ tree.numbers, id = (n : Int)) {n : Nat}
    {level : Int} {first : Option NodeId} (hfirst : ∀ id, first = some id → ∃ m : Nat, id = m)
    {stack : List (Option NodeId × Int)} {answers visits : List (Int × NodeId)}
    (h : tree.walkLoop visited n ((first, level) :: stack) answers = .ok visits) :
    ∃ slots n', slots.first = first ∧ tree.Nests slots ∧ n' < n ∧
      tree.walkLoop visited n' stack ((slots.visits level).reverse ++ answers) =
        .ok visits := by
  -- on the bound of the loop, since nothing is known yet of the nodes it comes to
  induction n using Nat.strongRecOn generalizing level first stack answers with
  | ind n ih =>
      match n, first, h with
      | n + 1, none, h => exact ⟨.nil, n, rfl, trivial, Nat.lt_succ_self n, h⟩
      | n + 1, some id, h =>
          obtain ⟨m, rfl⟩ := hfirst id rfl
          rw [walkLoop] at h
          cases hnode : tree.node m with
          | error fault =>
              rw [hnode] at h
              cases h
          | ok node =>
              rw [hnode] at h
              have hget := node_eq_ok_iff.mp hnode
              have hlink : ∀ link ∈ node.links, ∃ m : Nat, link = m := by
                intro link hmem
                obtain ⟨k, -, hk⟩ := hlinked link (mem_links_of_get? hget hmem)
                exact ⟨k, hk⟩
              obtain ⟨below, n₁, hfirstBelow, hnestsBelow, hn₁, hrest⟩ :=
                ih n (Nat.lt_succ_self n) (fun link hmem => hlink link (by simp [Node.links, hmem])) h
              obtain ⟨beside, n₂, hfirstBeside, hnestsBeside, hn₂, hrest⟩ :=
                ih n₁ (by omega) (fun link hmem => hlink link (by simp [Node.links, hmem])) hrest
              refine ⟨.slot m node.values node.lineEnds below beside, n₂, rfl,
                ⟨⟨node.parent, ?_⟩, hnestsBelow, hnestsBeside⟩, by omega, ?_⟩
              · rw [hget, hfirstBelow, hfirstBeside]
              · simpa [Slots.visits] using hrest

theorem WellLinked.parent_eq (hwell : tree.WellLinked) {id : Nat} {node : Node} {below : Slots}
    (hnode : tree.get? id = some node) (hchild : node.child = below.first) (hbelow : tree.Nests below)
    (hroot : 0 ∉ below.ids) (hlength : below.ids.length ≤ tree.linkLimit) {n : Nat} {node' : Node}
    (hn : (n : Int) ∈ below.chain) (hget : tree.get? n = some node') : node'.parent = some (id : Int) := by
  have hchildren : tree.children id = .ok below.chain := by
    have hchain := hbelow.chainWithin_eq (Nat.le_trans below.length_chain_le hlength)
    rw [← hchild] at hchain
    rw [children, node_of_get? hnode]
    exact hchain
  have hne : n ≠ 0 := fun hzero => hroot (hzero ▸ below.mem_ids_of_mem_chain hn)
  obtain ⟨p, hp, hiff⟩ := hwell.parent n node' hget hne
  rw [hp, (hiff id).mp ⟨_, hchildren, hn⟩]

/-- Where nodes name the ones among whose children they are, nested slots have the parents that they name. -/
theorem WellLinked.spells (hwell : tree.WellLinked) (h : tree.Nests slots) (hroot : 0 ∉ slots.ids)
    (hlength : slots.ids.length ≤ tree.linkLimit) {parent : Option NodeId}
    (hchain : ∀ (n : Nat) node, (n : Int) ∈ slots.chain → tree.get? n = some node →
      node.parent = parent) :
    tree.Spells parent slots := by
  induction slots generalizing parent with
  | nil => trivial
  | slot id values ends below beside ihBelow ihBeside =>
      obtain ⟨⟨parent', hnode⟩, hbelow, hbeside⟩ := h
      -- below a node the chain names that node, and beside it the chain goes on with the same parent
      obtain rfl : parent' = parent := hchain id _ (by simp) hnode
      simp only [Slots.ids_slot, List.mem_cons, List.mem_append, not_or, List.length_cons,
        List.length_append] at hroot hlength
      refine ⟨hnode, ihBelow hbelow hroot.2.1 (by omega) ?_, ihBeside hbeside hroot.2.2 (by omega) ?_⟩
      · exact fun n node => hwell.parent_eq hnode rfl hbelow hroot.2.1 (by omega)
      · exact fun n node hn => hchain n node (List.mem_cons_of_mem _ hn)

/-- A tree whose links are sound consists of slots, the first of which is the root. -/
theorem WellLinked.exists_holds (hwell : tree.WellLinked) :
    ∃ values ends below, tree.Holds none (.slot 0 values ends below .nil) ∧
      ∀ n node, tree.get? n = some node → n ∈ (Slots.slot 0 values ends below .nil).ids := by
  obtain ⟨visits, hwalk, hperm⟩ := hwell.walk
  obtain ⟨root, hget, hparent, hsibling⟩ := hwell.root
  obtain ⟨slots, n, hfirst, hnests, -, hrest⟩ :=
    exists_nests_of_walkLoop hwell.linked (fun id hid => ⟨0, (Option.some.inj hid).symm⟩) hwalk
  rw [walkLoop_nil] at hrest
  cases hrest
  have hids : slots.ids.Perm tree.numbers := by
    rw [List.append_nil, List.reverse_reverse, Slots.map_visits] at hperm
    exact (List.map_perm_map_iff fun _ _ => Int.ofNat.inj).mp hperm
  have hnodup := hids.nodup_iff.mpr tree.nodup_numbers
  have hlength : slots.ids.length ≤ tree.linkLimit := by
    rw [hids.length_eq, length_numbers, live, linkLimit]
    exact Nat.le_succ_of_le Array.countP_le_size
  cases slots with
  | nil => cases hfirst
  | slot id values ends below beside =>
      obtain rfl : id = 0 := Int.ofNat.inj (Option.some.inj hfirst)
      obtain ⟨⟨parent', hnode⟩, hbelow, -⟩ := hnests
      rw [hget] at hnode
      cases hnode
      obtain rfl := (Slots.first_eq_none_iff beside).mp hsibling
      obtain rfl : parent' = none := hparent
      have hroot : 0 ∉ below.ids := (Slots.nodup_ids_slot.mp hnodup).1
      have hle : below.ids.length ≤ tree.linkLimit := by
        simp only [Slots.ids_slot, List.length_cons, List.length_append] at hlength
        omega
      refine ⟨values, ends, below, ⟨⟨hget, ?_, trivial⟩, hnodup⟩, ?_⟩
      · exact hwell.spells hbelow hroot hle fun n node => hwell.parent_eq hget rfl hbelow hroot hle
      · exact fun n node hnode => hids.mem_iff.mpr (mem_numbers.mpr ⟨node, hnode⟩)

theorem WellLinked.exists_slot (hwell : tree.WellLinked) {n : Nat} {node : Node}
    (hnode : tree.get? n = some node) :
    ∃ parent values ends below beside,
      node = { values, parent, child := below.first, sibling := beside.first, lineEnds := ends } ∧
        tree.Holds parent (.slot n values ends below beside) := by
  obtain ⟨rootValues, rootEnds, rootBelow, hroot, hmem⟩ := hwell.exists_holds
  obtain ⟨parent, values, ends, below, beside, h, -⟩ := hroot.exists_slot (hmem n node hnode)
  exact ⟨parent, values, ends, below, beside, Option.some.inj (hnode.symm.trans h.spells.1), h⟩

end LogMining.Tree
