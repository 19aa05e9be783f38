import LogMining.Proofs.Reading.Branches
import LogMining.Proofs.Slots.Held
import LogMining.Render.Outline
import LogMining.Tree.Walk

/-!
# Reading a tree that holds slots

Following the links of a tree gives back the slots that it spells out: `Tree.chain` their chain, the loop of a
walk the slots in the order of their nesting, and the loop of an outline the nesting itself. Each loop takes the
first slot of a chain off its stack, does what the recursion on slots does, and goes on with the rest of the
stack. It never comes to the end of its limit, since no two slots are the same node.
-/

namespace LogMining

theorem forM_pure {m : Type → Type} [Monad m] [LawfulMonad m] {β : Type} (l : List β) :
    (l.forM fun _ => (pure () : m Unit)) = pure () := by
  induction l with
  | nil => rfl
  | cons _ l ih => rw [List.forM_eq_forM, List.forM_cons, pure_bind, ← List.forM_eq_forM, ih]

namespace Slots

/-- The visits of a walk through a chain on the given level. -/
def visits (level : Int) : Slots → List (Int × NodeId)
  | nil => []
  | slot id _ _ below beside =>
    (level, (id : Int)) :: (visits (level + 1) below ++ visits level beside)

def branches (terminal : Terminal) : Slots → Branches
  | nil => .none
  | slot _ values lineEnds below beside =>
    .branch (Render.label terminal { values, lineEnds }) (below.branches terminal) (beside.branches terminal)

/-- The number of links that come off a stack while a chain is read, those included that lead nowhere. -/
def pops : Slots → Nat
  | nil => 1
  | slot _ _ _ below beside => below.pops + beside.pops + 1

theorem map_visits (level : Int) (slots : Slots) :
    (slots.visits level).map Prod.snd = slots.ids.map Int.ofNat := by
  induction slots generalizing level with
  | nil => rfl
  | slot id values ends below beside ihBelow ihBeside =>
      simp [visits, ihBelow, ihBeside]

theorem pops_slot_add (id : Nat) (values : List Token) (ends : Int) (below beside : Slots) (n : Nat) :
    (slot id values ends below beside).pops + n = below.pops + (beside.pops + n) + 1 := by
  rw [pops]
  omega

theorem pops_eq (slots : Slots) : slots.pops = 2 * slots.ids.length + 1 := by
  induction slots with
  | nil => rfl
  | slot id values ends below beside ihBelow ihBeside =>
      rw [pops, ihBelow, ihBeside, ids_slot, List.length_cons, List.length_append]
      omega

end Slots

namespace Tree

variable {tree : Tree} {parent : Option NodeId} {slots : Slots}

theorem Nests.chainWithin_eq {n : Nat} (h : tree.Nests slots) (hn : slots.chain.length ≤ n) :
    tree.chainWithin n slots.first = .ok slots.chain := by
  induction slots generalizing n with
  | nil => cases n <;> rfl
  | slot id values ends below beside _ ihBeside =>
      obtain ⟨⟨parent, hnode⟩, -, hbeside⟩ := h
      cases n with
      | zero => simp at hn
      | succ n =>
          have hrest := ihBeside hbeside (by simpa using hn)
          rw [Slots.first_slot, chainWithin, node_of_get? hnode]
          simp [bind, Except.bind, pure, Except.pure, hrest]

theorem chain_eq (h : tree.Holds parent slots) : tree.chain slots.first = .ok slots.chain :=
  h.spells.nests.chainWithin_eq (Nat.le_trans slots.length_chain_le h.length_ids_le_linkLimit)

theorem children_eq {id : Nat} {values : List Token} {ends : Int} {below beside : Slots}
    (h : tree.Holds parent (.slot id values ends below beside)) :
    tree.children id = .ok below.chain := by
  rw [children, node_of_get? h.spells.1]
  exact chain_eq h.below

theorem Holds.pops_le_stackLimit (h : tree.Holds parent slots) : slots.pops ≤ tree.stackLimit := by
  have hids := h.length_ids_le
  have hpow : tree.size + 1 < 2 ^ (tree.size + 1) := Nat.lt_two_pow_self
  have hlimit : tree.stackLimit = 2 * 2 ^ (tree.size + 1) := Nat.pow_succ'
  rw [Slots.pops_eq]
  omega

section Loops

variable {m : Type → Type} [Monad m] [MonadExceptOf Fault m] {α : Type}

theorem ofExcept_node {id : Nat} {node : Node} (h : tree.get? id = some node) :
    (MonadExcept.ofExcept (tree.node id) : m Node) = pure node := by
  rw [node_of_get? h]
  rfl

@[simp] theorem walkLoop_nil (visit : Int → NodeId → m α) (n : Nat) (answers : List α) :
    tree.walkLoop visit n [] answers = pure answers.reverse := by
  cases n <;> rfl

@[simp] theorem outlineLoop_nil (terminal : Terminal) (report : m Unit) (n : Nat) (branches : Branches) :
    tree.outlineLoop terminal report n [] branches = pure branches := by
  cases n <;> rfl

variable [LawfulMonad m]

/-- The loop of a walk visits a chain that is on top of the stack, and leaves the rest of the stack. -/
theorem walkLoop_slots (h : tree.Nests slots) (visit : Int → NodeId → m α) (n : Nat) (level : Int)
    (stack : List (Option NodeId × Int)) (answers : List α) :
    tree.walkLoop visit (slots.pops + n) ((slots.first, level) :: stack) answers = (do
      let more ← (slots.visits level).mapM fun v => visit v.1 v.2
      tree.walkLoop visit n stack (more.reverse ++ answers)) := by
  -- on the slots, each of which puts its child and its sibling on top of what was there
  induction slots generalizing n level stack answers with
  | nil => simp [Slots.pops, Slots.visits, Nat.add_comm 1 n, walkLoop]
  | slot id values ends below beside ihBelow ihBeside =>
      obtain ⟨⟨parent, hnode⟩, hbelow, hbeside⟩ := h
      rw [Slots.pops_slot_add, Slots.first_slot, walkLoop, ofExcept_node hnode, pure_bind, Slots.visits,
        List.mapM_cons, List.mapM_append]
      simp only [bind_assoc, pure_bind]
      refine bind_congr fun answer => ?_
      rw [ihBelow hbelow]
      refine bind_congr fun answersBelow => ?_
      rw [ihBeside hbeside]
      simp

/-- The loop of an outline puts a chain that is on top of the stack where its link belongs, reports every slot
of it, and leaves the rest of the stack. -/
theorem outlineLoop_slots (h : tree.Nests slots) (terminal : Terminal) (report : m Unit) (n : Nat)
    (way : List Nat) (stack : List (Option NodeId × List Nat)) (branches : Branches) :
    tree.outlineLoop terminal report (slots.pops + n) ((slots.first, way) :: stack) branches = (do
      slots.ids.forM fun _ => report
      tree.outlineLoop terminal report n stack (.insertAt (slots.branches terminal) way branches)) := by
  induction slots generalizing n way stack branches with
  | nil => simp [Slots.pops, Slots.branches, Nat.add_comm 1 n, outlineLoop]
  | slot id values ends below beside ihBelow ihBeside =>
      obtain ⟨⟨parent, hnode⟩, hbelow, hbeside⟩ := h
      rw [Slots.pops_slot_add, Slots.first_slot, outlineLoop, ofExcept_node hnode, pure_bind, Slots.ids_slot,
        List.forM_eq_forM, List.forM_cons, List.forM_append, Slots.branches, ← Branches.insertAt_insertAt]
      simp only [bind_assoc]
      refine bind_congr fun _ => ?_
      rw [Branches.add, ihBelow hbelow]
      refine bind_congr fun _ => ?_
      rw [ihBeside hbeside]
      rfl

theorem walkLoop_stackLimit (h : tree.Holds parent slots) (visit : Int → NodeId → m α) (level : Int) :
    tree.walkLoop visit tree.stackLimit [(slots.first, level)] [] =
      (slots.visits level).mapM fun v => visit v.1 v.2 := by
  obtain ⟨n, hn⟩ := Nat.exists_eq_add_of_le h.pops_le_stackLimit
  rw [hn, walkLoop_slots h.spells.nests]
  simp

theorem outlineLoop_stackLimit (h : tree.Holds parent slots) (terminal : Terminal) (report : m Unit) :
    tree.outlineLoop terminal report tree.stackLimit [(slots.first, [])] .none = do
      slots.ids.forM fun _ => report
      return slots.branches terminal := by
  obtain ⟨n, hn⟩ := Nat.exists_eq_add_of_le h.pops_le_stackLimit
  rw [hn, outlineLoop_slots h.spells.nests]
  rw [outlineLoop_nil, Branches.insertAt]

theorem outlineBy_eq {id : Nat} {values : List Token} {ends : Int} {below beside : Slots}
    (h : tree.Holds parent (.slot id values ends below beside)) (terminal : Terminal) (report : m Unit) :
    tree.outlineBy terminal report id = do
      below.ids.forM fun _ => report
      return { label := Render.label terminal { values, lineEnds := ends }
               branches := below.branches terminal } := by
  rw [outlineBy, ofExcept_node h.spells.1, pure_bind, outlineLoop_stackLimit h.below]
  simp only [bind_assoc, pure_bind]
  rfl

end Loops

theorem walkFrom_eq {id : Nat} {values : List Token} {ends : Int} {below beside : Slots}
    (h : tree.Holds parent (.slot id values ends below beside)) (level : Int) :
    tree.walkFrom id level =
      .ok ((Slots.slot id values ends below beside).visits level) := by
  have hwalk := walkLoop_stackLimit h visited level
  rw [Slots.first_slot] at hwalk
  rw [walkFrom, hwalk]
  exact List.mapM_pure.trans (congrArg Except.ok (List.map_id _))

theorem outlineFrom_eq {id : Nat} {values : List Token} {ends : Int} {below beside : Slots}
    (h : tree.Holds parent (.slot id values ends below beside)) (terminal : Terminal) :
    tree.outlineFrom terminal id =
      .ok { label := Render.label terminal { values, lineEnds := ends }
            branches := below.branches terminal } := by
  rw [outlineFrom, outlineBy_eq h, forM_pure]
  rfl

end Tree

end LogMining
