import LogMining.Proofs.Slots.Linked
import LogMining.Render.Dump
import Mathlib.Data.List.Forall2

/-!
# The rows of a dump

A dump has a row for every value, with the level of its node. The rows of a whole tree are those of its slots
in the order of a walk, and the lines of the dump are their texts.
-/

namespace LogMining

theorem mapM_eq_ok_iff {α β : Type} {f : α → Except Fault β} {l : List α} {bs : List β} :
    l.mapM f = .ok bs ↔ List.Forall₂ (fun a b => f a = .ok b) l bs := by
  induction l generalizing bs with
  | nil =>
      rw [List.mapM_nil, List.forall₂_nil_left_iff]
      exact ⟨fun h => by cases h; rfl, fun h => by rw [h]; rfl⟩
  | cons a l ih =>
      rw [List.mapM_cons, List.forall₂_cons_left_iff]
      constructor
      · intro h
        cases ha : f a with
        | error fault =>
            rw [ha] at h
            cases h
        | ok b =>
            cases hl : l.mapM f with
            | error fault =>
                rw [ha, hl] at h
                cases h
            | ok rest =>
                rw [ha, hl] at h
                cases h
                exact ⟨b, rest, rfl, ih.mp hl, rfl⟩
      · rintro ⟨b, rest, hb, hrest, rfl⟩
        rw [hb, ih.mpr hrest]
        rfl

def Render.endsTag (n : Int) : String := if n = 0 then "" else " [nterm " ++ toString n ++ "]"

/-- A value as a dump shows it. -/
@[ext]
structure Row where
  /-- The level of the node. -/
  level : Nat
  /-- The value is the first one of its node. -/
  isFirst : Bool
  token : Token
  /-- The number of lines that end at the node, which goes with its first value. -/
  lineEnds : Int

namespace Row

def letter (r : Row) : Char := if r.isFirst then 'l' else 'v'

def text (r : Row) : String :=
  Render.indent r.level (String.singleton r.letter) ++ r.token.format ++ Render.endsTag r.lineEnds

def ofValues (level : Nat) (ends : Int) : List Token → List Row
  | [] => []
  | t :: more => ⟨level, true, t, ends⟩ :: more.map fun u => ⟨level, false, u, 0⟩

end Row

theorem Render.nodeLines_eq {node : Node} (h : node.values ≠ []) (level : Nat) :
    nodeLines level node = .ok ((Row.ofValues level node.lineEnds node.values).map Row.text) := by
  obtain ⟨t, more, hvalues⟩ := List.exists_cons_of_ne_nil h
  rw [nodeLines, hvalues, Row.ofValues, List.map_cons, List.map_map]
  refine congrArg (fun lines => Except.ok (_ :: lines)) (List.map_congr_left fun u _ => ?_)
  exact (String.append_empty ..).symm

def Slots.rows (level : Nat) : Slots → List Row
  | nil => []
  | slot _ values ends below beside =>
    Row.ofValues level ends values ++ (rows (level + 1) below ++ rows level beside)

theorem Slots.rows_slot (level id : Nat) (values : List Token) (ends : Int) (below beside : Slots) :
    (slot id values ends below beside).rows level =
      Row.ofValues level ends values ++ (below.rows (level + 1) ++ beside.rows level) := rfl

namespace Tree

variable {tree : Tree} {parent : Option NodeId} {slots : Slots} {ends : Int} {below : Slots}

theorem exists_mapM_visits (h : tree.Spells parent slots) (hproper : slots.Proper) (level : Nat) :
    ∃ blocks, (slots.visits level).mapM (fun v => tree.nodeLines v.1 v.2) = .ok blocks ∧
      blocks.flatten = (slots.rows level).map Row.text := by
  induction slots generalizing parent level with
  | nil => exact ⟨[], rfl, rfl⟩
  | slot id values ends below beside ihBelow ihBeside =>
      obtain ⟨hnode, hbelow, hbeside⟩ := h
      obtain ⟨hne, -, hproperBelow, hproperBeside⟩ := hproper
      obtain ⟨blocksBelow, hrunBelow, hlinesBelow⟩ := ihBelow hbelow hproperBelow (level + 1)
      obtain ⟨blocksBeside, hrunBeside, hlinesBeside⟩ := ihBeside hbeside hproperBeside level
      have hlines : tree.nodeLines level id = .ok ((Row.ofValues level ends values).map Row.text) := by
        rw [nodeLines, node_of_get? hnode]
        exact Render.nodeLines_eq hne level
      refine ⟨(Row.ofValues level ends values).map Row.text :: (blocksBelow ++ blocksBeside), ?_, ?_⟩
      · rw [Slots.visits, List.mapM_cons, List.mapM_append, ← Int.natCast_succ, hrunBelow, hrunBeside]
        simp only [hlines]
        rfl
      · rw [List.flatten_cons, List.flatten_append, hlinesBelow, hlinesBeside, Slots.rows_slot,
          List.map_append, List.map_append]

section Reports

variable {m : Type → Type} [Monad m] [LawfulMonad m] {α β : Type}

theorem forM_visits (level : Int) (report : m Unit) :
    ((slots.visits level).forM fun _ => report) = slots.ids.forM fun _ => report := by
  have hids := congrArg (List.forM · fun _ => report) (slots.map_visits level)
  simpa [List.forM_map] using hids

variable [MonadExceptOf Fault m]

/-- Where every element of a list has a result, reporting the elements one by one and then giving the results
comes to the same as giving each result when its element has been reported. -/
theorem mapM_report {f : α → Except Fault β} {l : List α} {bs : List β} (h : l.mapM f = .ok bs)
    (report : m Unit) :
    (l.mapM fun a => do report; MonadExcept.ofExcept (f a)) = (do
      l.forM fun _ => report
      return bs) := by
  rw [mapM_eq_ok_iff] at h
  induction h with
  | nil => simp
  | @cons a b l bs hab _ ih =>
      have hresult : (MonadExcept.ofExcept (f a) : m β) = pure b := by
        rw [hab]
        rfl
      simp [hresult, ih]

theorem Comprises.dumpBy_blocks (h : tree.Comprises ends below) {blocks : List (List String)}
    (hblocks : ((Slots.root ends below).visits 0).mapM (fun v => tree.nodeLines v.1 v.2) = .ok blocks)
    (report : m Unit) :
    tree.dumpBy report = (do
      (Slots.root ends below).ids.forM fun _ => report
      return blocks.flatten) := by
  have hloop := walkLoop_stackLimit h.holds
    (fun level id => do report; MonadExcept.ofExcept (tree.nodeLines level id)) 0
  rw [mapM_report hblocks, forM_visits] at hloop
  rw [dumpBy]
  refine (congrArg (· >>= fun blocks => pure blocks.flatten) hloop).trans ?_
  simp

end Reports

theorem Comprises.dump_blocks (h : tree.Comprises ends below) {blocks : List (List String)}
    (hblocks : ((Slots.root ends below).visits 0).mapM (fun v => tree.nodeLines v.1 v.2) = .ok blocks) :
    tree.dump = .ok blocks.flatten := by
  rw [dump, h.dumpBy_blocks hblocks, forM_pure]
  rfl

theorem Comprises.dump_eq (h : tree.Comprises ends below) :
    tree.dump = .ok (((Slots.root ends below).rows 0).map Row.text) := by
  obtain ⟨blocks, hblocks, hlines⟩ := exists_mapM_visits h.holds.spells h.proper_root 0
  rw [h.dump_blocks hblocks, hlines]

/-- Reporting the nodes does not change the dump. -/
theorem Comprises.dumpBy_eq {m : Type → Type} [Monad m] [LawfulMonad m] [MonadExceptOf Fault m]
    (h : tree.Comprises ends below) {lines : List String} (hlines : tree.dump = .ok lines) (report : m Unit) :
    tree.dumpBy report = (do
      (Slots.root ends below).ids.forM fun _ => report
      return lines) := by
  obtain ⟨blocks, hblocks, -⟩ := exists_mapM_visits h.holds.spells h.proper_root 0
  cases hlines.symm.trans (h.dump_blocks hblocks)
  exact h.dumpBy_blocks hblocks report

end Tree

end LogMining
