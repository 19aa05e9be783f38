import LogMining.Proofs.Sharing.Again
import LogMining.Proofs.Sharing.Coherent
import Mathlib.Data.Finset.Card
import Mathlib.Data.Finset.Image
import Mathlib.Data.List.Infix

/-!
# What lines share in a tree

A tree that has grown from lines holds each word at most once below a node, so every line has one place in
it. The place stays the same: a line that is inserted again comes to the node at which it ended before. And
since each node has been reached by the beginning of some line, the tree has no more nodes than the lines
have beginnings.
-/

namespace LogMining.Tree

def wordsAt (tree : Tree) (id : NodeId) : List String :=
  match tree.node id with
  | .ok node => node.values.map Token.word
  | .error _ => []

/-- The different beginnings of lines, without the empty one. -/
def beginnings (lines : List (List String)) : Finset (List String) :=
  (lines.flatMap List.inits).toFinset.erase []

/-- A line has its place in a tree: it ends at the node `id`, and a line with the same words that is
inserted comes to this node again and is only counted along the route. -/
structure Keeps (tree : Tree) (line : List String) (id : NodeId) : Prop where
  followed : (tree.route root line).length = line.length
  ends : tree.endsAt id line = true
  counted : ∀ tokens : List Token, tokens.map Token.word = line →
    ∃ tree', (insertTokens tokens).run tree = .ok id tree' ∧
      tree.Recounts tree' ((tree.route root line).zip line) id

/-- A tree keeps once what its lines have in common. -/
structure Shares (tree : Tree) (lines : List (List Token)) : Prop where
  /-- No word is in two children of a node or twice in one of them. -/
  distinct : ∀ n node, tree.get? n = some node →
    ∃ ids, tree.children n = .ok ids ∧ (ids.flatMap tree.wordsAt).Nodup
  /-- A line keeps the node at which it ended when it was inserted. -/
  again : ∀ before line after, lines = before ++ line :: after →
    ∃ early id early', (insertLines before).run empty = .ok () early ∧
      (insertTokens line).run early = .ok id early' ∧ tree.Keeps (line.map Token.word) id
  /-- There are no more nodes below the root than beginnings of lines. -/
  live_le : tree.live ≤ 1 + (beginnings (lines.map fun line => line.map Token.word)).card

theorem mem_beginnings {lines : List (List String)} {start : List String} :
    start ∈ beginnings lines ↔ start ≠ [] ∧ ∃ line ∈ lines, start <+: line := by
  simp [beginnings]

variable {tree : Tree} {parent : Option NodeId} {slots below : Slots} {lines : List (List String)}
  {ends : Int} {n : Nat} {node : Node}

theorem flatMap_wordsAt (h : tree.Spells parent slots) :
    slots.chain.flatMap tree.wordsAt = slots.words := by
  induction slots with
  | nil => rfl
  | slot id values ends below beside _ ihBeside =>
      rw [Slots.chain_slot, List.flatMap_cons, ihBeside h.2.2, wordsAt, node_of_get? h.1]
      rfl

theorem route_take (tree : Tree) (id : NodeId) (line : List String) (k : Nat) :
    tree.route id (line.take k) = (tree.route id line).take k := by
  induction line generalizing id k with
  | nil => simp [route]
  | cons word words ih =>
      cases k with
      | zero => simp [route]
      | succ k =>
          rw [List.take_succ_cons, route, route]
          split
          · rw [List.take_succ_cons, ih]
          · rfl

theorem run_insertLines_append {before after : List (List Token)} {tree mid : Tree}
    (h : (insertLines before).run tree = .ok () mid) :
    (insertLines (before ++ after)).run tree = (insertLines after).run mid := by
  induction before generalizing tree with
  | nil =>
      cases h
      rfl
  | cons tokens before ih =>
      rw [insertLines, EStateM.run_bind] at h
      rw [List.cons_append, insertLines, EStateM.run_bind]
      cases hrun : (insertTokens tokens).run tree with
      | error fault tree' =>
          rw [hrun] at h
          cases h
      | ok id tree' =>
          rw [hrun] at h
          exact ih h

namespace Comprises

variable (h : tree.Comprises ends below) (htraces : below.Traces lines)

include h htraces

theorem nodup_children (hnode : tree.get? n = some node) :
    ∃ ids, tree.children n = .ok ids ∧ (ids.flatMap tree.wordsAt).Nodup := by
  by_cases hn : n = 0
  · subst hn
    refine ⟨below.chain, children_eq h.holds, ?_⟩
    rw [flatMap_wordsAt h.holds.below.spells]
    exact htraces.covers.nodup
  · obtain ⟨below', here, htraced⟩ := h.exists_tracedAt htraces hnode hn
    refine ⟨below'.chain, ?_, ?_⟩
    · rw [children, node_of_get? hnode]
      change tree.chain node.child = _
      rw [htraced.child]
      exact chain_eq htraced.holds
    · rw [flatMap_wordsAt htraced.holds.spells]
      exact htraced.traces.covers.nodup

theorem exists_beginning (hnode : tree.get? n = some node) (hn : n ≠ 0) :
    ∃ start ∈ beginnings lines, (tree.route root start).getLast? = some (n : Int) := by
  obtain ⟨below', here, htraced⟩ := h.exists_tracedAt htraces hnode hn
  obtain ⟨t, more, hvalues⟩ := List.exists_cons_of_ne_nil htraced.member.nonempty
  have hword : t.word ∈ node.values.map Token.word := by simp [show node.values = _ from hvalues]
  obtain ⟨rest, hrest⟩ := htraced.member.start t.word hword
  obtain ⟨before, ids, hline, hlength, hroute⟩ := htraced.passed t.word hword rest hrest
  refine ⟨(before ++ t.word :: rest).take (before.length + 1), ?_, ?_⟩
  · exact mem_beginnings.mpr ⟨by simp, _, hline, List.take_prefix _ _⟩
  · rw [route_take, hroute, ← hlength]
    simp [List.take_append]

theorem live_le : tree.live ≤ 1 + (beginnings lines).card := by
  let lead (start : List String) : Nat := ((tree.route root start).getLast?.getD root).toNat
  have hsub : tree.numbers.toFinset.erase 0 ⊆ (beginnings lines).image lead := by
    intro n hn
    rw [Finset.mem_erase, List.mem_toFinset, mem_numbers] at hn
    obtain ⟨hn, node, hnode⟩ := hn
    obtain ⟨start, hstart, hroute⟩ := h.exists_beginning htraces hnode hn
    exact Finset.mem_image.mpr ⟨start, hstart, by simp [lead, hroute]⟩
  have hroot : 0 ∈ tree.numbers.toFinset := by
    rw [List.mem_toFinset, mem_numbers]
    exact ⟨_, h.holds.spells.1⟩
  have hcard := (Finset.card_le_card hsub).trans Finset.card_image_le
  rw [Finset.card_erase_of_mem hroot, List.toFinset_card_of_nodup tree.nodup_numbers, length_numbers]
    at hcard
  omega

end Comprises

theorem keeps_of_run {before after : List (List Token)} {line : List Token}
    (hrun : (insertLines (before ++ line :: after)).run empty = .ok () tree) :
    ∃ early id early', (insertLines before).run empty = .ok () early ∧
      (insertTokens line).run early = .ok id early' ∧ tree.Keeps (line.map Token.word) id := by
  obtain ⟨early, ends, below, hbefore, hearly, hextends⟩ :=
    run_insertLines_extends comprises_empty before
  obtain ⟨id, early', ends', below', hline, hearly', hextends', hcarries, hlast⟩ :=
    run_insertTokens_extends hearly line
  obtain ⟨tree', ends'', below'', hafter, htree, hextends''⟩ := run_insertLines_extends hearly' after
  rw [run_insertLines_append hbefore, insertLines, EStateM.run_bind, hline] at hrun
  cases hafter.symm.trans hrun
  have htraces := ((hextends.trans hextends').trans hextends'').traces [] Slots.traces_nil
  have hroute := htree.route_root_eq_of_traces htraces (line.map Token.word)
  have hkept := hextends''.route_eq _ hcarries
  refine ⟨early, id, early', hbefore, hline, ?_, ?_, fun tokens htokens => ?_⟩
  · rw [hroute, hkept, hcarries]
  · rw [endsAt, hroute, hkept, hlast, beq_iff_eq]
  · obtain ⟨id', tree', hagain, hlast', hrecounts⟩ :=
      run_insertTokens_again htree tokens (htokens ▸ hextends''.carries hcarries)
    rw [htokens, hkept, hlast] at hlast'
    obtain rfl := Option.some.inj hlast'
    rw [htokens, ← hroute] at hrecounts
    exact ⟨tree', hagain, hrecounts⟩

/-- A tree that has grown from lines shares what they have in common. -/
theorem shares_of_insertLines (lines : List (List Token)) :
    ∃ tree, (insertLines lines).run empty = .ok () tree ∧ tree.Shares lines := by
  obtain ⟨tree, ends, below, hrun, htree, htraces⟩ := exists_traces lines
  refine ⟨tree, hrun, fun _ _ hnode => htree.nodup_children htraces hnode, ?_,
    htree.live_le htraces⟩
  intro before line after hlines
  exact keeps_of_run (hlines ▸ hrun)

end LogMining.Tree
