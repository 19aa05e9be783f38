import LogMining.Proofs.Accounts.Route
import LogMining.Proofs.Slots.Linked
import Mathlib.Algebra.BigOperators.Group.List.Basic
import Mathlib.Algebra.GroupWithZero.Nat
import Mathlib.Algebra.Ring.Int.Defs

/-!
# What the numbers in a tree mean

In a tree that has grown from lines every line can be followed, every value counts the lines that pass its
node with its word, and every node counts the lines that end there. So the lines that come to a node are
those that end there and those that go on, and all lines end somewhere.
-/

namespace LogMining

namespace Tree

/-- The sum of the counts of the values of a node. -/
def occursAt (tree : Tree) (id : NodeId) : Int :=
  match tree.node id with
  | .ok node => (node.values.map Token.occurs).sum
  | .error _ => 0

/-- The counts in a tree are those of the given lines. -/
structure Accounts (tree : Tree) (lines : List (List String)) : Prop where
  /-- Every line can be followed to its end. -/
  followed : ∀ line ∈ lines, (tree.route root line).length = line.length
  /-- A value counts the lines that pass its node with its word. -/
  occurs : ∀ n node, tree.get? n = some node → n ≠ 0 →
    ∀ t ∈ node.values, t.occurs = lines.countP (tree.passes n t.word)
  /-- A node counts the lines that end there. -/
  lineEnds : ∀ n node, tree.get? n = some node → node.lineEnds = lines.countP (tree.endsAt n)
  /-- The lines that come to a node end there or go on. -/
  balance : ∀ n node, tree.get? n = some node → n ≠ 0 →
    ∃ ids, tree.children n = .ok ids ∧
      (node.values.map Token.occurs).sum = node.lineEnds + (ids.map tree.occursAt).sum
  /-- Every line ends somewhere. -/
  total : (tree.numbers.map tree.lineEndsAt).sum = lines.length

end Tree

namespace Slots

def occursSum : Slots → Int
  | nil => 0
  | slot _ values _ _ beside => (values.map Token.occurs).sum + beside.occursSum

def endsSum : Slots → Int
  | nil => 0
  | slot _ _ ends below beside => ends + below.endsSum + beside.endsSum

variable {slots : Slots} {lines : List (List String)}

theorem length_through_cons {word : String} {words : List String} (h : word ∉ words)
    (lines : List (List String)) :
    (through (word :: words) lines).length =
      (lines.countP fun line => line.head? = some word) + (through words lines).length := by
  induction lines with
  | nil => rfl
  | cons line lines ih =>
      cases line with
      | nil => simpa [through] using ih
      | cons w line =>
          by_cases hw : w = word
          · subst hw
            simp only [through, List.filterMap_cons, List.mem_cons, true_or, if_true, h, if_false,
              List.length_cons, List.head?_cons, List.countP_cons, decide_true] at ih ⊢
            omega
          · by_cases hmem : w ∈ words
            · simp only [through, List.filterMap_cons, List.mem_cons, hw, hmem, or_true, if_true,
                List.length_cons, List.head?_cons, List.countP_cons, Option.some.injEq,
                decide_false, Bool.false_eq_true, if_false] at ih ⊢
              omega
            · simpa [through, hw, hmem] using ih

theorem sum_countP_head {words : List String} (h : words.Nodup) (lines : List (List String)) :
    (words.map fun word => lines.countP fun line => line.head? = some word).sum =
      (through words lines).length := by
  induction words with
  | nil => simp [through_nil]
  | cons word words ih =>
      rw [List.nodup_cons] at h
      rw [List.map_cons, List.sum_cons, ih h.2, length_through_cons h.1]

theorem length_through_append {left right : List String} (h : (left ++ right).Nodup)
    (lines : List (List String)) :
    (through (left ++ right) lines).length =
      (through left lines).length + (through right lines).length := by
  obtain ⟨hleft, hright, -⟩ := List.nodup_append.mp h
  rw [← sum_countP_head h, ← sum_countP_head hleft, ← sum_countP_head hright, List.map_append,
    List.sum_append]

theorem Covers.length_eq (h : slots.Covers lines) :
    lines.length = lines.count [] + (through slots.words lines).length := by
  have hmem := h.mem
  clear h
  induction lines with
  | nil => rfl
  | cons line lines ih =>
      have hrest := ih fun word rest hline => hmem word rest (List.mem_cons_of_mem _ hline)
      cases line with
      | nil =>
          simp only [through, List.filterMap_cons, List.length_cons, List.count_cons_self]
            at hrest ⊢
          omega
      | cons word line =>
          have hword := hmem word line List.mem_cons_self
          simp only [through, List.filterMap_cons, hword, if_true, List.length_cons] at hrest ⊢
          rw [List.count_cons_of_ne (by simp)]
          omega

theorem sum_occurs {values : List Token}
    (hvalues : ∀ t ∈ values, t.occurs = lines.countP fun line => line.head? = some t.word)
    (hnodup : (values.map Token.word).Nodup) :
    (values.map Token.occurs).sum = (through (values.map Token.word) lines).length := by
  rw [← sum_countP_head hnodup, List.map_map]
  clear hnodup
  induction values with
  | nil => rfl
  | cons t values ih =>
      have hrest := ih fun u hu => hvalues u (List.mem_cons_of_mem t hu)
      rw [List.map_cons, List.map_cons, List.sum_cons, List.sum_cons, hrest,
        hvalues t List.mem_cons_self]
      rfl

theorem Tallies.occursSum_eq (h : slots.Tallies lines) (hnodup : slots.words.Nodup) :
    slots.occursSum = (through slots.words lines).length := by
  induction slots with
  | nil => simp [occursSum, through_nil]
  | slot id values ends below beside _ ihBeside =>
      obtain ⟨hvalues, -, hbeside⟩ := tallies_slot.mp h
      obtain ⟨hleft, hright, -⟩ := List.nodup_append.mp hnodup
      rw [occursSum, sum_occurs hvalues hleft, ihBeside hbeside hright, words_slot,
        length_through_append hnodup]
      rfl

theorem Accounts.length_eq {ends : Int} {below : Slots} (h : Accounts (ends, below) lines) :
    (lines.length : Int) = ends + below.occursSum := by
  have hends : ends = lines.count [] := h.ends
  rw [h.tallies.occursSum_eq h.covers.nodup, h.covers.length_eq, hends]
  rfl

theorem Tallies.endsSum_eq (h : slots.Tallies lines) (hnodup : slots.words.Nodup) :
    slots.endsSum = (through slots.words lines).length := by
  induction slots generalizing lines with
  | nil => simp [endsSum, through_nil]
  | slot id values ends below beside ihBelow ihBeside =>
      obtain ⟨-, haccounts, hbeside⟩ := tallies_slot.mp h
      have hbelow := ihBelow haccounts.tallies haccounts.covers.nodup
      have hlength := haccounts.length_eq
      rw [haccounts.tallies.occursSum_eq haccounts.covers.nodup] at hlength
      obtain ⟨-, hright, -⟩ := List.nodup_append.mp hnodup
      rw [endsSum, hbelow, ihBeside hbeside hright, words_slot, length_through_append hnodup,
        ← hlength]
      rfl

end Slots

/-- A test of a route and its line looks at what happens at one node only. -/
structure LooksAt (n : Nat) (test : List NodeId → List String → Bool) : Prop where
  skip : ∀ id route word words, id ≠ (n : Int) →
    test (id :: route) (word :: words) = test route words
  elsewhere : ∀ route line, (n : Int) ∉ route → test route line = false

theorem looksAt_passing (n : Nat) (word : String) :
    LooksAt n fun route line => (route.zip line).contains ((n : Int), word) where
  skip id route w words h := by
    simp [Ne.symm h]
  elsewhere route line h := by
    rw [List.contains_eq_mem, decide_eq_false_iff_not]
    exact fun hmem => h (List.of_mem_zip hmem).1

theorem looksAt_end (n : Nat) : LooksAt n fun route _ => route.getLast? == some (n : Int) where
  skip id route w words h := by
    cases route with
    | nil => simp [h]
    | cons id' route => simp [List.getLast?_cons_cons]
  elsewhere route line h := by
    rw [beq_eq_false_iff_ne]
    exact fun heq => h (List.mem_of_getLast? heq)

namespace Slots

variable {lines : List (List String)} {id : Nat} {values : List Token} {ends : Int}
  {below beside : Slots} {n : Nat} {test : List NodeId → List String → Bool}

theorem not_mem_route {slots : Slots} (h : n ∉ slots.ids) (line : List String) :
    (n : Int) ∉ slots.route line := by
  intro hmem
  obtain ⟨m, hm, heq⟩ := mem_ids_of_mem_route hmem
  exact h (Int.ofNat.inj heq ▸ hm)

theorem countP_below (htest : LooksAt n test) (hn : n ∈ below.ids)
    (hnodup : (slot id values ends below beside).ids.Nodup) :
    (lines.countP fun line => test ((slot id values ends below beside).route line) line) =
      (through (values.map Token.word) lines).countP fun line => test (below.route line) line := by
  obtain ⟨hid, -, -, -, hapart⟩ := nodup_ids_slot.mp hnodup
  rw [through, List.countP_filterMap]
  apply List.countP_congr
  intro line _
  cases line with
  | nil => simp [htest.elsewhere [] [] (by simp)]
  | cons word words =>
      rw [route_slot]
      by_cases hword : word ∈ values.map Token.word
      · have hne : (id : Int) ≠ n := by
          intro heq
          exact hid (Int.ofNat.inj heq ▸ hn)
        simp [hword, htest.skip _ _ _ _ hne]
      · simp [hword, htest.elsewhere _ _ (not_mem_route (hapart n hn) (word :: words))]

theorem countP_beside (htest : LooksAt n test) (hn : n ∈ beside.ids)
    (hnodup : (slot id values ends below beside).ids.Nodup)
    (hwords : (slot id values ends below beside).words.Nodup) :
    (lines.countP fun line => test ((slot id values ends below beside).route line) line) =
      lines.countP fun line => test (beside.route line) line := by
  obtain ⟨-, hid, -, -, hapart⟩ := nodup_ids_slot.mp hnodup
  apply List.countP_congr
  intro line _
  cases line with
  | nil => simp
  | cons word words =>
      rw [route_slot]
      split
      · next hword =>
        have hnot : (n : Int) ∉ (id : Int) :: below.route words := by
          rw [List.mem_cons, not_or]
          constructor
          · intro heq
            exact hid (Int.ofNat.inj heq ▸ hn)
          · exact not_mem_route (fun hmem => hapart n hmem hn) words
        have hnone : beside.from? (holdsWord word) = none := by
          rw [from?_holdsWord_eq_none_iff]
          intro hmem
          exact (List.nodup_append.mp hwords).2.2 _ hword _ hmem rfl
        rw [htest.elsewhere _ _ hnot, route, hnone, htest.elsewhere _ _ (by simp)]
      · rfl

/-- The lines that pass a slot with one of its words are those that begin with the word. -/
theorem countP_passing (hnodup : (slot n values ends below beside).ids.Nodup) {word : String}
    (hword : word ∈ values.map Token.word) :
    (lines.countP fun line =>
        (((slot n values ends below beside).route line).zip line).contains ((n : Int), word)) =
      lines.countP fun line => line.head? = some word := by
  obtain ⟨hidBelow, hidBeside, -⟩ := nodup_ids_slot.mp hnodup
  apply List.countP_congr
  intro line _
  cases line with
  | nil => simp
  | cons w words =>
      rw [route_slot]
      split
      · have hrest := (looksAt_passing n word).elsewhere _ words (not_mem_route hidBelow words)
        rw [List.zip_cons_cons, List.contains_cons, hrest]
        simp only [List.head?_cons, Option.some.injEq, decide_eq_true_eq, Bool.or_false, beq_iff_eq,
          Prod.mk.injEq, true_and]
        exact eq_comm
      · next hw =>
        rw [(looksAt_passing n word).elsewhere _ _ (not_mem_route hidBeside _)]
        have hne : w ≠ word := by
          rintro rfl
          exact hw hword
        simp [hne]

theorem countP_end (hnodup : (slot n values ends below beside).ids.Nodup)
    (h : Accounts (ends, below) (through (values.map Token.word) lines)) :
    (lines.countP fun line =>
        ((slot n values ends below beside).route line).getLast? == some (n : Int)) =
      (through (values.map Token.word) lines).count [] := by
  obtain ⟨hidBelow, hidBeside, -⟩ := nodup_ids_slot.mp hnodup
  rw [List.count, through, List.countP_filterMap]
  apply List.countP_congr
  intro line hline
  cases line with
  | nil => simp
  | cons w words =>
      rw [route_slot]
      -- a line ends here if its only word is one of the values, and else goes on below or beside
      by_cases hw : w ∈ values.map Token.word
      · have hmem := mem_through_iff.mpr ⟨_, hw, hline⟩
        have hlength : (below.route words).length = words.length := by
          refine length_route h.tallies hmem ?_
          intro v hv
          obtain ⟨rest, rfl⟩ := List.head?_eq_some_iff.mp hv
          exact h.covers.mem v rest hmem
        cases words with
        | nil => simp [hw]
        | cons v words =>
            obtain ⟨id, route, hroute⟩ : ∃ id route, below.route (v :: words) = id :: route := by
              cases hroute : below.route (v :: words) with
              | nil =>
                  rw [hroute] at hlength
                  cases hlength
              | cons id route => exact ⟨id, route, rfl⟩
            have helse := (looksAt_end n).elsewhere _ (v :: words)
              (not_mem_route hidBelow (v :: words))
            rw [hroute] at helse
            rw [if_pos hw, hroute, List.getLast?_cons_cons, helse]
            simp [hw]
      · rw [if_neg hw, (looksAt_end n).elsewhere _ (w :: words) (not_mem_route hidBeside _)]
        simp [hw]

end Slots

namespace Tree

variable {tree : Tree} {parent : Option NodeId} {slots : Slots} {lines : List (List String)}

theorem exists_counted_slot (h : tree.Holds parent slots) (hnodup : slots.words.Nodup)
    (htallies : slots.Tallies lines) {n : Nat} (hn : n ∈ slots.ids) :
    ∃ parent' values ends below beside lines',
      tree.Holds parent' (.slot n values ends below beside) ∧
      (Slots.slot n values ends below beside).words.Nodup ∧
      (Slots.slot n values ends below beside).Tallies lines' ∧
      ∀ test, LooksAt n test → (lines.countP fun line => test (slots.route line) line) =
        lines'.countP fun line => test ((Slots.slot n values ends below beside).route line) line := by
  induction slots generalizing parent lines with
  | nil => simp at hn
  | slot id values ends below beside ihBelow ihBeside =>
      obtain ⟨-, haccounts, hbeside⟩ := Slots.tallies_slot.mp htallies
      simp only [Slots.ids_slot, List.mem_cons, List.mem_append] at hn
      rcases hn with rfl | hn | hn
      · exact ⟨parent, values, ends, below, beside, lines, h, hnodup, htallies, fun _ _ => rfl⟩
      · obtain ⟨parent', values', ends', below', beside', lines', hslot, hwords, hslot', hcount⟩ :=
          ihBelow h.below haccounts.covers.nodup haccounts.tallies hn
        refine ⟨parent', values', ends', below', beside', lines', hslot, hwords, hslot', ?_⟩
        intro test htest
        rw [Slots.countP_below htest hn h.nodup, hcount test htest]
      · obtain ⟨parent', values', ends', below', beside', lines', hslot, hwords, hslot', hcount⟩ :=
          ihBeside h.beside (List.nodup_append.mp hnodup).2.1 hbeside hn
        refine ⟨parent', values', ends', below', beside', lines', hslot, hwords, hslot', ?_⟩
        intro test htest
        rw [Slots.countP_beside htest hn h.nodup hnodup, hcount test htest]

variable {ends : Int} {below : Slots} {n : Nat} {node : Node}

theorem sum_occursAt (h : tree.Spells parent slots) :
    (slots.chain.map tree.occursAt).sum = slots.occursSum := by
  induction slots with
  | nil => rfl
  | slot id values ends below beside _ ihBeside =>
      rw [Slots.chain_slot, List.map_cons, List.sum_cons, ihBeside h.2.2, Slots.occursSum, occursAt,
        node_of_get? h.1]

theorem sum_lineEndsAt (h : tree.Spells parent slots) :
    (slots.ids.map tree.lineEndsAt).sum = slots.endsSum := by
  induction slots generalizing parent with
  | nil => rfl
  | slot id values ends below beside ihBelow ihBeside =>
      rw [Slots.ids_slot, List.map_cons, List.map_append, List.sum_cons, List.sum_append,
        ihBelow h.2.1, ihBeside h.2.2, Slots.endsSum, lineEndsAt, h.1]
      simp [Int.add_assoc]

theorem route_root_eq (h : tree.Comprises ends below) (haccounts : Slots.Accounts (ends, below) lines)
    (line : List String) : tree.route root line = below.route line :=
  route_eq h.holds haccounts.covers.nodup haccounts.tallies.distinct line

theorem endsAt_root_iff (h : tree.Comprises ends below)
    (haccounts : Slots.Accounts (ends, below) lines) {line : List String} (hline : line ∈ lines) :
    tree.endsAt root line = true ↔ line = [] := by
  rw [endsAt, route_root_eq h haccounts]
  cases line with
  | nil => simp
  | cons word words =>
      have hlength : (below.route (word :: words)).length = (word :: words).length := by
        refine Slots.length_route haccounts.tallies hline ?_
        intro w hw
        obtain rfl : word = w := by simpa using hw
        exact haccounts.covers.mem word words hline
      have hroot : 0 ∉ below.ids := (Slots.nodup_ids_slot.mp h.holds.nodup).1
      have helse := (looksAt_end 0).elsewhere _ (word :: words)
        (Slots.not_mem_route hroot (word :: words))
      cases hroute : below.route (word :: words) with
      | nil =>
          rw [hroute] at hlength
          cases hlength
      | cons id route =>
          rw [hroute] at helse
          rw [List.getLast?_cons_cons]
          simpa [root] using helse

theorem endsAt_eq (h : tree.Comprises ends below) (haccounts : Slots.Accounts (ends, below) lines)
    (hn : n ≠ 0) (line : List String) :
    tree.endsAt n line = ((below.route line).getLast? == some (n : Int)) := by
  rw [endsAt, route_root_eq h haccounts]
  cases below.route line with
  | nil =>
      have hne : ¬(0 : Int) = n := by omega
      simp [root, hne]
  | cons id route => rw [List.getLast?_cons_cons]

/-- Those of all lines that come to the node at a place are counted by the node and by the slots below
it. -/
structure CountsAt (tree : Tree) (n : Nat) (node : Node) (below : Slots)
    (lines here : List (List String)) : Prop where
  children : tree.children n = .ok below.chain
  sum_below : (below.chain.map tree.occursAt).sum = below.occursSum
  nodup : (node.values.map Token.word).Nodup
  values : ∀ t ∈ node.values, t.occurs = here.countP fun line => line.head? = some t.word
  inside : Slots.Accounts (node.lineEnds, below) (Slots.through (node.values.map Token.word) here)
  passes : ∀ t ∈ node.values, lines.countP (tree.passes n t.word) =
    here.countP fun line => line.head? = some t.word
  ends : lines.countP (tree.endsAt n) =
    (Slots.through (node.values.map Token.word) here).count []

section Whole

variable (h : tree.Comprises ends below) (haccounts : Slots.Accounts (ends, below) lines)

include h haccounts

theorem length_route_root {line : List String} (hline : line ∈ lines) :
    (tree.route root line).length = line.length := by
  rw [route_root_eq h haccounts]
  refine Slots.length_route haccounts.tallies hline ?_
  intro w hw
  obtain ⟨rest, rfl⟩ := List.head?_eq_some_iff.mp hw
  exact haccounts.covers.mem w rest hline

theorem exists_countsAt (hnode : tree.get? n = some node) (hn : n ≠ 0) :
    ∃ below' here, tree.CountsAt n node below' lines here := by
  obtain ⟨parent', values, ends', below', beside, here, hholds, hwords, htallies, hcount⟩ :=
    exists_counted_slot h.holds.below haccounts.covers.nodup haccounts.tallies
      (mem_below_ids h hnode hn)
  obtain rfl : node = _ := Option.some.inj (hnode.symm.trans hholds.spells.1)
  obtain ⟨hvalues, haccounts', -⟩ := Slots.tallies_slot.mp htallies
  refine ⟨below', here, children_eq hholds, sum_occursAt hholds.below.spells,
    (List.nodup_append.mp hwords).1, hvalues, haccounts', ?_, ?_⟩
  · intro t ht
    rw [← Slots.countP_passing hholds.nodup (List.mem_map_of_mem ht),
      ← hcount _ (looksAt_passing n t.word)]
    congr 2
    funext line
    rw [passes, route_root_eq h haccounts]
  · rw [← Slots.countP_end hholds.nodup haccounts', ← hcount _ (looksAt_end n),
      ← funext (endsAt_eq h haccounts hn)]

theorem countP_endsAt_root : lines.countP (tree.endsAt root) = lines.count [] := by
  rw [List.count]
  apply List.countP_congr
  intro line hline
  rw [endsAt_root_iff h haccounts hline, beq_iff_eq]

theorem accounts_of_comprises : tree.Accounts lines where
  followed _ hline := length_route_root h haccounts hline
  occurs n node hnode hn t ht := by
    obtain ⟨below', here, hcounts⟩ := exists_countsAt h haccounts hnode hn
    rw [hcounts.values t ht, hcounts.passes t ht]
  lineEnds n node hnode := by
    by_cases hn : n = 0
    · subst hn
      obtain rfl : node = _ := Option.some.inj (hnode.symm.trans h.holds.spells.1)
      have hends : ends = lines.count [] := haccounts.ends
      rw [← countP_endsAt_root h haccounts] at hends
      exact hends
    · obtain ⟨below', here, hcounts⟩ := exists_countsAt h haccounts hnode hn
      rw [hcounts.ends]
      exact hcounts.inside.ends
  balance n node hnode hn := by
    obtain ⟨below', here, hcounts⟩ := exists_countsAt h haccounts hnode hn
    refine ⟨below'.chain, hcounts.children, ?_⟩
    rw [Slots.sum_occurs hcounts.values hcounts.nodup, hcounts.inside.length_eq, hcounts.sum_below]
  total := by
    rw [(h.perm_numbers.map tree.lineEndsAt).sum_eq, sum_lineEndsAt h.holds.spells,
      haccounts.length_eq, haccounts.tallies.occursSum_eq haccounts.covers.nodup,
      ← haccounts.tallies.endsSum_eq haccounts.covers.nodup]
    simp [Slots.root, Slots.endsSum]

end Whole

/-- In the tree that has grown from lines all counts are those of the lines. -/
theorem counts_of_insertLines (lines : List (List Token))
    (hone : ∀ line ∈ lines, ∀ t ∈ line, t.occurs = 1) :
    ∃ tree, (insertLines lines).run empty = .ok () tree ∧
      tree.Accounts (lines.map fun line => line.map Token.word) := by
  obtain ⟨tree, ends, below, hrun, htree, hgrown⟩ := run_insertLines_empty lines
  exact ⟨tree, hrun, accounts_of_comprises htree (hgrown hone).accounts⟩

/-- Two lines of which the second one gives another value to the slot that the first one opened, the first
one once more, and the empty line. -/
theorem counts_of_four_lines :
    (∀ line ∈ ([[{ word := "a" }, { word := "x" }], [{ word := "b" }, { word := "x" }],
        [{ word := "a" }, { word := "x" }], []] : List (List Token)),
      ∀ t ∈ line, t.occurs = 1) ∧
    ∃ tree, (insertLines [[{ word := "a" }, { word := "x" }], [{ word := "b" }, { word := "x" }],
        [{ word := "a" }, { word := "x" }], []]).run empty = .ok () tree ∧
      tree.Accounts [["a", "x"], ["b", "x"], ["a", "x"], []] :=
  ⟨by decide, counts_of_insertLines _ (by decide)⟩

end Tree

end LogMining
