import LogMining.Proofs.Growth.Line
import LogMining.Proofs.Growth.Lines
import LogMining.Proofs.Refine.Remainder
import LogMining.Proofs.Slots.Nested

/-!
# What splitting a node makes of it

A node whose values have something in common gives way to a chain of parts: the common front, what is left
of each value, and the common back, in front of what came behind the node before. `Tree.GivesWay` says so of
the links and of all other nodes, and `Token.Divides` says what becomes of the values: each word is the front,
a residue of its own and the back, and a word that stands for residues counts for all of them.
-/

namespace LogMining

namespace Tree

/-- The numbers of the parts to which a node gives way. The first part keeps the number of the node, and the
others have been created one after the other. -/
def partAt (fresh n : Nat) : Nat → Nat
  | 0 => n
  | i + 1 => fresh + i

theorem partAt_succ (fresh n i : Nat) : partAt fresh n (i + 1) = partAt (fresh + 1) fresh i := by
  cases i with
  | zero => rfl
  | succ i => exact Nat.add_right_comm fresh i 1

/-- In the second tree a chain of nodes with the given values has taken the place of a node of the first
one. The node had the given children. -/
structure GivesWay (tree tree' : Tree) (n : Nat) (node : Node) (children : List NodeId)
    (parts : List (List Token)) : Prop where
  /-- The first part is where the node was, and each of the others is the only child of the one before. -/
  part : ∀ i values, parts[i]? = some values → tree'.get? (partAt tree.size n i) = some
    { values
      parent := if i = 0 then node.parent else some (partAt tree.size n (i - 1) : Int)
      child := if i + 1 = parts.length then node.child else some (partAt tree.size n (i + 1) : Int)
      sibling := if i = 0 then node.sibling else none
      lineEnds := if i = 0 then node.lineEnds else 0 }
  children_before : tree.children n = .ok children
  /-- The children have come behind the last part, in the same order. -/
  children_after : tree'.children (partAt tree.size n (parts.length - 1)) = .ok children
  /-- Of the children nothing has changed but the parent. -/
  adopted : ∀ m : Nat, (m : Int) ∈ children → ∀ child, tree.get? m = some child →
    tree'.get? m = some { child with parent := some (partAt tree.size n (parts.length - 1) : Int) }
  /-- All other nodes are as they were. -/
  kept : ∀ m : Nat, (m : Int) ∉ children → (∀ i < parts.length, m ≠ partAt tree.size n i) →
    tree'.get? m = tree.get? m

variable {tree tree' : Tree} {parent parent' : Option NodeId} {slots below beside : Slots}
  {n fresh : Nat} {values head : List Token} {more : List (List Token)} {ends : Int}

theorem Spells.get?_eq (h : tree.Spells parent slots) (h' : tree'.Spells parent slots) {m : Nat}
    (hm : m ∈ slots.ids) : tree'.get? m = tree.get? m := by
  induction slots generalizing parent with
  | nil => cases hm
  | slot id values ends below beside ihBelow ihBeside =>
      rw [Slots.ids_slot, List.mem_cons, List.mem_append] at hm
      rcases hm with rfl | hm | hm
      · rw [h.1, h'.1]
      · exact ihBelow h.2.1 h'.2.1 hm
      · exact ihBeside h.2.2 h'.2.2 hm

theorem Spells.get?_eq_of_mem_chain (h : tree.Spells parent slots) (h' : tree'.Spells parent' slots)
    {m : Nat} (hm : (m : Int) ∈ slots.chain) {node : Node} (hnode : tree.get? m = some node) :
    tree'.get? m = some { node with parent := parent' } := by
  induction slots with
  | nil => cases hm
  | slot id values ends below beside _ ihBeside =>
      rw [Slots.chain_slot, List.mem_cons] at hm
      rcases hm with hm | hm
      · obtain rfl : m = id := Int.ofNat.inj hm
        rw [h.1] at hnode
        cases hnode
        exact h'.1
      · exact ihBeside h.2.2 h'.2.2 hm

theorem Spells.get?_eq_of_not_mem_chain (h : tree.Spells parent slots)
    (h' : tree'.Spells parent' slots) {m : Nat} (hm : m ∈ slots.ids) (hchain : (m : Int) ∉ slots.chain) :
    tree'.get? m = tree.get? m := by
  induction slots with
  | nil => cases hm
  | slot id values ends below beside _ ihBeside =>
      rw [Slots.chain_slot, List.mem_cons, not_or] at hchain
      rw [Slots.ids_slot, List.mem_cons, List.mem_append] at hm
      rcases hm with rfl | hm | hm
      · exact absurd rfl hchain.1
      · exact h.2.1.get?_eq h'.2.1 hm
      · exact ihBeside h.2.2 h'.2.2 hm hchain.2

theorem Spells.get?_part
    (h : tree.Spells parent (.slot n head ends (Slots.stack fresh more below) beside)) {i : Nat}
    (hi : (head :: more)[i]? = some values) :
    tree.get? (partAt fresh n i) = some
      { values
        parent := if i = 0 then parent else some (partAt fresh n (i - 1) : Int)
        child := if i = more.length then below.first else some (partAt fresh n (i + 1) : Int)
        sibling := if i = 0 then beside.first else none
        lineEnds := if i = 0 then ends else 0 } := by
  induction more generalizing i n fresh head ends beside parent with
  | nil =>
      cases i with
      | zero =>
          cases hi
          exact h.1
      | succ i => cases hi
  | cons next more ih =>
      cases i with
      | zero =>
          cases hi
          exact h.1
      | succ i =>
          -- the parts after the first are numbered as if the second one were the node that gave way
          have hpart := ih h.2.1 hi
          rw [partAt_succ, hpart]
          simp only [partAt_succ fresh n, List.length_cons, Nat.add_right_cancel_iff,
            Nat.add_one_sub_one, Nat.add_one_ne_zero, if_false, Slots.first_nil, ite_self]
          cases i with
          | zero => rfl
          | succ i => simp only [partAt_succ, Nat.add_one_ne_zero, if_false, Nat.add_one_sub_one]

theorem Holds.below_stack
    (h : tree.Holds parent (.slot n head ends (Slots.stack fresh more below) beside)) :
    tree.Holds (some (partAt fresh n more.length : Int)) below := by
  induction more generalizing n fresh head ends beside parent with
  | nil => exact h.below
  | cons next more ih =>
      rw [List.length_cons, partAt_succ]
      exact ih h.below

theorem mem_ids_stack {m : Nat} (h : m ∈ (Slots.stack fresh more below).ids) :
    m ∈ below.ids ∨ ∃ i < more.length, m = fresh + i := by
  induction more generalizing fresh with
  | nil => exact .inl h
  | cons next more ih =>
      rw [Slots.stack, Slots.ids_slot, Slots.ids_nil, List.append_nil, List.mem_cons] at h
      rcases h with rfl | h
      · exact .inr ⟨0, Nat.succ_pos _, rfl⟩
      · rcases ih h with hbelow | ⟨i, hi, rfl⟩
        · exact .inl hbelow
        · exact .inr ⟨i + 1, Nat.succ_lt_succ hi, Nat.add_right_comm fresh 1 i⟩

theorem Replaces.givesWay (h : tree.Holds parent (.slot n values ends below beside))
    (hreplaces : tree.Replaces tree' parent (.slot n values ends below beside)
      (.slot n head ends (Slots.stack tree.size more below) beside)) :
    tree.GivesWay tree' n
      { values, parent, child := below.first, sibling := beside.first, lineEnds := ends }
      below.chain (head :: more) := by
  have hbelow := hreplaces.toHolds.below_stack
  refine ⟨fun i values' hi => ?_, children_eq h, ?_, fun m hm child hchild => ?_, fun m hm hparts => ?_⟩
  · rw [hreplaces.spells.get?_part hi, List.length_cons]
    simp only [Nat.add_right_cancel_iff]
  · have hlast : (head :: more)[more.length]? = some ((head :: more)[more.length]) :=
      List.getElem?_eq_getElem (Nat.lt_succ_self _)
    rw [children, List.length_cons, Nat.add_one_sub_one,
      node_of_get? (hreplaces.spells.get?_part hlast)]
    simp only [if_true, bind, Except.bind]
    exact chain_eq hbelow
  · exact h.below.spells.get?_eq_of_mem_chain hbelow.spells hm hchild
  · -- slots further below and beside are the same in both trees, and nodes elsewhere are not replaced
    by_cases hmbelow : m ∈ below.ids
    · exact h.below.spells.get?_eq_of_not_mem_chain hbelow.spells hmbelow hm
    · by_cases hmbeside : m ∈ beside.ids
      · exact h.spells.2.2.get?_eq hreplaces.spells.2.2 hmbeside
      · have hne : m ≠ n := hparts 0 (by simp)
        refine hreplaces.kept m ?_ ?_
        · simp [hne, hmbelow, hmbeside]
        · rw [Slots.ids_slot, List.mem_cons, List.mem_append, not_or, not_or]
          refine ⟨hne, fun hstack => ?_, hmbeside⟩
          rcases mem_ids_stack hstack with hmem | ⟨i, hi, rfl⟩
          · exact hmbelow hmem
          · exact hparts (i + 1) (by simpa using hi) rfl

end Tree

namespace Token

def shapedWord (word : String) : String := (shaped { word }).word

/-- Values fall into a common front, residues and a common back. Residues that are the same, or stand for the
same shape, are one value of the rest. -/
structure Divides (values : List Token) (front : String) (residue : String → String) (back : String)
    (rest : List Token) : Prop where
  word_eq : ∀ t ∈ values, t.word = front ++ residue t.word ++ back
  sorted : (rest.map Token.word).Pairwise (· < ·)
  subword : ∀ u ∈ rest, u.subword = true
  mem_words : ∀ word, word ∈ rest.map Token.word ↔ ∃ t ∈ values, shapedWord (residue t.word) = word
  /-- A value of the rest counts for all values of which it is the residue. -/
  occurs : ∀ u ∈ rest, u.occurs =
    ((values.filter fun t => shapedWord (residue t.word) = u.word).map Token.occurs).sum

variable {values : List Token} {a : Affixes}

theorem word_shaped (t : Token) : t.shaped.word = shapedWord t.word := by
  rw [shapedWord]
  cases h : Shape.ofWord? t.word.toList with
  | none => rw [shaped_of_ofWord? h, shaped_of_ofWord? (t := { word := t.word }) h]
  | some shape => rw [shaped_of_some h, shaped_of_some (t := { word := t.word }) h]

theorem occurs_shaped (t : Token) : t.shaped.occurs = t.occurs := by
  cases h : Shape.ofWord? t.word.toList with
  | none => rw [shaped_of_ofWord? h]
  | some shape => rw [shaped_of_some h]

def residue (a : Affixes) (word : String) : String := (middle a { word }).word

theorem word_remainder (a : Affixes) (t : Token) :
    (remainder a t).word = shapedWord (residue a t.word) := word_shaped _

theorem occurs_remainder (a : Affixes) (t : Token) : (remainder a t).occurs = t.occurs := occurs_shaped _

theorem occursOf_map_remainder (a : Affixes) (word : String) (values : List Token) :
    occursOf word (values.map (remainder a)) =
      ((values.filter fun t => shapedWord (residue a t.word) = word).map Token.occurs).sum := by
  induction values with
  | nil => rfl
  | cons t values ih =>
      rw [List.map_cons, occursOf_cons, ih, word_remainder, occurs_remainder, List.filter_cons]
      by_cases h : shapedWord (residue a t.word) = word
      · simp [h]
      · simp [h]

theorem exists_ofWords_map (hlength : 2 ≤ values.length) :
    ∃ a, Affixes.ofWords (values.map word) = .ok a := by
  cases values with
  | nil => cases hlength
  | cons => exact ⟨_, rfl⟩

theorem affixes?_eq_ite (hlength : 2 ≤ values.length) (hfirst : ∀ t ∈ values.head?, t.subword = false)
    (ha : Affixes.ofWords (values.map Token.word) = .ok a) :
    affixes? values = if a.front = 0 ∧ a.back = 0 then none else some a := by
  rcases values with _ | ⟨t, _ | ⟨u, more⟩⟩
  · simp at hlength
  · simp at hlength
  · have hsubword : t.subword = false := hfirst t rfl
    rw [List.map_cons, Affixes.ofWords, List.map_map] at ha
    have ha' : Affixes.ofChars t.word.toList ((u :: more).map fun v => v.word.toList) = a :=
      Except.ok.inj ha
    rw [affixes?, hsubword]
    simp only [Bool.false_eq_true, if_false, ha']

theorem affixes?_of_ofWords (hlength : 2 ≤ values.length)
    (hfirst : ∀ t ∈ values.head?, t.subword = false)
    (ha : Affixes.ofWords (values.map Token.word) = .ok a) (hpos : a.front ≠ 0 ∨ a.back ≠ 0) :
    affixes? values = some a := by
  rw [affixes?_eq_ite hlength hfirst ha, if_neg (by omega)]

theorem divides_of_affixes? {first : Token} {more : List Token} (ha : affixes? (first :: more) = some a) :
    Divides (first :: more) (frontOf a first.word) (residue a) (backOf a first.word)
      (settled ((first :: more).map (middle a))) := by
  rw [settled_map_middle]
  refine ⟨fun t ht => word_eq ha ht, pairwise_lt_mergeDuplicates _, fun u hu => ?_, fun word => ?_,
    fun u hu => ?_⟩
  · obtain ⟨v, hv, m, rfl⟩ := exists_of_mem_mergeDuplicates hu
    obtain ⟨t, -, rfl⟩ := List.mem_map.mp hv
    exact subword_shaped _
  · rw [mem_map_word_mergeDuplicates, List.map_map, List.mem_map]
    simp only [Function.comp_apply, word_remainder]
  · rw [occurs_of_mem_mergeDuplicates hu, occursOf_map_remainder]

theorem length_frontOf_backOf {first : Token} {more : List Token}
    (ha : affixes? (first :: more) = some a) :
    (frontOf a first.word).length = a.front ∧ (backOf a first.word).length = a.back := by
  have hle := front_add_back_le ha List.mem_cons_self
  simp only [frontOf, backOf, String.length_ofList, List.length_take, List.length_drop]
  omega

end Token

namespace Pass

variable {pass : Pass} {n : Nat} {node : Node} {a : Affixes}

theorem exists_givesWay_of_affixes? (htree : pass.tree.WellLinked) (hnode : pass.tree.get? n = some node)
    (ha : Token.affixes? node.values = some a) :
    ∃ pass' children, (factor n).run pass = .ok true pass' ∧
      pass.tree.GivesWay pass'.tree n node children (a.pieces node.values) := by
  obtain ⟨parent, values, ends, below, beside, rfl, hslot⟩ := htree.exists_slot hnode
  obtain ⟨pass', hrun, hreplaces⟩ := run_factor hslot
  obtain ⟨head, more, hpieces, hfactored⟩ :=
    Slots.exists_factored_eq pass.tree.size n values ends below beside
  rw [ha] at hrun
  rw [hfactored] at hreplaces
  have hgives := hreplaces.toReplaces.givesWay hslot
  rw [← hpieces, Token.pieces_of_some ha] at hgives
  exact ⟨pass', below.chain, hrun, hgives⟩

/-- A node with several values that have something in common gives way to the common front, the rest of each
value and the common back. -/
theorem exists_divides_of_factor (htree : pass.tree.WellLinked) (hnode : pass.tree.get? n = some node)
    (hlength : 2 ≤ node.values.length) (hfirst : ∀ t ∈ node.values.head?, t.subword = false)
    (ha : Affixes.ofWords (node.values.map Token.word) = .ok a) (hpos : a.front ≠ 0 ∨ a.back ≠ 0) :
    ∃ pass' children front residue back rest, (factor n).run pass = .ok true pass' ∧
      front.length = a.front ∧ back.length = a.back ∧ Token.Divides node.values front residue back rest ∧
      pass.tree.GivesWay pass'.tree n node children
        ((if 0 < a.front then [[{ word := front, subword := true }]] else []) ++ [rest] ++
          if 0 < a.back then [[{ word := back, subword := true }]] else []) := by
  have haffixes := Token.affixes?_of_ofWords hlength hfirst ha hpos
  obtain ⟨pass', children, hrun, hgives⟩ := exists_givesWay_of_affixes? htree hnode haffixes
  obtain ⟨first, u, others, hvalues, -⟩ := Token.eq_of_affixes? haffixes
  rw [hvalues] at haffixes hgives ⊢
  obtain ⟨hfront, hback⟩ := Token.length_frontOf_backOf haffixes
  exact ⟨pass', children, _, _, _, _, hrun, hfront, hback, Token.divides_of_affixes? haffixes, hgives⟩

/-- Three lines begin with assignments to the same name, two of them of numbers. -/
theorem exists_divides_of_three_lines :
    ∃ tree node pass' children front residue back rest,
      (Tree.insertLines [[{ word := "a=1;" }, { word := "x" }], [{ word := "a=22;" }, { word := "x" }],
        [{ word := "a=b;" }, { word := "x" }]]).run Tree.empty = .ok () tree ∧
      tree.WellLinked ∧ tree.get? 1 = some node ∧
      node.values.map Token.word = ["a=1;", "a=22;", "a=b;"] ∧
      (∀ t ∈ node.values.head?, t.subword = false) ∧
      Affixes.ofWords (node.values.map Token.word) = .ok { front := 2, back := 1 } ∧
      (factor (1 : Nat)).run { tree } = .ok true pass' ∧ front.length = 2 ∧ back.length = 1 ∧
      Token.Divides node.values front residue back rest ∧
      tree.GivesWay pass'.tree 1 node children
        [[{ word := front, subword := true }], rest, [{ word := back, subword := true }]] := by
  obtain ⟨tree, ends, below, hrun, htree, -⟩ := Tree.run_insertLines_empty
    [[{ word := "a=1;" }, { word := "x" }], [{ word := "a=22;" }, { word := "x" }],
      [{ word := "a=b;" }, { word := "x" }]]
  obtain ⟨node, hnode, hwords, hfirst⟩ : ∃ node, tree.get? 1 = some node ∧
      node.values.map Token.word = ["a=1;", "a=22;", "a=b;"] ∧
      ∀ t ∈ node.values.head?, t.subword = false := by
    cases hrun
    exact ⟨_, rfl, rfl, by decide⟩
  have hlength : 2 ≤ node.values.length := by
    rw [← List.length_map Token.word, hwords]
    decide
  have ha : Affixes.ofWords (node.values.map Token.word) = .ok { front := 2, back := 1 } := by
    rw [hwords]
    decide +kernel
  have hlinked : ({ tree } : Pass).tree.WellLinked := htree.wellFormed.wellLinked
  obtain ⟨pass', children, front, residue, back, rest, hfactor, hfront, hback, hdivides, hgives⟩ :=
    exists_divides_of_factor hlinked hnode hlength hfirst ha (by decide)
  exact ⟨tree, node, pass', children, front, residue, back, rest, hrun, hlinked, hnode, hwords, hfirst, ha,
    hfactor, hfront, hback, hdivides, hgives⟩

end Pass

end LogMining
