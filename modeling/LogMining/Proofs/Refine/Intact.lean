import LogMining.Proofs.Reading.Words
import LogMining.Proofs.Refine.Pieces
import LogMining.Proofs.Slots.Linked
import LogMining.Proofs.Token.Intact

/-!
# Placeholders that are split

Nothing keeps a slot that holds placeholders from being split like any other. Where that does not happen,
a sweep leaves every token that stands for a shape intact and in its node. Where it does happen, either
the token is gone from its node, since only a common front is left there, or its word is a placeholder cut
short at the back, which stands for no shape any more.
-/

namespace LogMining

theorem Shape.take_placeholder (shape : Shape) {n : Nat} (hn : n < shape.placeholder.toList.length) :
    ofWord? (shape.placeholder.toList.take n) = none ∧
      String.ofList (shape.placeholder.toList.take n) ∉ placeholders := by
  have hall : ∀ shape ∈ ofTokens ++ ofLines, ∀ n < shape.placeholder.toList.length,
      ofWord? (shape.placeholder.toList.take n) = none ∧ ∀ shape' ∈ ofTokens ++ ofLines,
        String.ofList (shape.placeholder.toList.take n) ≠ shape'.placeholder := by
    decide +kernel
  have hmem : ∀ shape : Shape, shape ∈ ofTokens ++ ofLines := by
    intro shape
    cases shape <;> decide
  obtain ⟨hnone, hne⟩ := hall shape (hmem shape) n hn
  refine ⟨hnone, fun hplace => ?_⟩
  obtain ⟨shape', hshape'⟩ := mem_placeholders_iff.mp hplace
  exact hne shape' (hmem shape') hshape'

namespace Token

variable {values : List Token} {a : Affixes} {t : Token}

/-- Values that are intact, none of which stands for a shape if they are to be split. -/
structure Spared (values : List Token) : Prop where
  intact : ∀ t ∈ values, t.Intact
  unsplit : ∀ a, affixes? values = some a → ∀ t ∈ values, t.special = false

theorem Spared.join {u : Token} (h : Spared [t]) (ht : t.isPlaceholder = false) :
    Spared [{ t with word := t.word ++ " " ++ u.word }] where
  intact := by
    have hspecial := (h.intact t List.mem_cons_self).special_eq_false ht
    exact List.forall_mem_singleton.mpr (intact_of_not_special hspecial)
  unsplit a ha := by cases ha

def asPart (t : Token) : Token := { t with subword := true }.shaped

theorem asPart_of_none (h : Shape.ofWord? t.word.toList = none) :
    t.asPart = { t with subword := true } :=
  shaped_of_ofWord? (t := { t with subword := true }) h

theorem asPart_of_some {shape : Shape} (h : Shape.ofWord? t.word.toList = some shape) :
    t.asPart = { t with word := shape.placeholder, subword := true, special := true } :=
  shaped_of_some (t := { t with subword := true }) h

theorem exists_asPart_of_mem_settled (h : t ∈ settled values) :
    ∃ u ∈ values, ∃ n, t = { u.asPart with occurs := n } := by
  obtain ⟨u, hu, n, rfl⟩ := exists_of_mem_mergeDuplicates h
  obtain ⟨v, hv, rfl⟩ := List.mem_map.mp hu
  exact ⟨v, hv, n, rfl⟩

theorem intact_of_mem_settled (h : ∀ t ∈ values, t.special = false) : ∀ t ∈ settled values, t.Intact := by
  intro t ht
  obtain ⟨u, hu, n, rfl⟩ := exists_asPart_of_mem_settled ht
  exact intact_shaped (t := { u with subword := true }) (h u hu)

theorem Spared.pieces (h : Spared values) : ∀ piece ∈ Token.pieces values, Spared piece := by
  intro piece hpiece
  cases ha : affixes? values with
  | none =>
      rw [pieces_of_none ha, List.mem_singleton] at hpiece
      exact hpiece ▸ h
  | some a =>
      rw [pieces_of_some ha] at hpiece
      rcases mem_pieces_cases ha hpiece with ⟨word, rfl⟩ | rfl
      · exact ⟨List.forall_mem_singleton.mpr (intact_of_not_special rfl), fun a ha => by cases ha⟩
      · have hmiddles : ∀ t ∈ values.map (middle a), t.special = false := by
          intro t ht
          obtain ⟨u, hu, rfl⟩ := List.mem_map.mp ht
          exact h.unsplit a ha u hu
        refine ⟨intact_of_mem_settled hmiddles, fun a' ha' => ?_⟩
        rw [affixes?_settled] at ha'
        cases ha'

/-- Of the middles of different words no other one becomes the word of a middle that has no shape and is no
placeholder. -/
theorem eq_of_asPart_middle {u : Token} (ha : affixes? values = some a)
    (hnodup : (values.map Token.word).Nodup) (ht : t ∈ values) (hu : u ∈ values)
    (hplace : (middle a t).word ∉ Shape.placeholders)
    (hword : (middle a u).asPart.word = (middle a t).word) : u = t := by
  cases hshape : Shape.ofWord? (middle a u).word.toList with
  | some shape =>
      rw [asPart_of_some hshape] at hword
      exact absurd (Shape.mem_placeholders_iff.mpr ⟨shape, hword.symm⟩) hplace
  | none =>
      rw [asPart_of_none hshape] at hword
      have hmiddles := nodup_map_middle ha hnodup
      rw [List.map_map] at hmiddles
      exact List.inj_on_of_nodup_map hmiddles hu ht hword

theorem exists_special_middle (ha : affixes? values = some a) (hnodup : (values.map Token.word).Nodup)
    (ht : t ∈ values) (hspecial : t.special = true)
    (hshape : Shape.ofWord? (middle a t).word.toList = none)
    (hplace : (middle a t).word ∉ Shape.placeholders) :
    ∃ u ∈ settled (values.map (middle a)), u.word = (middle a t).word ∧ u.special = true := by
  have hself := asPart_of_none hshape
  have hword : (middle a t).asPart.word = (middle a t).word := by rw [hself]
  have hmem := (mem_map_word_settled _).mpr ⟨middle a t, List.mem_map_of_mem ht, hword⟩
  obtain ⟨u, hu, hword⟩ := List.mem_map.mp hmem
  refine ⟨u, hu, hword, ?_⟩
  obtain ⟨v, hv, n, rfl⟩ := exists_asPart_of_mem_settled hu
  obtain ⟨w, hw, rfl⟩ := List.mem_map.mp hv
  obtain rfl := eq_of_asPart_middle ha hnodup ht hw hplace hword
  rw [hself]
  exact hspecial

theorem stays_settled_middle (ha : affixes? values = some a) (hnodup : (values.map Token.word).Nodup) :
    Stays (settled (values.map (middle a))) := by
  have hmiddles := nodup_map_middle ha hnodup
  obtain ⟨t, u, more, rfl, -⟩ := eq_of_affixes? ha
  exact joint?_settled hmiddles (by simp)

theorem middle_of_intact (ha : affixes? values = some a) (hfront : a.front = 0) (ht : t ∈ values)
    (hintact : t.Intact) (hspecial : t.special = true) :
    Shape.ofWord? (middle a t).word.toList = none ∧ (middle a t).word ∉ Shape.placeholders := by
  obtain ⟨shape, hword⟩ := Shape.mem_placeholders_iff.mp (hintact hspecial)
  obtain ⟨first, u, more, rfl, -⟩ := eq_of_affixes? ha
  have hback := (pos_of_affixes? ha).resolve_left (by omega)
  have hle := front_add_back_le ha ht
  have hmiddle : (middle a t).word =
      String.ofList (shape.placeholder.toList.take (shape.placeholder.toList.length - a.back)) := by
    rw [middle, cut, hfront, List.drop_zero, hword]
  rw [hword] at hle
  rw [hmiddle, String.toList_ofList]
  exact shape.take_placeholder (by omega)

end Token

namespace Tree

/-- Every value that stands for a shape has the placeholder of a shape for its word. -/
def Intact (tree : Tree) : Prop := ∀ n node, tree.get? n = some node → ∀ t ∈ node.values, t.Intact

/-- No node that is to be split has a value that stands for a shape. -/
def Spares (tree : Tree) : Prop := ∀ n node a, tree.get? n = some node →
  node.affixes? = .ok (some a) → ∀ t ∈ node.values, t.special = false

/-- Every value that stands for a shape in a node of the first tree does so in the same node of the second
one. -/
def KeepsSpecial (tree tree' : Tree) : Prop := ∀ n node, tree.get? n = some node →
  ∀ t ∈ node.values, t.special = true → ∃ node', tree'.get? n = some node' ∧
    ∃ u ∈ node'.values, u.word = t.word ∧ u.special = true

variable {tree tree' : Tree} {ends ends' : Int} {below below' : Slots} {isChoice : Bool} {n : Nat}
  {node : Node} {a : Affixes} {t : Token}

theorem Comprises.all_iff {P : List Token → Prop} (h : tree.Comprises ends below) :
    below.All P ↔ ∀ n node, tree.get? n = some node → n ≠ 0 → P node.values := by
  rw [Slots.all_iff]
  constructor
  · intro hall n node hnode hn
    exact hall _ (h.mem_entries hnode hn)
  · rintro hall ⟨n, values⟩ hmem
    obtain ⟨node, hnode, rfl⟩ := exists_node_of_mem_entries h.holds.below.spells hmem
    refine hall n node hnode ?_
    rintro rfl
    refine (Slots.nodup_ids_slot.mp h.holds.nodup).1 ?_
    rw [← Slots.map_entries]
    exact List.mem_map_of_mem (f := Prod.fst) hmem

theorem Comprises.root_values (h : tree.Comprises ends below) {node : Node}
    (hnode : tree.get? 0 = some node) : node.values = [{ word := rootWord }] := by
  obtain rfl : node = _ := Option.some.inj (hnode.symm.trans h.holds.spells.1)
  rfl

theorem Comprises.intact_iff (h : tree.Comprises ends below) :
    tree.Intact ↔ below.All fun values => ∀ t ∈ values, t.Intact := by
  rw [h.all_iff]
  constructor
  · exact fun hintact n node hnode _ => hintact n node hnode
  · intro hall n node hnode
    by_cases hn : n = 0
    · subst hn
      rw [h.root_values hnode]
      exact List.forall_mem_singleton.mpr (Token.intact_of_not_special rfl)
    · exact hall n node hnode hn

theorem intact_empty : empty.Intact :=
  comprises_empty.intact_iff.mpr trivial

section Swept

variable (h : tree.Comprises ends below) (hsweeps : Slots.Sweeps isChoice below below')
  (h' : tree'.Comprises ends' below')

include h hsweeps h'

theorem intact_of_spares (hintact : tree.Intact) (hspares : tree.Spares) : tree'.Intact := by
  have hspared : below.All Token.Spared := h.all_iff.mpr fun n node hnode _ =>
    ⟨hintact n node hnode, fun a ha => hspares n node a hnode (by rw [Pass.affixes?_eq, ha])⟩
  have hswept := hsweeps.all (fun t u ht hvalues => hvalues.join ht)
    (fun values hvalues => hvalues.pieces) hspared
  rw [h'.intact_iff, Slots.all_iff]
  exact fun e he => (Slots.all_iff.mp hswept e he).intact

theorem keepsSpecial_of_spares (hintact : tree.Intact) (hspares : tree.Spares) :
    tree.KeepsSpecial tree' := by
  intro n node hnode t ht hspecial
  by_cases hn : n = 0
  · subst hn
    rw [h.root_values hnode, List.mem_singleton] at ht
    rw [ht] at hspecial
    cases hspecial
  · have hstays : Token.Stays node.values :=
      Token.stays_of_isPlaceholder ht ((hintact n node hnode t ht).isPlaceholder hspecial)
    have hunsplit : Token.affixes? node.values = none := by
      cases ha : Token.affixes? node.values with
      | none => rfl
      | some a =>
          have hnot := hspares n node a hnode (by rw [Pass.affixes?_eq, ha]) t ht
          rw [hspecial] at hnot
          cases hnot
    obtain ⟨head, more, hpieces, hhead, -⟩ := hsweeps.mem_entries (h.mem_entries hnode hn) hstays
    rw [Token.pieces_of_none hunsplit] at hpieces
    cases hpieces
    obtain ⟨node', hnode', hvalues⟩ := exists_node_of_mem_entries h'.holds.below.spells hhead
    exact ⟨node', hnode', t, hvalues ▸ ht, rfl, hspecial⟩

/-- The pieces of a node that is split are values of nodes afterwards: the first piece of the node itself,
the others of nodes of their own unless they are joined. -/
theorem exists_pieces (hnode : tree.get? n = some node) (ha : node.affixes? = .ok (some a)) :
    ∃ head more, a.pieces node.values = head :: more ∧
      (∃ node', tree'.get? n = some node' ∧ node'.values = head) ∧
      ∀ piece ∈ more, Token.Stays piece → ∃ m node', tree'.get? m = some node' ∧
        node'.values = piece := by
  rw [Pass.affixes?_eq] at ha
  have haffixes := Except.ok.inj ha
  have hn : n ≠ 0 := by
    rintro rfl
    rw [h.root_values hnode] at haffixes
    cases haffixes
  obtain ⟨head, more, hpieces, hhead, hmore⟩ :=
    hsweeps.mem_entries (h.mem_entries hnode hn) (Token.stays_of_affixes? haffixes)
  rw [Token.pieces_of_some haffixes] at hpieces
  refine ⟨head, more, hpieces, exists_node_of_mem_entries h'.holds.below.spells hhead, ?_⟩
  intro piece hpiece hstays
  obtain ⟨m, hm⟩ := hmore piece hpiece hstays
  exact ⟨m, exists_node_of_mem_entries h'.holds.below.spells hm⟩

theorem not_intact_of_middle (hnode : tree.get? n = some node) (ha : node.affixes? = .ok (some a))
    (ht : t ∈ node.values) (hspecial : t.special = true)
    (hshape : Shape.ofWord? (Token.middle a t).word.toList = none)
    (hplace : (Token.middle a t).word ∉ Shape.placeholders) : ¬tree'.Intact := by
  obtain ⟨head, more, hpieces, hhead, hmore⟩ := exists_pieces h hsweeps h' hnode ha
  rw [Pass.affixes?_eq] at ha
  have haffixes := Except.ok.inj ha
  have hnodup := (h.wellFormed.values n node hnode).2
  have hmiddles : Token.settled (node.values.map (Token.middle a)) ∈ head :: more :=
    hpieces ▸ Token.settled_mem_pieces haffixes
  obtain ⟨m, node', hnode', hvalues⟩ : ∃ m node', tree'.get? m = some node' ∧
      node'.values = Token.settled (node.values.map (Token.middle a)) := by
    rcases List.mem_cons.mp hmiddles with heq | hmem
    · exact ⟨n, heq ▸ hhead⟩
    · exact hmore _ hmem (Token.stays_settled_middle haffixes hnodup)
  obtain ⟨u, hu, hword, huspecial⟩ :=
    Token.exists_special_middle haffixes hnodup ht hspecial hshape hplace
  intro hintact
  exact hplace (hword ▸ hintact m node' hnode' u (hvalues ▸ hu) huspecial)

/-- A sweep leaves all placeholders intact and in their nodes if and only if it splits no node that has
one. -/
theorem intact_and_keepsSpecial_iff (hintact : tree.Intact) :
    tree'.Intact ∧ tree.KeepsSpecial tree' ↔ tree.Spares := by
  constructor
  · rintro ⟨hintact', hkeeps⟩ n node a hnode ha t ht
    by_contra hspecial
    rw [Bool.not_eq_false] at hspecial
    have haffixes := Except.ok.inj ((Pass.affixes?_eq node).symm.trans ha)
    by_cases hfront : 0 < a.front
    · -- nothing but the common front is left in the node
      obtain ⟨head, more, hpieces, ⟨node', hnode', hvalues⟩, -⟩ :=
        exists_pieces h hsweeps h' hnode ha
      obtain ⟨node'', hnode'', u, hu, -, huspecial⟩ := hkeeps n node hnode t ht hspecial
      cases hnode'.symm.trans hnode''
      obtain ⟨first, rest, hnonempty⟩ := List.exists_cons_of_ne_nil (List.ne_nil_of_mem ht)
      rw [hnonempty, Affixes.pieces, if_pos hfront] at hpieces
      rw [hvalues, ← (List.cons.inj hpieces).1, List.mem_singleton] at hu
      rw [hu] at huspecial
      cases huspecial
    · obtain ⟨hshape, hplace⟩ := Token.middle_of_intact haffixes (by omega) ht
        (hintact n node hnode t ht) hspecial
      exact not_intact_of_middle h hsweeps h' hnode ha ht hspecial hshape hplace hintact'
  · intro hspares
    exact ⟨intact_of_spares h hsweeps h' hintact hspares,
      keepsSpecial_of_spares h hsweeps h' hintact hspares⟩

end Swept

end Tree

end LogMining
