import LogMining.Proofs.Sharing.Traced

/-!
# The route of a line stays

A line that has been inserted can be followed to its end, and the node at its end is the one that the
insertion returned. Lines that are inserted later change slots on its route, but a word never leaves its
slot and never comes to an earlier one, so the route stays the same.
-/

namespace LogMining

namespace Slots

/-- A line can be followed through a chain to its end. -/
def Carries (slots : Slots) (line : List String) : Prop := (slots.route line).length = line.length

variable {slots : Slots} {word : String} {words line : List String} {id : Nat}
  {values : List Token} {ends : Int} {below beside : Slots} {test : Slots → Bool}
  {change : List Token → List Token} {grown : Int × Slots → Int × Slots}

theorem carries_nil (slots : Slots) : slots.Carries [] := by
  rw [Carries, route_nil]
  rfl

theorem route_of_not_mem (h : word ∉ slots.words) (words : List String) :
    slots.route (word :: words) = [] := by
  rw [route, (from?_holdsWord_eq_none_iff word slots).mpr h]

theorem Carries.mem_words (h : slots.Carries (word :: words)) : word ∈ slots.words := by
  by_contra hnot
  rw [Carries, route_of_not_mem hnot] at h
  cases h

theorem carries_slot_of_mem (h : word ∈ values.map Token.word) :
    (slot id values ends below beside).Carries (word :: words) ↔ below.Carries words := by
  rw [Carries, route_slot, if_pos h, List.length_cons, List.length_cons, Nat.add_right_cancel_iff,
    Carries]

theorem carries_slot_of_not_mem (h : word ∉ values.map Token.word) :
    (slot id values ends below beside).Carries (word :: words) ↔ beside.Carries (word :: words) := by
  rw [Carries, route_slot, if_neg h, Carries]

/-- The route of a line does not change when a slot of the chain is entered, if the words that the slot
gets are new to the chain and the routes below it do not change. -/
theorem Carries.route_enter (hcarries : slots.Carries line)
    (hwords : ∀ values, values.map Token.word ⊆ (change values).map Token.word)
    (hnew : ∀ values, ∀ w ∈ (change values).map Token.word, w ∈ slots.words →
      w ∈ values.map Token.word)
    (hgrown : ∀ (p : Int × Slots) line, p.2.Carries line →
      (grown p).2.route line = p.2.route line) :
    (slots.changeFrom test (enter change grown)).route line = slots.route line := by
  cases line with
  | nil => rw [route_nil, route_nil]
  | cons word words =>
      induction slots with
      | nil => rfl
      | slot id values ends below beside _ ihBeside =>
          have hmem := hcarries.mem_words
          rw [changeFrom_slot]
          by_cases hword : word ∈ values.map Token.word
          · have hbelow := (carries_slot_of_mem hword).mp hcarries
            split
            · rw [enter_slot, route_slot, route_slot, if_pos hword, if_pos (hwords values hword),
                hgrown (ends, below) words hbelow]
            · rw [route_slot, route_slot, if_pos hword, if_pos hword]
          · have hbeside := (carries_slot_of_not_mem hword).mp hcarries
            split
            · have hnot : word ∉ (change values).map Token.word := fun hin =>
                hword (hnew values word hin hmem)
              rw [enter_slot, route_slot, route_slot, if_neg hword, if_neg hnot]
            · rw [route_slot, route_slot, if_neg hword, if_neg hword]
              exact ihBeside (fun values w hw hin =>
                hnew values w hw (List.mem_append_right _ hin)) hbeside

theorem Carries.route_append (hcarries : slots.Carries line) (more : Slots) :
    (slots.append more).route line = slots.route line := by
  cases line with
  | nil => rw [route_nil, route_nil]
  | cons word words =>
      induction slots with
      | nil => simp [Carries] at hcarries
      | slot id values ends below beside _ ihBeside =>
          rw [append_slot, route_slot, route_slot]
          split
          · rfl
          · next hword => exact ihBeside ((carries_slot_of_not_mem hword).mp hcarries)

theorem Carries.route_grow (hcarries : below.Carries line) (fresh : Nat) (tokens : List Token)
    (ends : Int) : (grow true fresh tokens (ends, below)).2.route line = below.route line := by
  induction tokens generalizing fresh below line ends with
  | nil => rfl
  | cons t more ih =>
      have hgrown : ∀ fresh (p : Int × Slots) line, p.2.Carries line →
          (grow true fresh more p).2.route line = p.2.route line :=
        fun fresh p line hline => ih hline fresh p.1
      -- whichever way the token enters, the words of the line stay in the slots where they were met
      by_cases hmem : t.word ∈ below.words
      · obtain ⟨fresh', hgrow⟩ := grow_of_mem fresh ends more hmem
        rw [hgrow]
        refine hcarries.route_enter (fun values => ?_) (fun values w hw _ => ?_) (hgrown fresh')
        · rw [map_word_countWord]
          exact List.Subset.refl _
        · rwa [map_word_countWord] at hw
      · cases hrest : below.from? (leadsTo (more.head?.map Token.word)) with
        | some rest =>
            obtain ⟨fresh', hgrow⟩ := grow_of_leadsTo fresh ends hmem hrest
            rw [hgrow]
            refine hcarries.route_enter (fun values => ?_) (fun values w hw hin => ?_)
              (hgrown fresh')
            · rw [List.map_append]
              exact List.subset_append_left _ _
            · rw [List.map_append, List.mem_append] at hw
              refine hw.resolve_right fun heq => hmem ?_
              rw [List.map_singleton, List.mem_singleton] at heq
              exact heq ▸ hin
        | none =>
            obtain ⟨fresh', hgrow⟩ := grow_of_opens fresh ends hmem hrest
            rw [hgrow]
            exact hcarries.route_append _

theorem route_changeFrom {beside' : Slots}
    (hrest : slots.from? (holdsWord word) = some (slot id values ends below beside'))
    (grown : Int × Slots → Int × Slots) (words : List String) :
    (slots.changeFrom (holdsWord word) (mapBelow grown)).route (word :: words) =
      (id : Int) :: (grown (ends, below)).2.route words := by
  induction slots with
  | nil => simp at hrest
  | slot id' values' ends' below' beside'' _ ihBeside =>
      rw [from?_slot] at hrest
      rw [changeFrom_slot]
      split at hrest
      · next hholds =>
        cases hrest
        rw [if_pos hholds, mapBelow, route_slot, if_pos ((holdsWord_slot ..).mp hholds)]
      · next hholds =>
        rw [if_neg hholds, route_slot, if_neg (mt (holdsWord_slot ..).mpr hholds)]
        exact ihBeside hrest

/-- Inserting lines leads from the first chain to the second one: it belongs to these lines, too, and the
routes through it are as before. -/
structure Extends (slots slots' : Slots) (lines : List (List String)) : Prop where
  traces : ∀ done, slots.Traces done → slots'.Traces (done ++ lines)
  route_eq : ∀ line, slots.Carries line → slots'.route line = slots.route line

theorem Extends.refl (slots : Slots) : slots.Extends slots [] where
  traces done h := by rwa [List.append_nil]
  route_eq _ _ := rfl

theorem Extends.carries {slots' : Slots} {lines : List (List String)}
    (h : slots.Extends slots' lines) (hcarries : slots.Carries line) : slots'.Carries line := by
  rw [Carries, h.route_eq line hcarries, hcarries]

theorem Extends.trans {slots' slots'' : Slots} {lines lines' : List (List String)}
    (h : slots.Extends slots' lines) (h' : slots'.Extends slots'' lines') :
    slots.Extends slots'' (lines ++ lines') where
  traces done hdone := by
    rw [← List.append_assoc]
    exact h'.traces _ (h.traces done hdone)
  route_eq line hcarries := by
    rw [h'.route_eq line (h.carries hcarries), h.route_eq line hcarries]

theorem extends_grow (fresh : Nat) (tokens : List Token) (ends : Int) (below : Slots) :
    below.Extends (grow true fresh tokens (ends, below)).2 [tokens.map Token.word] where
  traces _ h := traces_grow fresh tokens (p := (ends, below)) h
  route_eq _ h := h.route_grow fresh tokens ends

end Slots

namespace Tree

variable {σ : Type} {tree : Tree} {parent : Option NodeId} {level : Nat} {values : List Token}
  {ends : Int} {below beside : Slots}

theorem insertFrom_route (last : σ) (tokens : List (Token × σ))
    (h : tree.Holds parent (.slot level values ends below beside)) (hproper : below.Proper)
    {id : NodeId} {final : Tree × σ}
    (hrun : insertFrom none last level tokens tree = .ok id final) :
    let words := (tokens.map Prod.fst).map Token.word
    let below' := (Slots.grow true tree.size (tokens.map Prod.fst) (ends, below)).2
    below'.Carries words ∧ ((level : Int) :: below'.route words).getLast? = some id := by
  induction tokens generalizing tree parent level values ends below beside with
  | nil =>
      obtain ⟨tree', hnil, -⟩ := insertFrom_nil none last h
      rw [hnil] at hrun
      cases hrun
      exact ⟨Slots.carries_nil _, by simp⟩
  | cons token more ih =>
      obtain ⟨t, s⟩ := token
      obtain ⟨id', mid, rest, hplaced⟩ := exists_placed h hproper t (more.head?.map Prod.fst)
      have hmid := hplaced.replaces.toHolds
      obtain ⟨-, n, values', ends', below', beside', rfl⟩ := Slots.from?_eq_some hplaced.found
      obtain rfl : id' = n := Int.ofNat.inj (Option.some.inj hplaced.first.symm)
      have hproper' := Slots.proper_from? (Slots.proper_place hproper) hplaced.found
      rw [insertFrom_cons (.inr rfl) hplaced.run] at hrun
      -- the other tokens are inserted below the slot to which the first one has led
      obtain ⟨hcarries, hend⟩ :=
        ih (hmid.below.from? hplaced.found) hproper'.2.2.1 hrun
      have hnext : (more.head?.map Prod.fst).map Token.word =
          (more.map Prod.fst).head?.map Token.word := by cases more <;> rfl
      have hroute := Slots.route_changeFrom hplaced.found
        (Slots.grow true mid.size (more.map Prod.fst)) ((more.map Prod.fst).map Token.word)
      rw [hplaced.size_eq, hnext] at hroute
      rw [hplaced.size_eq, hnext] at hcarries hend
      dsimp only
      rw [List.map_cons, List.map_cons, Slots.grow_cons _ _ _ (.inr rfl), Slots.Carries, hroute]
      refine ⟨congrArg Nat.succ hcarries, ?_⟩
      rw [List.getLast?_cons_cons]
      exact hend

theorem run_insertTokens_eq (tokens : List Token) (tree : Tree) :
    (insertTokens tokens).run tree =
      Step.mapState Prod.fst (insertFrom none () root (tokens.map (·, ())) tree) := rfl

theorem run_insertTokens_extends (h : tree.Comprises ends below) (tokens : List Token) :
    ∃ id tree' ends' below', (insertTokens tokens).run tree = .ok id tree' ∧
      tree'.Comprises ends' below' ∧ below.Extends below' [tokens.map Token.word] ∧
      below'.Carries (tokens.map Token.word) ∧
      (root :: below'.route (tokens.map Token.word)).getLast? = some id := by
  obtain ⟨id, tree', hrun, htree⟩ := run_insertTokens h tokens
  have hfrom := hrun
  rw [run_insertTokens_eq] at hfrom
  cases hinsert : insertFrom none () root (tokens.map (·, ())) tree with
  | error fault final =>
      rw [hinsert] at hfrom
      cases hfrom
  | ok id' final =>
      rw [hinsert] at hfrom
      cases hfrom
      obtain ⟨hcarries, hend⟩ := insertFrom_route () _ h.holds h.proper hinsert
      have htokens : (tokens.map (·, ())).map Prod.fst = tokens := by simp [Function.comp_def]
      rw [htokens] at hcarries hend
      exact ⟨_, _, _, _, hrun, htree, Slots.extends_grow .., hcarries, hend⟩

/-- Inserting lines into a whole tree extends the chain below the root. -/
theorem run_insertLines_extends (h : tree.Comprises ends below) (lines : List (List Token)) :
    ∃ tree' ends' below', (insertLines lines).run tree = .ok () tree' ∧
      tree'.Comprises ends' below' ∧
      below.Extends below' (lines.map fun line => line.map Token.word) := by
  induction lines generalizing tree ends below with
  | nil => exact ⟨tree, ends, below, rfl, h, Slots.Extends.refl below⟩
  | cons tokens lines ih =>
      obtain ⟨id, mid, ends', below', hrun, hmid, hextends, -⟩ := run_insertTokens_extends h tokens
      obtain ⟨tree', ends'', below'', hrest, htree, hextends'⟩ := ih hmid
      refine ⟨tree', ends'', below'', ?_, htree, hextends.trans hextends'⟩
      rw [insertLines, EStateM.run_bind, hrun]
      exact hrest

theorem exists_traces (lines : List (List Token)) :
    ∃ tree ends below, (insertLines lines).run empty = .ok () tree ∧ tree.Comprises ends below ∧
      below.Traces (lines.map fun line => line.map Token.word) := by
  obtain ⟨tree, ends, below, hrun, htree, hextends⟩ :=
    run_insertLines_extends comprises_empty lines
  exact ⟨tree, ends, below, hrun, htree, hextends.traces [] Slots.traces_nil⟩

end Tree

end LogMining
