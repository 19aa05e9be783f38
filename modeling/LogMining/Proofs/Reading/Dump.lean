import LogMining.Proofs.Growth.Values
import LogMining.Proofs.Reading.Row
import LogMining.Proofs.Slots.Renumber

/-!
# Reading a dump

The rows of slots can be read back: the values of a slot come one after the other, then the rows of the level
below and those of the same level, and every chain ends where the level is lower than its own. So slots with
the same rows are the same without their numbers.
-/

namespace LogMining

namespace Slots

variable {slots slots' : Slots} {level : Nat} {rest rest' : List Row}

theorem forall_mem_rows {Q : Token → Prop} (h : slots.All fun values => ∀ t ∈ values, Q t) :
    ∀ r ∈ slots.rows level, Q r.token := by
  induction slots generalizing level with
  | nil => simp [rows]
  | slot id values ends below beside ihBelow ihBeside =>
      obtain ⟨hvalues, hbelow, hbeside⟩ := all_slot.mp h
      rw [rows_slot, List.forall_mem_append, List.forall_mem_append]
      refine ⟨?_, ihBelow hbelow, ihBeside hbeside⟩
      cases values with
      | nil => simp [Row.ofValues]
      | cons t more =>
          obtain ⟨ht, hmore⟩ := List.forall_mem_cons.mp hvalues
          simpa [Row.ofValues, ht] using hmore

/-- Rows are of account for the nesting only, not for the numbers. -/
theorem rows_unnumbered (slots : Slots) (level : Nat) : slots.unnumbered.rows level = slots.rows level := by
  induction slots generalizing level with
  | nil => rfl
  | slot id values ends below beside ihBelow ihBeside =>
      rw [unnumbered_slot, rows_slot, rows_slot, ihBelow, ihBeside]

theorem rows_slot_append (level id : Nat) (t : Token) (more : List Token) (ends : Int)
    (below beside : Slots) (rest : List Row) :
    (slot id (t :: more) ends below beside).rows level ++ rest =
      ⟨level, true, t, ends⟩ :: (more.map (fun u => ⟨level, false, u, 0⟩) ++
        (below.rows (level + 1) ++ (beside.rows level ++ rest))) := by
  simp [rows_slot, Row.ofValues]

/-- What follows a chain on a lower level does not go on with the chain. -/
theorem ne_rows_slot_append {id : Nat} {values : List Token} {ends : Int} {below beside : Slots}
    (h : (slot id values ends below beside).Proper) (hrest : ∀ r ∈ rest.head?, r.level < level) :
    rest ≠ (slot id values ends below beside).rows level ++ rest' := by
  obtain ⟨t, more, rfl⟩ := List.exists_cons_of_ne_nil h.1
  rw [rows_slot_append]
  rintro rfl
  exact Nat.lt_irrefl level (hrest _ rfl)

theorem head?_rows_append (h : slots.Proper)
    (hrest : ∀ r ∈ rest.head?, r.isFirst = true ∧ r.level < level + 1) :
    ∀ r ∈ (slots.rows level ++ rest).head?, r.isFirst = true ∧ r.level < level + 1 := by
  cases slots with
  | nil => exact hrest
  | slot id values ends below beside =>
      obtain ⟨t, more, rfl⟩ := List.exists_cons_of_ne_nil h.1
      intro r hr
      cases hr
      exact ⟨rfl, Nat.lt_succ_self level⟩

theorem of_rows_slot_append {id id' : Nat} {t t' : Token} {more more' : List Token} {ends ends' : Int}
    {below below' beside beside' : Slots}
    (hafter : ∀ r ∈ (below.rows (level + 1) ++ (beside.rows level ++ rest)).head?, r.isFirst = true)
    (hafter' : ∀ r ∈ (below'.rows (level + 1) ++ (beside'.rows level ++ rest')).head?, r.isFirst = true)
    (hrows : (slot id (t :: more) ends below beside).rows level ++ rest =
      (slot id' (t' :: more') ends' below' beside').rows level ++ rest') :
    t = t' ∧ more = more' ∧ ends = ends' ∧
      below.rows (level + 1) ++ (beside.rows level ++ rest) =
        below'.rows (level + 1) ++ (beside'.rows level ++ rest') := by
  rw [rows_slot_append, rows_slot_append] at hrows
  obtain ⟨hfirst, hbehind⟩ := List.cons.inj hrows
  obtain ⟨-, -, htoken, hends⟩ := Row.mk.inj hfirst
  have hothers : ∀ more : List Token,
      ∀ r ∈ more.map (fun u => (⟨level, false, u, 0⟩ : Row)), (!r.isFirst) = true := by simp
  obtain ⟨hmore, hinside⟩ := Text.append_inj_of_run (hothers more) (hothers more')
    (fun r hr => by simp [hafter r hr]) (fun r hr => by simp [hafter' r hr]) hbehind
  exact ⟨htoken, (List.map_inj_right fun u u' hu => (Row.mk.inj hu).2.2.1).mp hmore, hends, hinside⟩

/-- Slots can be read back from their rows, up to their numbers, where a lower level or nothing follows. -/
theorem unnumbered_eq_of_rows (h : slots.Proper) (h' : slots'.Proper)
    (hrest : ∀ r ∈ rest.head?, r.isFirst = true ∧ r.level < level)
    (hrest' : ∀ r ∈ rest'.head?, r.isFirst = true ∧ r.level < level)
    (hrows : slots.rows level ++ rest = slots'.rows level ++ rest') :
    slots.unnumbered = slots'.unnumbered ∧ rest = rest' := by
  induction slots generalizing slots' level rest rest' with
  | nil =>
      cases slots' with
      | nil => exact ⟨rfl, hrows⟩
      | slot id values ends below beside =>
          exact absurd hrows (ne_rows_slot_append h' fun r hr => (hrest r hr).2)
  | slot id values ends below beside ihBelow ihBeside =>
      cases slots' with
      | nil => exact absurd hrows.symm (ne_rows_slot_append h fun r hr => (hrest' r hr).2)
      | slot id' values' ends' below' beside' =>
          obtain ⟨t, more, rfl⟩ := List.exists_cons_of_ne_nil h.1
          obtain ⟨t', more', rfl⟩ := List.exists_cons_of_ne_nil h'.1
          obtain ⟨-, -, hbelow, hbeside⟩ := h
          obtain ⟨-, -, hbelow', hbeside'⟩ := h'
          have hnext := head?_rows_append hbeside fun r hr => (hrest r hr).imp_right Nat.lt_succ_of_lt
          have hnext' := head?_rows_append hbeside' fun r hr => (hrest' r hr).imp_right Nat.lt_succ_of_lt
          have hafter := head?_rows_append hbelow fun r hr => (hnext r hr).imp_right Nat.lt_succ_of_lt
          have hafter' := head?_rows_append hbelow' fun r hr => (hnext' r hr).imp_right Nat.lt_succ_of_lt
          obtain ⟨rfl, rfl, rfl, hinside⟩ := of_rows_slot_append (fun r hr => (hafter r hr).1)
            (fun r hr => (hafter' r hr).1) hrows
          obtain ⟨hbelow, haside⟩ := ihBelow hbelow hbelow' hnext hnext' hinside
          obtain ⟨hbeside, hrest⟩ := ihBeside hbeside hbeside' hrest hrest' haside
          refine ⟨?_, hrest⟩
          rw [unnumbered_slot, unnumbered_slot, hbelow, hbeside]

end Slots

namespace Tree

variable {tree tree' : Tree} {ends ends' : Int} {below below' : Slots}

theorem forall_mem_rows (hgenuine : below.All fun values => ∀ t ∈ values, t.Genuine) :
    ∀ r ∈ (Slots.root ends below).rows 0, r.token.Genuine := by
  have hink : rootWord.toList.all Text.isInk = true := by decide
  have hroot : ({ word := rootWord } : Token).Genuine :=
    Token.genuine_of_not_isPlaceholder rfl (by decide) (List.all_eq_true.mp hink) (Int.le_refl 1) rfl
  exact Slots.forall_mem_rows ⟨List.forall_mem_singleton.mpr hroot, hgenuine, trivial⟩

/-- Whole trees of genuine tokens have the same dump if and only if they differ in their numbers only. -/
theorem Comprises.dump_eq_iff (h : tree.Comprises ends below) (h' : tree'.Comprises ends' below')
    (hgenuine : below.All fun values => ∀ t ∈ values, t.Genuine)
    (hgenuine' : below'.All fun values => ∀ t ∈ values, t.Genuine) :
    tree.dump = tree'.dump ↔ ∃ f, tree.Renumbers tree' f := by
  rw [h.exists_renumbers_iff h', h.dump_eq, h'.dump_eq, Except.ok.injEq]
  constructor
  · intro htexts
    have hrows := Row.eq_of_map_text (forall_mem_rows hgenuine) (forall_mem_rows hgenuine') htexts
    rw [← List.append_nil (Slots.rows 0 _), ← List.append_nil (Slots.rows 0 (Slots.root ends' below'))]
      at hrows
    exact (Slots.unnumbered_eq_of_rows h.proper_root h'.proper_root (by simp) (by simp) hrows).1
  · intro hsame
    rw [← Slots.rows_unnumbered, hsame, Slots.rows_unnumbered]

end Tree

end LogMining
