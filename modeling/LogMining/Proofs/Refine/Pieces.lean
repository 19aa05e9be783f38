import LogMining.Proofs.Growth.Values
import LogMining.Proofs.Refine.Parts
import LogMining.Proofs.Refine.Sweep

/-!
# Where a sweep leaves the values of a slot

A sweep joins slots of one value with each other, and splits a slot with several values into its pieces.
So a slot whose values cannot be joined keeps its number and the first piece of its values, and the other
pieces come below it. `Token.pieces` are these pieces, and there is only one unless the slot is split.
-/

namespace LogMining

namespace Token

/-- A slot with these values is not joined with another one. -/
def Stays (values : List Token) : Prop := ∀ below, Slots.joint? values below = none

variable {values piece : List Token} {a : Affixes}

theorem affixes?_singleton (t : Token) : affixes? [t] = none := rfl

theorem stays_of_affixes? (h : affixes? values = some a) : Stays values := by
  obtain ⟨t, u, more, rfl, -⟩ := eq_of_affixes? h
  exact Slots.joint?_of_length_ne_one (by simp)

theorem stays_of_isPlaceholder {t : Token} (ht : t ∈ values) (hplace : t.isPlaceholder = true) :
    Stays values := by
  by_cases hlength : values.length = 1
  · obtain ⟨u, rfl⟩ := List.length_eq_one_iff.mp hlength
    rw [List.mem_singleton] at ht
    exact Slots.joint?_of_isPlaceholder (ht ▸ hplace)
  · exact Slots.joint?_of_length_ne_one hlength

theorem mem_pieces_cases (h : affixes? values = some a) (hpiece : piece ∈ a.pieces values) :
    (∃ word, piece = [{ word, subword := true }]) ∨ piece = settled (values.map (middle a)) := by
  obtain ⟨t, u, more, rfl, -⟩ := eq_of_affixes? h
  simp only [Affixes.pieces, List.mem_append] at hpiece
  rcases hpiece with (hpiece | hpiece) | hpiece
  · split at hpiece
    · exact .inl ⟨_, List.mem_singleton.mp hpiece⟩
    · cases hpiece
  · exact .inr (List.mem_singleton.mp hpiece)
  · split at hpiece
    · exact .inl ⟨_, List.mem_singleton.mp hpiece⟩
    · cases hpiece

theorem settled_mem_pieces (h : affixes? values = some a) :
    settled (values.map (middle a)) ∈ a.pieces values := by
  obtain ⟨t, u, more, rfl, -⟩ := eq_of_affixes? h
  simp [Affixes.pieces]

/-- Pieces are not split again. -/
theorem pieces_of_mem_pieces (hpiece : piece ∈ pieces values) : pieces piece = [piece] := by
  cases ha : affixes? values with
  | none =>
      rw [pieces_of_none ha, List.mem_singleton] at hpiece
      rw [hpiece, pieces_of_none ha]
  | some a =>
      rw [pieces_of_some ha] at hpiece
      rcases mem_pieces_cases ha hpiece with ⟨word, rfl⟩ | rfl
      · exact pieces_of_none (affixes?_singleton _)
      · exact pieces_of_none (affixes?_settled _)

end Token

namespace Slots

variable {P : List Token → Prop} {id n : Nat} {values values' vs piece : List Token}
  {ends ends' : Int} {below below' beside slots slots' : Slots} {isChoice : Bool}

theorem Joined.eq_of_stays (h : Joined values ends below values' ends' below')
    (hstays : Token.Stays values) : values' = values ∧ ends' = ends ∧ below' = below := by
  cases h with
  | done => exact ⟨rfl, rfl, rfl⟩
  | step hjoint =>
      rw [hstays below] at hjoint
      cases hjoint

theorem Joined.mem_entries (h : Joined values ends below values' ends' below')
    (hmem : (n, vs) ∈ below.entries) (hstays : Token.Stays vs) : (n, vs) ∈ below'.entries := by
  induction h with
  | done => exact hmem
  | step hjoint _ ih =>
      obtain ⟨t, u, id, rfl, rfl, -, hu, -⟩ := joint?_eq_some hjoint
      rw [entries_slot, entries_nil, List.append_nil, List.mem_cons] at hmem
      refine ih (hmem.resolve_left fun heq => ?_)
      cases heq
      have hself := hstays (slot 0 [u] 0 nil nil)
      rw [joint?, hu] at hself
      cases hself

theorem Prepared.eq_of_stays (h : Prepared isChoice values ends below values' ends' below')
    (hstays : Token.Stays values) : values' = values ∧ ends' = ends ∧ below' = below := by
  cases h with
  | choice => exact ⟨rfl, rfl, rfl⟩
  | only h => exact h.eq_of_stays hstays

theorem Prepared.mem_entries (h : Prepared isChoice values ends below values' ends' below')
    (hmem : (n, vs) ∈ below.entries) (hstays : Token.Stays vs) : (n, vs) ∈ below'.entries := by
  cases h with
  | choice => exact hmem
  | only h => exact h.mem_entries hmem hstays

theorem entries_subset_stack (fresh : Nat) (more : List (List Token)) (below : Slots) :
    below.entries ⊆ (stack fresh more below).entries := by
  induction more generalizing fresh with
  | nil => exact List.Subset.refl _
  | cons values more ih =>
      rw [stack, entries_slot, entries_nil, List.append_nil]
      exact List.subset_cons_of_subset _ (ih (fresh + 1))

theorem exists_mem_entries_stack (fresh : Nat) {more : List (List Token)} (hpiece : piece ∈ more)
    (below : Slots) : ∃ m, (m, piece) ∈ (stack fresh more below).entries := by
  induction more generalizing fresh with
  | nil => cases hpiece
  | cons values more ih =>
      rw [stack, entries_slot, entries_nil, List.append_nil]
      rcases List.mem_cons.mp hpiece with rfl | hpiece
      · exact ⟨fresh, List.mem_cons_self⟩
      · obtain ⟨m, hm⟩ := ih (fresh + 1) hpiece
        exact ⟨m, List.mem_cons_of_mem _ hm⟩

theorem All.stack (fresh : Nat) {more : List (List Token)} (hmore : ∀ piece ∈ more, P piece)
    (h : below.All P) : (stack fresh more below).All P := by
  induction more generalizing fresh with
  | nil => exact h
  | cons values more ih =>
      obtain ⟨hvalues, hrest⟩ := List.forall_mem_cons.mp hmore
      exact ⟨hvalues, ih (fresh + 1) hrest, trivial⟩

/-- After a sweep a slot that stays has the first piece of its values, and another slot has each of the
other pieces that stay. -/
theorem Sweeps.mem_entries (h : Sweeps isChoice slots slots') (hmem : (n, vs) ∈ slots.entries)
    (hstays : Token.Stays vs) :
    ∃ head more, Token.pieces vs = head :: more ∧ (n, head) ∈ slots'.entries ∧
      ∀ piece ∈ more, Token.Stays piece → ∃ m, (m, piece) ∈ slots'.entries := by
  induction h generalizing n vs with
  | nil => simp at hmem
  | @slot isChoice id fresh values values' values'' ends ends' ends'' below below' below'' swept
      beside beside' hprepared hfactored hbelow hbeside ihBelow ihBeside =>
      obtain ⟨more, hpieces, rfl, rfl⟩ := eq_stack_of_factored hfactored
      simp only [entries_slot, List.mem_cons, List.mem_append] at hmem ⊢
      rcases hmem with hown | hmem | hmem
      · cases hown
        obtain ⟨rfl, -, -⟩ := hprepared.eq_of_stays hstays
        refine ⟨values'', more, hpieces, .inl rfl, fun piece hpiece hpieceStays => ?_⟩
        obtain ⟨m, hm⟩ := exists_mem_entries_stack fresh hpiece below'
        obtain ⟨first, rest, hself, hfirst, -⟩ := ihBelow hm hpieceStays
        rw [Token.pieces_of_mem_pieces (hpieces ▸ List.mem_cons_of_mem values'' hpiece)] at hself
        cases hself
        exact ⟨m, .inr (.inl hfirst)⟩
      · have hbelow' := hprepared.mem_entries hmem hstays
        obtain ⟨first, rest, hself, hfirst, hrest⟩ :=
          ihBelow (entries_subset_stack fresh more below' hbelow') hstays
        refine ⟨first, rest, hself, .inr (.inl hfirst), fun piece hpiece hpieceStays => ?_⟩
        obtain ⟨m, hm⟩ := hrest piece hpiece hpieceStays
        exact ⟨m, .inr (.inl hm)⟩
      · obtain ⟨first, rest, hself, hfirst, hrest⟩ := ihBeside hmem hstays
        refine ⟨first, rest, hself, .inr (.inr hfirst), fun piece hpiece hpieceStays => ?_⟩
        obtain ⟨m, hm⟩ := hrest piece hpiece hpieceStays
        exact ⟨m, .inr (.inr hm)⟩

section Joining

variable (hjoin : ∀ t u : Token, t.isPlaceholder = false → P [t] →
  P [{ t with word := t.word ++ " " ++ u.word }])

include hjoin

theorem Joined.all (h : Joined values ends below values' ends' below') (hvalues : P values)
    (hbelow : below.All P) : P values' ∧ below'.All P := by
  induction h with
  | done => exact ⟨hvalues, hbelow⟩
  | step hjoint _ ih =>
      obtain ⟨t, u, id, rfl, rfl, ht, -, rfl⟩ := joint?_eq_some hjoint
      exact ih (hjoin t u ht hvalues) hbelow.2.1

theorem Prepared.all (h : Prepared isChoice values ends below values' ends' below')
    (hvalues : P values) (hbelow : below.All P) : P values' ∧ below'.All P := by
  cases h with
  | choice => exact ⟨hvalues, hbelow⟩
  | only h => exact h.all hjoin hvalues hbelow

/-- What is true of the values of all slots stays so in a sweep, if it is true of the values of joined slots
and of pieces of values. -/
theorem Sweeps.all (h : Sweeps isChoice slots slots')
    (hpieces : ∀ values, P values → ∀ piece ∈ Token.pieces values, P piece) (hall : slots.All P) :
    slots'.All P := by
  induction h with
  | nil => exact hall
  | @slot isChoice id fresh values values' values'' ends ends' ends'' below below' below'' swept
      beside beside' hprepared hfactored hbelow hbeside ihBelow ihBeside =>
      obtain ⟨hvalues', hbelow'⟩ := hprepared.all hjoin hall.1 hall.2.1
      obtain ⟨more, hpieces', rfl, rfl⟩ := eq_stack_of_factored hfactored
      have hsplit := hpieces values' hvalues'
      rw [hpieces', List.forall_mem_cons] at hsplit
      exact ⟨hsplit.1, ihBelow (hbelow'.stack fresh hsplit.2), ihBeside hall.2.2⟩

end Joining

end Slots

end LogMining
