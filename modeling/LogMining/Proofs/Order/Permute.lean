import LogMining.Proofs.Order.Alike
import LogMining.Proofs.Order.Sorting

/-!
# Lines in another order

If no two words compete for a slot, then the chains that grow from the same lines in two orders have the
same slots, in which the same words are counted, and what is inside of these has grown from the same lines
in two orders again.
-/

namespace LogMining.Slots

variable {lines lines' : List (List String)} {p q : Int × Slots}

theorem perm_counted {values values' : List Token}
    (hvalues : ∀ t ∈ values, t.occurs = lines.countP fun line => line.head? = some t.word)
    (hvalues' : ∀ t ∈ values', t.occurs = lines'.countP fun line => line.head? = some t.word)
    (hperm : lines'.Perm lines) (hwords : (values.map Token.word).Perm (values'.map Token.word)) :
    (values.map Token.counted).Perm (values'.map Token.counted) := by
  have hcounted : ∀ {vs : List Token},
      (∀ t ∈ vs, t.occurs = lines.countP fun line => line.head? = some t.word) →
      vs.map Token.counted = (vs.map Token.word).map fun w =>
        (w, ((lines.countP fun line => line.head? = some w : Nat) : Int)) := by
    intro vs hvs
    rw [List.map_map]
    apply List.map_congr_left
    intro t ht
    rw [Token.counted, hvs t ht]
    rfl
  rw [hcounted hvalues, hcounted fun t ht => by rw [hvalues' t ht, hperm.countP_eq]]
  exact hwords.map _

section Perm

variable (hperm : lines'.Perm lines) (hp : Grown lines p) (hq : Grown lines' q)

include hperm hp hq

theorem perm_words_of_perm : p.2.words.Perm q.2.words := by
  have hnodup := flatMap_words p.2 ▸ hp.splits.nodup
  have hnodup' := flatMap_words q.2 ▸ hq.splits.nodup
  refine (List.perm_ext_iff_of_nodup hnodup hnodup').mpr ?_
  intro word
  rw [← flatMap_words, ← flatMap_words, hp.splits.mem_iff, hq.splits.mem_iff]
  exact exists_congr fun rest => hperm.symm.mem_iff

/-- The words of a slot are a class of the lines, and they are the words of a slot in any order. -/
theorem exists_same_words (hsettled : Settled lines) {m : Member} (hm : m ∈ p.2.members) :
    IsClass lines m.words ∧ ∃ m' ∈ q.2.members, m.words.Perm m'.words := by
  have hsorts := hp.sorts hsettled (List.Subset.refl _)
  have hsorts' := hq.sorts hsettled hperm.subset
  obtain ⟨w, hw⟩ := List.exists_mem_of_ne_nil _ (hp.splits.grown m hm).1
  have hwq : w ∈ q.2.words := by
    rw [← (perm_words_of_perm hperm hp hq).mem_iff, ← flatMap_words]
    exact List.mem_flatMap_of_mem hm hw
  rw [← flatMap_words] at hwq
  obtain ⟨m', hm', hw'⟩ := List.mem_flatMap.mp hwq
  have hwords := hp.splits.mem_words_iff hsorts hm hw
  refine ⟨⟨w, hw, hwords⟩, m', hm', ?_⟩
  refine (List.perm_ext_iff_of_nodup ((List.nodup_flatMap.mp hp.splits.nodup).1 m hm)
    ((List.nodup_flatMap.mp hq.splits.nodup).1 m' hm')).mpr ?_
  intro v
  rw [hwords, hq.splits.mem_words_iff hsorts' hm' hw']
  exact and_congr_left' (exists_congr fun rest => hperm.symm.mem_iff)

end Perm

/-- Lines that can be sorted in one way only grow into the same slots in any order. -/
theorem Unambiguous.alike (h : Unambiguous lines) (hperm : lines'.Perm lines) (hp : Grown lines p)
    (hq : Grown lines' q) : p.1 = q.1 ∧ Alike p.2 q.2 := by
  induction h generalizing lines' p q with
  | @intro lines settled _ ih =>
      have hends : p.1 = q.1 := by
        rw [hp.accounts.ends, hq.accounts.ends, hperm.count_eq]
      refine ⟨hends, alike_of_members (perm_words_of_perm hperm hp hq)
        (flatMap_words p.2 ▸ hp.splits.nodup) ?_ ?_ ?_⟩
      · intro m hm hnil
        exact (hp.splits.grown m hm).1 (List.map_eq_nil_iff.mpr hnil)
      · intro m hm hnil
        exact (hq.splits.grown m hm).1 (List.map_eq_nil_iff.mpr hnil)
      · intro m hm
        obtain ⟨hclass, m', hm', hwords⟩ := exists_same_words hperm hp hq settled hm
        have hrests : (through m'.words lines').Perm (through m.words lines) := by
          rw [through_congr fun v _ _ => hwords.symm.mem_iff]
          exact hperm.filterMap _
        obtain ⟨hinside, hbelow⟩ :=
          ih m.words hclass hrests (hp.splits.grown m hm).2 (hq.splits.grown m' hm').2
        refine ⟨m', hm', ⟨?_, hinside, hbelow⟩⟩
        exact perm_counted (tallies_iff.mp hp.accounts.tallies m hm).1
          (tallies_iff.mp hq.accounts.tallies m' hm').1 hperm hwords

end LogMining.Slots
