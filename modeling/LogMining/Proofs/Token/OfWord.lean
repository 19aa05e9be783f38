import LogMining.Proofs.Shape.Masked
import LogMining.Token.Source

/-!
# The tokens of a word

A word of a line becomes one token, unless it is a masked address, which becomes three. The second and the
third one are set aside, so only a masked address needs room among the pending tokens.
-/

namespace LogMining

namespace Token

/-- The tokens that a word becomes as it stands in a line. -/
def ofWord (word : List Char) : List Token :=
  let t : Token := { word := String.ofList word }
  if t.isPlaceholder then [{ t with special := decide (t.word ∈ Shape.placeholders) }]
  else
    match t.shaped? with
    | some s => [s]
    | none =>
      if Shape.isMaskedAddress word then
        [Pending.addressPart t, Pending.slashPart, Pending.maskPart]
      else [t]

variable {word : List Char}

theorem isPlaceholder_of_isMasked (h : Shape.IsMasked word) :
    ({ word := String.ofList word } : Token).isPlaceholder = false := by
  obtain ⟨c, hc, hdigit⟩ := Shape.head?_of_isMasked h
  rw [← Bool.not_eq_true, isPlaceholder_iff, String.toList_ofList, Option.mem_def.mp hc]
  rintro heq
  cases heq
  exact absurd hdigit (by decide)

theorem shaped?_of_isMasked (h : Shape.IsMasked word) :
    ({ word := String.ofList word } : Token).shaped? = none := by
  rw [shaped?, String.toList_ofList, Shape.ofWord?_of_isMasked h]
  rfl

/-- The token of the address of a masked address, whatever the address. -/
def maskedAddress : Token :=
  { word := Shape.ipv4.placeholder, subword := true, special := true }

theorem ofWord_of_isMasked (h : Shape.IsMasked word) :
    ofWord word = [maskedAddress, Pending.slashPart, Pending.maskPart] := by
  rw [ofWord, isPlaceholder_of_isMasked h, shaped?_of_isMasked h, Shape.isMaskedAddress_iff.mpr h]
  rfl

end Token

open Shape (IsMasked)

namespace Pending

variable {word : List Char} {t : Token} {p : Pending}

theorem run_push_of_room (h : p.size < p.capacity) :
    (push t).run p = .ok () { p with items := t :: p.items } := by
  rw [run_push, if_neg (by omega)]

theorem run_push_of_full (h : p.capacity ≤ p.size) :
    (push t).run p = .error (.overflow p.capacity) p := by
  rw [run_push, if_pos h]

theorem run_detect_of_isMasked (h : IsMasked word) (p : Pending) :
    (detect { word := String.ofList word }).run p =
      (do push maskPart; push slashPart; return some Token.maskedAddress : Step Pending _).run p := by
  rw [detect, Token.shaped?_of_isMasked h]
  dsimp only
  rw [String.toList_ofList, Shape.isMaskedAddress_iff.mpr h]
  rfl

end Pending

namespace Source

variable {word : List Char} {p : Pending}

theorem run_classify_of_not (h : ¬IsMasked word) (p : Pending) :
    ∃ t, Token.ofWord word = [t] ∧ (classify word).run p = .ok t p := by
  rw [← Shape.isMaskedAddress_iff] at h
  rw [Token.ofWord, classify]
  dsimp only
  split
  · exact ⟨_, rfl, rfl⟩
  · rw [EStateM.run_bind, Pending.detect]
    cases ({ word := String.ofList word } : Token).shaped? with
    | some s => exact ⟨s, rfl, rfl⟩
    | none =>
        dsimp only
        rw [String.toList_ofList, if_neg h]
        exact ⟨_, rfl, rfl⟩

theorem run_classify_of_isMasked (h : IsMasked word) (p : Pending) :
    (classify word).run p =
      (do Pending.push Pending.maskPart; Pending.push Pending.slashPart
          return Token.maskedAddress : Step Pending _).run p := by
  rw [classify]
  dsimp only
  rw [Token.isPlaceholder_of_isMasked h, if_neg Bool.false_ne_true, EStateM.run_bind,
    Pending.run_detect_of_isMasked h]
  simp only [EStateM.run_bind]
  cases (Pending.push Pending.maskPart).run p with
  | error fault q => rfl
  | ok _ q =>
      dsimp only
      cases (Pending.push Pending.slashPart).run q <;> rfl

/-- With room for two tokens a masked address is handed out in three parts. -/
theorem run_classify_of_room (h : IsMasked word) (hitems : p.items = []) (hroom : 2 ≤ p.capacity) :
    (classify word).run p = .ok Token.maskedAddress
      { p with items := [Pending.slashPart, Pending.maskPart] } := by
  have hsize : p.size = 0 := by rw [Pending.size, hitems, List.length_nil]
  rw [run_classify_of_isMasked h, EStateM.run_bind, Pending.run_push_of_room (by omega)]
  dsimp only
  rw [EStateM.run_bind, Pending.run_push_of_room (by simp [Pending.size, hitems]; omega), hitems]
  rfl

/-- Without room for two tokens a masked address is a fault. Where there is room for one, the token that is
to come last has been set aside. -/
theorem run_classify_of_full (h : IsMasked word) (hitems : p.items = []) (hfull : p.capacity < 2) :
    (classify word).run p = .error (.overflow p.capacity)
      { p with items := if p.capacity = 1 then [Pending.maskPart] else [] } := by
  have hsize : p.size = 0 := by rw [Pending.size, hitems, List.length_nil]
  rw [run_classify_of_isMasked h, EStateM.run_bind]
  by_cases hone : p.capacity = 1
  · rw [Pending.run_push_of_room (by omega)]
    dsimp only
    rw [EStateM.run_bind, Pending.run_push_of_full (by simp [Pending.size, hitems]; omega), if_pos hone,
      hitems]
  · rw [Pending.run_push_of_full (by omega), if_neg hone, ← hitems]

variable {P : Token → Prop}

theorem forall_mem_push {t : Token} (hitems : ∀ u ∈ p.items, P u) (ht : P t) :
    ∀ u ∈ (Step.state ((Pending.push t).run p)).items, P u := by
  rw [Pending.run_push]
  split
  · exact hitems
  · exact List.forall_mem_cons.mpr ⟨ht, hitems⟩

theorem forall_mem_classify (hitems : ∀ t ∈ p.items, P t) (hword : ∀ t ∈ Token.ofWord word, P t) :
    (∀ t ∈ (Step.state ((classify word).run p)).items, P t) ∧
      ∀ t p', (classify word).run p = .ok t p' → P t := by
  by_cases hmasked : IsMasked word
  · rw [Token.ofWord_of_isMasked hmasked] at hword
    simp only [List.forall_mem_cons] at hword
    obtain ⟨haddress, hslash, hmask, -⟩ := hword
    have hfirst := forall_mem_push hitems hmask
    rw [run_classify_of_isMasked hmasked, EStateM.run_bind]
    cases hpush : (Pending.push Pending.maskPart).run p with
    | error fault q =>
        rw [hpush] at hfirst
        exact ⟨hfirst, fun t p' hrun => by cases hrun⟩
    | ok _ q =>
        rw [hpush] at hfirst
        have hsecond := forall_mem_push (p := q) hfirst hslash
        dsimp only
        rw [EStateM.run_bind]
        cases hpush' : (Pending.push Pending.slashPart).run q with
        | error fault r =>
            rw [hpush'] at hsecond
            exact ⟨hsecond, fun t p' hrun => by cases hrun⟩
        | ok _ r =>
            rw [hpush'] at hsecond
            refine ⟨hsecond, fun t p' hrun => ?_⟩
            cases hrun
            exact haddress
  · obtain ⟨t, hof, hrun⟩ := run_classify_of_not hmasked p
    rw [hrun]
    refine ⟨hitems, fun u p' hok => ?_⟩
    cases hok
    exact hword t (hof ▸ List.mem_cons_self)

end Source

end LogMining
