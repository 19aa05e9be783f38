import LogMining.Proofs.Shape.Value
import LogMining.Proofs.Token.Feed
import LogMining.Proofs.Token.Intact
import Mathlib.Data.List.Forall2

/-!
# Lines as runs and expansions

What a source makes of a line can be told without reading it: the line falls into runs of characters other than
blanks, and every run expands to one token or, if it is a masked address, to three. `Token.Expands` has one
rule for each way in which a run expands; the rules exclude each other, so a run expands in one way only.
-/

namespace LogMining

open Shape (IsMasked IsValueChar)
open Text (words)
open Text.Scan (IsNumber)

namespace Shape

variable {word : List Char}

theorem head?_ne_marker_of_ofWord? {shape : Shape} (h : ofWord? word = some shape) :
    word.head? ≠ some marker := by
  intro hhead
  rcases isValueChar_of_ofWord? h marker (List.mem_of_mem_head? hhead) with hdigit | hcolon | hdot
  · exact absurd hdigit (by decide)
  · exact absurd hcolon (by decide)
  · exact absurd hdot (by decide)

end Shape

namespace Token

/-- What a run of characters other than blanks becomes. -/
inductive Expands : List Char → List Token → Prop
  /-- A run that begins like a placeholder stays, and stands for a shape if it is one of the placeholders. -/
  | marked {word : List Char} (hmarked : word.head? = some Shape.marker) :
      Expands word
        [{ word := String.ofList word, special := decide (String.ofList word ∈ Shape.placeholders) }]
  /-- A value of a shape is replaced by the placeholder of the first shape that accepts it. -/
  | value {word : List Char} {shape : Shape}
      (hshape : Shape.ofTokens.find? (·.accepts word) = some shape) :
      Expands word [{ word := shape.placeholder, special := true }]
  /-- An address with a mask becomes an address, a slash and a number, all of them parts of the run. -/
  | masked {address mask : List Char} (haddress : Shape.ipv4.accepts address = true) (hmask : IsNumber mask) :
      Expands (address ++ '/' :: mask)
        [{ word := Shape.ipv4.placeholder, subword := true, special := true },
          { word := "/", subword := true },
          { word := Shape.integer.placeholder, subword := true, special := true }]
  /-- Any other run stays as it is. -/
  | literal {word : List Char} (hmarked : word.head? ≠ some Shape.marker)
      (hshape : ∀ shape ∈ Shape.ofTokens, shape.accepts word = false)
      (hmasked : ∀ address mask, word = address ++ '/' :: mask → Shape.ipv4.accepts address = true →
        ¬IsNumber mask) :
      Expands word [{ word := String.ofList word }]

variable {word : List Char} {tokens : List Token}

theorem isPlaceholder_ofList :
    ({ word := String.ofList word } : Token).isPlaceholder = true ↔ word.head? = some Shape.marker := by
  rw [isPlaceholder_iff, String.toList_ofList]

theorem ofWord_of_marked (h : word.head? = some Shape.marker) :
    ofWord word =
      [{ word := String.ofList word, special := decide (String.ofList word ∈ Shape.placeholders) }] := by
  rw [ofWord, isPlaceholder_ofList.mpr h]
  rfl

theorem ofWord_of_shape {shape : Shape} (h : Shape.ofWord? word = some shape) :
    ofWord word = [{ word := shape.placeholder, special := true }] := by
  have hmarked : ({ word := String.ofList word } : Token).isPlaceholder = false := by
    rw [← Bool.not_eq_true, isPlaceholder_ofList]
    exact Shape.head?_ne_marker_of_ofWord? h
  rw [ofWord, hmarked, shaped?, String.toList_ofList, h]
  rfl

theorem ofWord_of_literal (hmarked : word.head? ≠ some Shape.marker) (hshape : Shape.ofWord? word = none)
    (hmasked : ¬IsMasked word) : ofWord word = [{ word := String.ofList word }] := by
  rw [Ne, ← isPlaceholder_ofList, Bool.not_eq_true] at hmarked
  rw [← Shape.isMaskedAddress_iff, Bool.not_eq_true] at hmasked
  rw [ofWord, hmarked, shaped?, String.toList_ofList, hshape, hmasked]
  rfl

theorem expands_iff : Expands word tokens ↔ tokens = ofWord word := by
  constructor
  · intro h
    cases h with
    | marked hmarked => exact (ofWord_of_marked hmarked).symm
    | value hshape => exact (ofWord_of_shape hshape).symm
    | masked haddress hmask =>
        exact (ofWord_of_isMasked ⟨_, _, rfl, Shape.accepts_ipv4_iff.mp haddress, hmask⟩).symm
    | literal hmarked hshape hmasked =>
        have hnone : Shape.ofWord? word = none := by
          rw [Shape.ofWord?, List.find?_eq_none]
          intro shape hmem
          rw [hshape shape hmem]
          exact Bool.false_ne_true
        refine (ofWord_of_literal hmarked hnone ?_).symm
        rintro ⟨address, mask, hword, haddress, hmask⟩
        exact hmasked address mask hword (Shape.accepts_ipv4_iff.mpr haddress) hmask
  · rintro rfl
    -- the cases exclude each other in the order in which a word is looked at
    by_cases hmarked : word.head? = some Shape.marker
    · rw [ofWord_of_marked hmarked]
      exact .marked hmarked
    · by_cases hmasked : IsMasked word
      · rw [ofWord_of_isMasked hmasked]
        obtain ⟨address, mask, rfl, haddress, hmask⟩ := hmasked
        exact .masked (Shape.accepts_ipv4_iff.mpr haddress) hmask
      · cases hshape : Shape.ofWord? word with
        | some shape =>
            rw [ofWord_of_shape hshape]
            exact .value hshape
        | none =>
            rw [ofWord_of_literal hmarked hshape hmasked]
            refine .literal hmarked (fun shape hmem => ?_) fun address mask hword haddress hmask => ?_
            · rw [Shape.ofWord?, List.find?_eq_none] at hshape
              exact Bool.eq_false_iff.mpr (hshape shape hmem)
            · exact hmasked ⟨address, mask, hword, Shape.accepts_ipv4_iff.mp haddress, hmask⟩

/-- The runs of a text expand to the tokens of its words. -/
theorem flatten_of_expands {text : List Char} {runs : List (List Char)} {parts : List (List Token)}
    (hruns : Text.Runs text runs) (hparts : List.Forall₂ Expands runs parts) :
    parts.flatten = (Text.words text).flatMap ofWord := by
  rw [← Text.runs_iff.mp hruns]
  clear hruns
  induction hparts with
  | nil => rfl
  | cons hpart _ ih => rw [List.flatten_cons, List.flatMap_cons, ih, expands_iff.mp hpart]

theorem exists_expands (runs : List (List Char)) : ∃ parts, List.Forall₂ Expands runs parts := by
  refine ⟨runs.map ofWord, List.forall₂_map_right_iff.mpr (List.forall₂_same.mpr ?_)⟩
  exact fun word _ => expands_iff.mpr rfl

end Token

theorem Pending.run_forM_push (tokens : List Token) {p : Pending}
    (h : (p.size + tokens.length : Nat) ≤ p.capacity) :
    (tokens.forM push).run p = .ok () { p with items := tokens.reverse ++ p.items } := by
  induction tokens generalizing p with
  | nil => rfl
  | cons t tokens ih =>
      rw [List.length_cons] at h
      have hrest : ((Pending.mk p.capacity (t :: p.items)).size + tokens.length : Nat) ≤ p.capacity := by
        rw [size, List.length_cons]
        rw [size] at h
        omega
      rw [List.forM_eq_forM, List.forM_cons, EStateM.run_bind, run_push_of_room (by omega)]
      dsimp only
      rw [← List.forM_eq_forM, ih hrest, List.reverse_cons, List.append_assoc]
      rfl

namespace Source

/-- However many tokens have been set aside before a line is read, as long as there is room for them and for two
in all, the line is read to its end. The tokens set aside are handed out first, the last one at the head, and then
what the runs of the line expand to. -/
theorem run_toList_of_expands (line : String) (capacity : Int) (hcapacity : 2 ≤ capacity)
    (aside : List Token) (haside : aside.length ≤ capacity) :
    ∃ p, (aside.forM Pending.push).run { capacity } = .ok () p ∧
      (∃ runs parts, Text.Runs line.toList runs ∧ List.Forall₂ Token.Expands runs parts) ∧
      ∀ runs parts, Text.Runs line.toList runs → List.Forall₂ Token.Expands runs parts →
        toList.run (ofLine line p) = .ok (aside.reverse ++ parts.flatten)
          { pending := { capacity }, rest := [], position := line.length } := by
  have hpush := Pending.run_forM_push aside (p := { capacity }) (by simpa [Pending.size] using haside)
  rw [List.append_nil] at hpush
  refine ⟨_, hpush, ?_, ?_⟩
  · obtain ⟨parts, hparts⟩ := Token.exists_expands (words line.toList)
    exact ⟨_, parts, Text.runs_iff.mpr rfl, hparts⟩
  · intro runs parts hruns hparts
    rw [run_toList_of_room _ (.inl hcapacity), Token.flatten_of_expands hruns hparts, ← String.length_toList]
    simp [ofLine, Pending.clear]

/-- Two tokens set aside, and a line whose runs expand in all four ways. -/
theorem run_toList_of_four_runs :
    (2 : Int) ≤ 2 ∧ ([{ word := "b" }, { word := "a" }] : List Token).length ≤ (2 : Int) ∧
      ∃ p, ([{ word := "b" }, { word := "a" }].forM Pending.push).run { capacity := 2 } = .ok () p ∧
        toList.run (ofLine " 10.0.0.1/24\t07:30:00 %ipv4% -7 " p) =
          .ok [{ word := "a" }, { word := "b" }, { word := "%ipv4%", subword := true, special := true },
              { word := "/", subword := true }, { word := "%posint%", subword := true, special := true },
              { word := "%time-24hr%", special := true }, { word := "%ipv4%", special := true },
              { word := "-7" }]
            { pending := { capacity := 2 }, rest := [], position := 32 } := by
  refine ⟨by decide, by decide, ?_⟩
  obtain ⟨p, hp, -, hread⟩ := run_toList_of_expands " 10.0.0.1/24\t07:30:00 %ipv4% -7 " 2 (by decide)
    [{ word := "b" }, { word := "a" }] (by decide)
  refine ⟨p, hp, ?_⟩
  have hruns : Text.Runs " 10.0.0.1/24\t07:30:00 %ipv4% -7 ".toList
      ["10.0.0.1/24".toList, "07:30:00".toList, "%ipv4%".toList, "-7".toList] :=
    Text.runs_iff.mpr (by decide +kernel)
  have haddress : Shape.ipv4.accepts "10.0.0.1".toList = true := by decide +kernel
  have hmasked := Token.Expands.masked haddress (by decide : IsNumber "24".toList)
  have hshape : Shape.ofTokens.find? (·.accepts "07:30:00".toList) = some .timeOfDay := by decide +kernel
  have htime : Token.Expands "07:30:00".toList [{ word := "%time-24hr%", special := true }] := .value hshape
  have hmarked : Token.Expands "%ipv4%".toList [{ word := "%ipv4%", special := true }] := by
    have hmem : "%ipv4%" ∈ Shape.placeholders := Shape.mem_placeholders_iff.mpr ⟨.ipv4, rfl⟩
    have h := Token.Expands.marked (show "%ipv4%".toList.head? = some Shape.marker by decide)
    rwa [String.ofList_toList, decide_eq_true hmem] at h
  have hliteral : Token.Expands "-7".toList [{ word := "-7" }] := Token.expands_iff.mpr (by decide +kernel)
  exact hread _ _ hruns (.cons hmasked (.cons htime (.cons hmarked (.cons hliteral .nil))))

end Source

end LogMining
