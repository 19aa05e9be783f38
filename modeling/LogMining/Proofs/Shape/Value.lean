import LogMining.Proofs.Shape.Date
import LogMining.Proofs.Shape.Masked
import LogMining.Token.Basic
import Mathlib.Data.List.Perm.Basic

/-!
# Values within one word

`Shape.Value` tells how the values within one word are written. A word is accepted as a value of a shape exactly if
it is written so. Since the shapes differ in the signs between their digits, no word is a value of two shapes, but
for the times of day, which are durations as well. So it matters for these two only which shape is tried first.
-/

namespace LogMining

open Text (number)
open Text.Scan (IsAddress IsDigits IsNumber IsOctet)

namespace Text.Scan

variable {text rest : List Char} {u : Unit}

theorem timeOfDay_eq_some_iff :
    timeOfDay text = some (u, rest) ↔
      ∃ c : Clock, text = c.text ++ rest ∧ c.IsTime 2 ∧ number c.second ≤ 59 := by
  simp only [timeOfDay, bind_eq_some_iff, exactly_eq_some_iff, char_eq_some_iff, guard_eq_some_iff]
  constructor
  · rintro ⟨_, _, ⟨hour, rfl, hhour, rfl⟩, _, _, rfl, _, _, ⟨minute, rfl, hminute, rfl⟩, _, _, rfl,
      _, _, ⟨second, rfl, hsecond, rfl⟩, ⟨hhour_le, hminute_le, hsecond_le⟩, rfl⟩
    exact ⟨⟨hour, minute, second⟩, (Clock.text_append ⟨hour, minute, second⟩ rest).symm,
      ⟨hhour, hhour_le, hminute, hminute_le, hsecond, hsecond_le.trans (by decide)⟩, hsecond_le⟩
  · rintro ⟨c, rfl, h, hsecond_le⟩
    rw [Clock.text_append]
    exact ⟨_, _, ⟨c.hour, rfl, h.hour, rfl⟩, (), _, rfl, _, _, ⟨c.minute, rfl, h.minute, rfl⟩, (), _, rfl,
      _, _, ⟨c.second, rfl, h.second, rfl⟩, ⟨h.hour_le, h.minute_le, hsecond_le⟩, rfl⟩

end Text.Scan

/-- A time that has been measured: any number of hours, then a minute and a second of two digits each. -/
structure Clock.IsDuration (c : Clock) : Prop where
  hour : IsNumber c.hour
  minute : IsDigits 2 2 c.minute
  minute_le : number c.minute ≤ 59
  second : IsDigits 2 2 c.second
  second_le : number c.second ≤ 59

theorem Text.Scan.duration_eq_some_iff {text rest : List Char} {u : Unit} :
    duration text = some (u, rest) ↔ ∃ c : Clock, text = c.text ++ rest ∧ c.IsDuration := by
  simp only [duration, bind_eq_some_iff, digitRun_eq_some_iff, exactly_eq_some_iff, char_eq_some_iff,
    guard_eq_some_iff]
  constructor
  · rintro ⟨hour, _, ⟨rfl, hhour, -⟩, _, _, rfl, _, _, ⟨minute, rfl, hminute, rfl⟩, _, _, rfl,
      _, _, ⟨second, rfl, hsecond, rfl⟩, ⟨hminute_le, hsecond_le⟩, rfl⟩
    exact ⟨⟨hour, minute, second⟩, (Clock.text_append ⟨hour, minute, second⟩ rest).symm,
      ⟨hhour, hminute, hminute_le, hsecond, hsecond_le⟩⟩
  · rintro ⟨c, rfl, h⟩
    rw [Clock.text_append]
    exact ⟨c.hour, _, ⟨rfl, h.hour, noDigit_cons (by decide) _⟩, (), _, rfl, _, _,
      ⟨c.minute, rfl, h.minute, rfl⟩, (), _, rfl, _, _, ⟨c.second, rfl, h.second, rfl⟩,
      ⟨h.minute_le, h.second_le⟩, rfl⟩

namespace Shape

/-- How the values within one word are written. Dates are no such values. -/
inductive Value : Shape → List Char → Prop
  /-- One or more digits. -/
  | integer {digits : List Char} (h : IsNumber digits) : Value integer digits
  /-- Hour, minute and second of two digits each, and no leap second. -/
  | timeOfDay {c : Clock} (h : c.IsTime 2) (hsecond : number c.second ≤ 59) : Value timeOfDay c.text
  /-- Any number of hours, then minute and second of two digits each. -/
  | duration {c : Clock} (h : c.IsDuration) : Value duration c.text
  /-- Four numbers up to 255, of one to three digits each, with dots between them. -/
  | ipv4 {a b c d : List Char} (ha : IsOctet a) (hb : IsOctet b) (hc : IsOctet c) (hd : IsOctet d) :
      Value ipv4 (a ++ '.' :: (b ++ '.' :: (c ++ '.' :: d)))

variable {shape shape' : Shape} {word : List Char} {order : List Shape}

theorem accepts_ipv4_iff : ipv4.accepts word = true ↔ IsAddress word := by
  rw [accepts_iff (by decide)]
  refine Text.Scan.ipv4_eq_some_iff.trans ⟨?_, ?_⟩
  · rintro ⟨address, hword, haddress, -⟩
    rwa [hword, List.append_nil]
  · intro haddress
    exact ⟨word, (List.append_nil word).symm, haddress, Text.Scan.noDigit_nil⟩

theorem accepts_iff_value (h : shape ∈ ofTokens) : shape.accepts word = true ↔ Value shape word := by
  simp only [ofTokens, List.mem_cons, List.not_mem_nil, or_false] at h
  rcases h with rfl | rfl | rfl | rfl
  · rw [accepts_iff (by decide)]
    refine Text.Scan.integer_eq_some_iff.trans ⟨?_, ?_⟩
    · rintro ⟨digits, rfl, hdigits, -⟩
      rw [List.append_nil]
      exact .integer hdigits
    · rintro (hdigits | _)
      exact ⟨word, (List.append_nil word).symm, hdigits, Text.Scan.noDigit_nil⟩
  · rw [accepts_iff (by decide)]
    refine Text.Scan.timeOfDay_eq_some_iff.trans ⟨?_, ?_⟩
    · rintro ⟨c, rfl, hc, hsecond⟩
      rw [List.append_nil]
      exact .timeOfDay hc hsecond
    · rintro (_ | ⟨hc, hsecond⟩)
      exact ⟨_, (List.append_nil _).symm, hc, hsecond⟩
  · rw [accepts_iff (by decide)]
    refine Text.Scan.duration_eq_some_iff.trans ⟨?_, ?_⟩
    · rintro ⟨c, rfl, hc⟩
      rw [List.append_nil]
      exact .duration hc
    · rintro (_ | _ | hc)
      exact ⟨_, (List.append_nil _).symm, hc⟩
  · rw [accepts_ipv4_iff]
    constructor
    · rintro ⟨a, b, c, d, ha, hb, hc, hd, rfl⟩
      exact .ipv4 ha hb hc hd
    · rintro (_ | _ | _ | ⟨ha, hb, hc, hd⟩)
      exact ⟨_, _, _, _, ha, hb, hc, hd, rfl⟩

namespace Value

theorem mem_ofTokens (h : Value shape word) : shape ∈ ofTokens := by
  cases h <;> decide

theorem duration_of_timeOfDay (h : Value .timeOfDay word) : Value .duration word := by
  obtain _ | ⟨hc, hsecond⟩ := h
  refine .duration ⟨⟨?_, hc.hour.2.2⟩, hc.minute, hc.minute_le, hc.second, hsecond⟩
  exact List.ne_nil_of_length_pos (Nat.lt_of_lt_of_le Nat.two_pos hc.hour.1)

/-- The signs between the digits of a value tell its shape, up to the number of hours. -/
theorem mem_iff (h : Value shape word) :
    (':' ∈ word ↔ shape = .timeOfDay ∨ shape = .duration) ∧ ('.' ∈ word ↔ shape = .ipv4) := by
  have hcolon : ∀ {digits : List Char}, (∀ c ∈ digits, c.isDigit = true) → ':' ∉ digits :=
    fun hdigits hmem => absurd (hdigits _ hmem) (by decide)
  have hdot : ∀ {digits : List Char}, (∀ c ∈ digits, c.isDigit = true) → '.' ∉ digits :=
    fun hdigits hmem => absurd (hdigits _ hmem) (by decide)
  cases h with
  | integer h => simp [hcolon h.2, hdot h.2]
  | timeOfDay h => simp [Clock.text, hdot h.hour.2.2, hdot h.minute.2.2, hdot h.second.2.2]
  | duration h => simp [Clock.text, hdot h.hour.2, hdot h.minute.2.2, hdot h.second.2.2]
  | ipv4 ha hb hc hd => simp [hcolon ha.1.2, hcolon hb.1.2, hcolon hc.1.2, hcolon hd.1.2]

/-- No word is a value of two shapes, unless it is a time of day and so a duration. -/
theorem eq_or (h : Value shape word) (h' : Value shape' word) :
    shape = shape' ∨ (shape = .timeOfDay ∧ shape' = .duration) ∨
      (shape = .duration ∧ shape' = .timeOfDay) := by
  have hcolon := h.mem_iff.1.symm.trans h'.mem_iff.1
  have hdot := h.mem_iff.2.symm.trans h'.mem_iff.2
  have hmem := h.mem_ofTokens
  have hmem' := h'.mem_ofTokens
  simp only [ofTokens, List.mem_cons, List.not_mem_nil, or_false] at hmem hmem'
  rcases hmem with rfl | rfl | rfl | rfl <;> rcases hmem' with rfl | rfl | rfl | rfl <;>
    simp at hcolon hdot ⊢

end Value

theorem mem_of_pair_sublist {α : Type} {a b : α} {front back : List α} (hne : a ≠ b) (hback : b ∉ back)
    (h : [a, b].Sublist (front ++ b :: back)) : a ∈ front := by
  obtain ⟨first, second, hpair, hfirst, hsecond⟩ := List.sublist_append_iff.mp h
  cases first with
  | cons c first =>
      obtain rfl : a = c := (List.cons.inj hpair).1
      exact hfirst.subset List.mem_cons_self
  | nil =>
      rw [← List.nil_append second, ← hpair] at hsecond
      rcases List.sublist_cons_iff.mp hsecond with hsecond | ⟨more, hmore, -⟩
      · exact absurd (hsecond.subset (by simp)) hback
      · exact absurd (List.cons.inj hmore).1 hne

/-- The shapes of words are tried in some order, times of day before durations. Then the first one that accepts a
word is the one of which it is a value, where times of day are not taken for durations. -/
theorem find?_accepts_eq_some_iff (horder : order.Perm ofTokens)
    (htime : [timeOfDay, duration].Sublist order) :
    order.find? (·.accepts word) = some shape ↔
      Value shape word ∧ (shape = duration → ¬Value timeOfDay word) := by
  have haccepts : ∀ {shape}, shape ∈ order → (shape.accepts word = true ↔ Value shape word) :=
    fun hmem => accepts_iff_value (horder.mem_iff.mp hmem)
  have hfound : ∀ {shape}, order.find? (·.accepts word) = some shape →
      Value shape word ∧ (shape = duration → ¬Value timeOfDay word) := by
    intro shape hfind
    obtain ⟨haccept, front, back, rfl, hfront⟩ := List.find?_eq_some_iff_append.mp hfind
    refine ⟨(haccepts (by simp)).mp haccept, ?_⟩
    rintro rfl hvalue
    have hnodup : (front ++ duration :: back).Nodup := horder.nodup_iff.mpr (by decide)
    have hback : duration ∉ back := (List.nodup_cons.mp (List.nodup_append.mp hnodup).2.1).1
    have hmem := mem_of_pair_sublist (by decide) hback htime
    have hnot := hfront timeOfDay hmem
    rw [(haccepts (List.mem_append_left _ hmem)).mpr hvalue] at hnot
    cases hnot
  refine ⟨hfound, fun ⟨hvalue, hnot⟩ => ?_⟩
  have hmem : shape ∈ order := horder.mem_iff.mpr hvalue.mem_ofTokens
  have hsome : (order.find? (·.accepts word)).isSome = true :=
    List.find?_isSome.mpr ⟨shape, hmem, (haccepts hmem).mpr hvalue⟩
  obtain ⟨found, hfind⟩ := Option.isSome_iff_exists.mp hsome
  obtain ⟨hvalue', hnot'⟩ := hfound hfind
  rcases hvalue.eq_or hvalue' with rfl | ⟨rfl, rfl⟩ | ⟨rfl, rfl⟩
  · exact hfind
  · exact absurd hvalue (hnot' rfl)
  · exact absurd hvalue' (hnot rfl)

theorem placeholder_injective : Function.Injective placeholder := by
  intro shape shape'
  cases shape <;> cases shape' <;> decide

theorem ofWord?_eq_some_iff :
    ofWord? word = some shape ↔ Value shape word ∧ (shape = duration → ¬Value timeOfDay word) :=
  find?_accepts_eq_some_iff (List.Perm.refl _) (by decide)

theorem isSome_ofWord?_iff : (ofWord? word).isSome = true ↔ ∃ shape, Value shape word := by
  rw [ofWord?, List.find?_isSome]
  constructor
  · rintro ⟨shape, hmem, haccepts⟩
    exact ⟨shape, (accepts_iff_value hmem).mp haccepts⟩
  · rintro ⟨shape, hvalue⟩
    exact ⟨shape, hvalue.mem_ofTokens, (accepts_iff_value hvalue.mem_ofTokens).mpr hvalue⟩

theorem find?_accepts_eq_ofWord? (horder : order.Perm ofTokens)
    (htime : [timeOfDay, duration].Sublist order) (word : List Char) :
    order.find? (·.accepts word) = ofWord? word :=
  Option.ext fun _ => (find?_accepts_eq_some_iff horder htime).trans ofWord?_eq_some_iff.symm

theorem exists_accepts_iff (h : shape ∈ ofTokens) (h' : shape' ∈ ofTokens) (hne : shape ≠ shape') :
    (∃ word, shape.accepts word = true ∧ shape'.accepts word = true) ↔
      (shape = timeOfDay ∧ shape' = duration) ∨ (shape = duration ∧ shape' = timeOfDay) := by
  have hmidnight : Value timeOfDay (Clock.text ⟨['0', '0'], ['0', '0'], ['0', '0']⟩) :=
    .timeOfDay (by decide) (by decide)
  simp only [accepts_iff_value h, accepts_iff_value h']
  constructor
  · rintro ⟨word, hvalue, hvalue'⟩
    exact (hvalue.eq_or hvalue').resolve_left hne
  · rintro (⟨rfl, rfl⟩ | ⟨rfl, rfl⟩)
    · exact ⟨_, hmidnight, hmidnight.duration_of_timeOfDay⟩
    · exact ⟨_, hmidnight.duration_of_timeOfDay, hmidnight⟩

end Shape

namespace Token

/-- A token comes to stand for a shape exactly if its word is a value of the shape, where times of day are not taken
for durations. All other tokens stay as they are. Only a time of day is accepted by two shapes, so the shapes can be
tried in any order that has times of day before durations. -/
theorem replaced_iff_value (t : Token) :
    (∀ shape : Shape, t.shaped? = some { t with word := shape.placeholder, special := true } ↔
      Shape.Value shape t.word.toList ∧ (shape = .duration → ¬Shape.Value .timeOfDay t.word.toList)) ∧
    (t.shaped?.isSome = true ↔ ∃ shape, Shape.Value shape t.word.toList) ∧
    ((∀ shape, ¬Shape.Value shape t.word.toList) → t.shaped? = none ∧ t.shaped = t) ∧
    (∀ a ∈ Shape.ofTokens, ∀ b ∈ Shape.ofTokens, a ≠ b →
      ((∃ word, a.accepts word = true ∧ b.accepts word = true) ↔
        (a = .timeOfDay ∧ b = .duration) ∨ (a = .duration ∧ b = .timeOfDay))) ∧
    ∀ order : List Shape, order.Perm Shape.ofTokens → [.timeOfDay, .duration].Sublist order →
      ∀ word, order.find? (·.accepts word) = Shape.ofWord? word := by
  have hsome : t.shaped?.isSome = true ↔ ∃ shape, Shape.Value shape t.word.toList := by
    rw [shaped?, Option.isSome_map, Shape.isSome_ofWord?_iff]
  refine ⟨fun shape => ?_, hsome, fun hnone => ?_, fun a ha b hb => Shape.exists_accepts_iff ha hb,
    fun order => Shape.find?_accepts_eq_ofWord?⟩
  · rw [← Shape.ofWord?_eq_some_iff, shaped?, Option.map_eq_some_iff]
    constructor
    · rintro ⟨found, hfound, heq⟩
      rwa [← Shape.placeholder_injective (congrArg word heq)]
    · intro hshape
      exact ⟨shape, hshape, rfl⟩
  · have hnot : t.shaped? = none := by
      rw [← Option.not_isSome_iff_eq_none, hsome]
      exact not_exists.mpr hnone
    rw [shaped, hnot]
    exact ⟨rfl, rfl⟩

/-- A duration that is no time of day, with the shapes tried in another order. -/
theorem replaced_iff_value_of_short_hour :
    let order : List Shape := [.ipv4, .timeOfDay, .integer, .duration]
    let t : Token := { word := "9:30:00", occurs := 2, subword := true }
    order.Perm Shape.ofTokens ∧ [Shape.timeOfDay, .duration].Sublist order ∧
      (∀ word, order.find? (·.accepts word) = Shape.ofWord? word) ∧
      t.shaped? = some { word := "%duration%", occurs := 2, subword := true, special := true } := by
  intro order t
  have horder : order.Perm Shape.ofTokens := by decide
  have htime : [Shape.timeOfDay, .duration].Sublist order := by decide
  obtain ⟨hshaped, -, -, -, hany⟩ := replaced_iff_value t
  refine ⟨horder, htime, hany order horder htime, (hshaped .duration).mpr ⟨?_, fun _ => ?_⟩⟩
  · exact (Shape.accepts_iff_value (by decide)).mp (by decide +kernel)
  · rw [← Shape.accepts_iff_value (by decide)]
    decide +kernel

end Token

end LogMining
