import LogMining.Proofs.Shape.Date

/-!
# Scanning dates

Both scanners of dates read a date exactly where a text opens with one, and nothing anywhere else. So the length
that is reported for a place of a text tells whether a date begins there and where it ends, and depends on what
stands there and behind it only.
-/

namespace LogMining

open Text (number)

namespace Text.Scan

variable {text rest : List Char}

theorem noDigit_eq_true_iff : noDigit text = true ↔ NoDigit text := by
  cases text with
  | nil => simp [noDigit, NoDigit]
  | cons c text => simp [noDigit, NoDigit]

theorem spaceOrEnd_eq_true_iff : spaceOrEnd text = true ↔ NumericDate.EndsHere text := by
  rw [NumericDate.EndsHere]
  rcases text with _ | ⟨c, _ | ⟨d, text⟩⟩
  · simp [spaceOrEnd]
  · by_cases hc : c = '\n'
    · simp [spaceOrEnd, hc]
    · simp [spaceOrEnd, hc]
  · simp [spaceOrEnd]

theorem year_eq_some_iff {n : Nat} :
    (do let year ← exactly 4
        char ' '
        return year : Scan Nat) text = some (n, rest) ↔
      ∃ y, text = y ++ ' ' :: rest ∧ IsDigits 4 4 y ∧ number y = n := by
  constructor
  · intro h
    obtain ⟨m, mid, hyear, h⟩ := bind_eq_some_iff.mp h
    obtain ⟨u, mid', hspace, h⟩ := bind_eq_some_iff.mp h
    cases h
    obtain rfl := char_eq_some_iff.mp hspace
    exact exactly_eq_some_iff.mp hyear
  · rintro ⟨y, rfl, hy⟩
    exact bind_eq_some_iff.mpr ⟨n, _, exactly_eq_some_iff.mpr ⟨y, rfl, hy⟩,
      bind_eq_some_iff.mpr ⟨(), rest, char_eq_some_iff.mpr rfl, rfl⟩⟩

end Text.Scan

open Text.Scan (IsDigits IsNumber NoDigit bind_eq_some_iff bind_of_eq_some guard_eq_some_iff guard_of
  char_eq_some_iff char_cons_self exactly_eq_some_iff exactly_append oneOrTwo_eq_some_iff oneOrTwo_append
  optional_eq_some_iff followedBy_eq_some_iff followedBy_of month_eq_some_iff month_append)

namespace Clock

variable {β : Type} {c : Clock} {least : Nat} {field : Text.Scan Nat} {f : Nat → Nat → Nat → Text.Scan β}
  {rest : List Char}

theorem bind_of_isTime
    (hfield : ∀ {digits rest}, IsDigits least 2 digits → NoDigit rest →
      field (digits ++ rest) = some (number digits, rest))
    (hc : c.IsTime least) (hrest : NoDigit rest) :
    (do let hour ← field
        Text.Scan.char ':'
        let minute ← field
        Text.Scan.char ':'
        let second ← field
        f hour minute second) (c.text ++ rest) = f (number c.hour) (number c.minute) (number c.second) rest := by
  have hmark : ∀ text, NoDigit (':' :: text) := Text.Scan.noDigit_cons (by decide)
  rw [text_append, bind_of_eq_some (hfield hc.hour (hmark _)), bind_of_eq_some (char_cons_self ':' _),
    bind_of_eq_some (hfield hc.minute (hmark _)), bind_of_eq_some (char_cons_self ':' _),
    bind_of_eq_some (hfield hc.second hrest)]

end Clock

namespace NamedDate

variable {d : NamedDate} {text line rest left : List Char}

/-- What is left of the rest behind a date, of which a colon is read as well. -/
def withoutColon (rest : List Char) : List Char := if rest.head? = some ':' then rest.tail else rest

def size (d : NamedDate) (rest : List Char) : Nat := d.text.length + if rest.head? = some ':' then 1 else 0

theorem optional_padding (padded : Bool) (h : ' ' ∉ rest.head?) :
    ∃ o, Text.Scan.optional (Text.Scan.char ' ') (padding padded ++ rest) = some (o, rest) := by
  obtain ⟨o, hread⟩ := Text.Scan.optional_char ' ' (padding padded ++ rest)
  refine ⟨o, ?_⟩
  rw [hread]
  cases padded with
  | true => rfl
  | false =>
      have hhead : rest.head? ≠ some ' ' := h
      rw [padding, if_neg Bool.false_ne_true, List.nil_append, if_neg hhead]

theorem optional_year {year : Option (List Char)} {c : Clock} (hyear : ∀ y ∈ year, IsDigits 4 4 y)
    (hc : c.IsTime 1) (rest : List Char) :
    Text.Scan.optional (do
      let year ← Text.Scan.exactly 4
      Text.Scan.char ' '
      return year) (yearText year ++ (c.text ++ rest)) = some (year.map number, c.text ++ rest) := by
  rw [optional_eq_some_iff]
  cases year with
  | some y =>
      refine .inl ⟨number y, rfl, Text.Scan.year_eq_some_iff.mpr ⟨y, ?_, hyear y rfl, rfl⟩⟩
      simp [yearText]
  | none =>
      refine .inr ⟨rfl, rfl, Option.eq_none_iff_forall_ne_some.mpr ?_⟩
      rintro ⟨n, left⟩ hread
      obtain ⟨y, heq, hy, -⟩ := Text.Scan.year_eq_some_iff.mp hread
      rw [yearText, Option.elim, List.nil_append, Clock.text_append] at heq
      -- The digits of the hour end at a colon, those of a year at a space.
      obtain ⟨-, hends⟩ := Text.Scan.digits_append_inj hc.hour.2.2 hy.2.2
        (Text.Scan.noDigit_cons (by decide) _) (Text.Scan.noDigit_cons (by decide) _) heq
      cases hends

/-- A date is read where a text opens with it. -/
theorem rfc3164_of_opens (h : d.Opens line rest) : Text.Scan.rfc3164 line = some ((), withoutColon rest) := by
  have hspace : ∀ text, NoDigit (' ' :: text) := Text.Scan.noDigit_cons (by decide)
  obtain ⟨hmonth, hday, hdayRange, hyear, hclock⟩ := h.isDate
  obtain ⟨o, hpadding⟩ := optional_padding d.padded
    (not_mem_head?_day h.isDate (' ' :: (yearText d.year ++ (d.clock.text ++ rest))))
  obtain ⟨o', hcolon⟩ := Text.Scan.optional_char ':' rest
  have hyears := optional_year (fun y hy => (hyear y hy).1) hclock rest
  rw [h.eq_append, text_append, Text.Scan.rfc3164,
    bind_of_eq_some (month_append hmonth _), bind_of_eq_some (char_cons_self ' ' _), bind_of_eq_some hpadding,
    bind_of_eq_some (oneOrTwo_append hday (hspace _)), bind_of_eq_some (char_cons_self ' ' _),
    bind_of_eq_some hyears, Clock.bind_of_isTime oneOrTwo_append hclock h.noDigit,
    bind_of_eq_some (followedBy_of (Text.Scan.noDigit_eq_true_iff.mpr h.noDigit)), bind_of_eq_some hcolon,
    bind_of_eq_some (guard_of hdayRange _), bind_of_eq_some (guard_of ?years _)]
  case years =>
    intro n hn
    obtain ⟨y, hy, rfl⟩ := Option.mem_map.mp hn
    exact (hyear y hy).2
  exact guard_of ⟨hclock.hour_le, hclock.minute_le, hclock.second_le⟩ _

theorem exists_padding {o : Option Unit} (h : Text.Scan.optional (Text.Scan.char ' ') text = some (o, rest)) :
    ∃ padded, text = padding padded ++ rest := by
  obtain ⟨u, -, hspace⟩ | ⟨-, rfl, -⟩ := optional_eq_some_iff.mp h
  · exact ⟨true, char_eq_some_iff.mp hspace⟩
  · exact ⟨false, rfl⟩

theorem exists_year {o : Option Nat}
    (h : Text.Scan.optional (do
      let year ← Text.Scan.exactly 4
      Text.Scan.char ' '
      return year) text = some (o, rest)) :
    ∃ year, text = yearText year ++ rest ∧ (∀ y ∈ year, IsDigits 4 4 y) ∧ year.map number = o := by
  obtain ⟨n, rfl, hread⟩ | ⟨rfl, rfl, -⟩ := optional_eq_some_iff.mp h
  · obtain ⟨y, rfl, hy, rfl⟩ := Text.Scan.year_eq_some_iff.mp hread
    exact ⟨some y, by simp [yearText], by simpa using hy, rfl⟩
  · exact ⟨none, rfl, by simp, rfl⟩

theorem exists_opens_of_rfc3164 {u : Unit} (h : Text.Scan.rfc3164 line = some (u, left)) :
    ∃ d rest, Opens d line rest ∧ left = withoutColon rest := by
  simp only [Text.Scan.rfc3164, bind_eq_some_iff, month_eq_some_iff, char_eq_some_iff, oneOrTwo_eq_some_iff,
    followedBy_eq_some_iff, guard_eq_some_iff, Text.Scan.noDigit_eq_true_iff] at h
  -- The fields are taken off one after the other; where one may be missing, the text is split by cases.
  obtain ⟨_, _, ⟨month, rfl, hmonth⟩, _, _, rfl, _, _, hpadding, h⟩ := h
  obtain ⟨padded, rfl⟩ := exists_padding hpadding
  obtain ⟨_, _, ⟨day, rfl, hday, -, rfl⟩, _, _, rfl, _, _, hyear, h⟩ := h
  obtain ⟨year, rfl, hyearDigits, rfl⟩ := exists_year hyear
  obtain ⟨_, _, ⟨hour, rfl, hhour, -, rfl⟩, _, _, rfl, _, _, ⟨minute, rfl, hminute, -, rfl⟩, _, _, rfl,
    _, _, ⟨second, rfl, hsecond, -, rfl⟩, h⟩ := h
  -- What follows is looked at next, and the ranges last of all.
  obtain ⟨_, rest, ⟨hends, rfl⟩, _, _, hcolon, _, _, ⟨hdayRange, rfl⟩, _, _, ⟨hyearRange, rfl⟩, hclockRange, rfl⟩ := h
  obtain ⟨_, hcolon'⟩ := Text.Scan.optional_char ':' rest
  cases hcolon.symm.trans hcolon'
  obtain ⟨hhourLe, hminuteLe, hsecondLe⟩ := hclockRange
  refine ⟨⟨month, padded, day, year, ⟨hour, minute, second⟩⟩, rest, ⟨⟨hmonth, hday, hdayRange, ?_,
    ⟨hhour, hhourLe, hminute, hminuteLe, hsecond, hsecondLe⟩⟩, ?_, hends⟩, rfl⟩
  · intro y hy
    exact ⟨hyearDigits y hy, hyearRange (number y) (Option.mem_map_of_mem number hy)⟩
  · rw [text_append, Clock.text_append]

end NamedDate

namespace Zone

variable {z : Zone} {text rest : List Char}

def offset? : Zone → Option (Nat × Nat)
  | universal => none
  | offset _ hour minute => some (number hour, number minute)

theorem offset?_range (h : z.IsZone) : ∀ v ∈ z.offset?, v.1 ≤ 23 ∧ v.2 ≤ 59 := by
  cases z with
  | universal => rintro _ ⟨⟩
  | offset sign hour minute =>
      rintro _ ⟨⟩
      exact ⟨h.2.2.1, h.2.2.2.2⟩

theorem zone_cons_of_sign {sign : Char} (h : sign = '+' ∨ sign = '-') (text : List Char) :
    Text.Scan.zone (sign :: text) =
      (do let hour ← Text.Scan.exactly 2
          Text.Scan.char ':'
          let minute ← Text.Scan.exactly 2
          return some (hour, minute) : Text.Scan (Option (Nat × Nat))) text := by
  rcases h with rfl | rfl <;> rfl

theorem zone_of_isZone (h : z.IsZone) (rest : List Char) :
    Text.Scan.zone (z.text ++ rest) = some (z.offset?, rest) := by
  cases z with
  | universal => rfl
  | offset sign hour minute =>
      obtain ⟨hsign, hhour, -, hminute, -⟩ := h
      simp only [text, List.cons_append, List.append_assoc]
      rw [zone_cons_of_sign hsign, bind_of_eq_some (exactly_append hhour _), bind_of_eq_some (char_cons_self ':' _),
        bind_of_eq_some (exactly_append hminute rest)]
      rfl

theorem exists_of_zone {o : Option (Nat × Nat)} (h : Text.Scan.zone text = some (o, rest)) :
    ∃ z : Zone, text = z.text ++ rest ∧ z.offset? = o ∧ ((∀ v ∈ o, v.1 ≤ 23 ∧ v.2 ≤ 59) → z.IsZone) := by
  rw [Text.Scan.zone.eq_def] at h
  split at h
  · cases h
    exact ⟨universal, rfl, rfl, fun _ => trivial⟩
  · next c left _ =>
    split at h
    · next hsign =>
      simp only [bind_eq_some_iff, exactly_eq_some_iff, char_eq_some_iff] at h
      obtain ⟨_, _, ⟨hour, rfl, hhour, rfl⟩, _, _, rfl, _, _, ⟨minute, rfl, hminute, rfl⟩, hpure⟩ := h
      cases hpure
      refine ⟨offset c hour minute, by simp [Zone.text], rfl, fun hrange => ?_⟩
      obtain ⟨hhourLe, hminuteLe⟩ := hrange _ rfl
      exact ⟨hsign, hhour, hhourLe, hminute, hminuteLe⟩
    · cases h
  · cases h

end Zone

namespace NumericDate

variable {d : NumericDate} {text line rest : List Char}

theorem optional_fraction {fraction : Option (List Char)} {z : Zone} (hf : ∀ f ∈ fraction, IsNumber f)
    (hz : z.IsZone) (rest : List Char) :
    Text.Scan.optional (do
      Text.Scan.char '.'
      Text.Scan.digitRun) (fractionText fraction ++ (z.text ++ rest)) = some (fraction, z.text ++ rest) := by
  rw [optional_eq_some_iff]
  cases fraction with
  | some f =>
      refine .inl ⟨f, rfl, bind_eq_some_iff.mpr ⟨(), f ++ (z.text ++ rest), char_cons_self '.' _, ?_⟩⟩
      exact Text.Scan.digitRun_eq_some_iff.mpr ⟨rfl, hf f rfl, Zone.noDigit_append hz rest⟩
  | none =>
      refine .inr ⟨rfl, rfl, Option.eq_none_iff_forall_ne_some.mpr ?_⟩
      rintro ⟨f, left⟩ hread
      obtain ⟨_, _, hpoint, -⟩ := bind_eq_some_iff.mp hread
      exact Zone.append_ne_point hz rest (char_eq_some_iff.mp hpoint)

theorem fraction_of_optional {o : Option (List Char)}
    (h : Text.Scan.optional (do
      Text.Scan.char '.'
      Text.Scan.digitRun) text = some (o, rest)) :
    text = fractionText o ++ rest ∧ ∀ f ∈ o, IsNumber f := by
  obtain ⟨f, rfl, hread⟩ | ⟨rfl, rfl, -⟩ := optional_eq_some_iff.mp h
  · simp only [bind_eq_some_iff, char_eq_some_iff, Text.Scan.digitRun_eq_some_iff] at hread
    obtain ⟨_, _, rfl, rfl, hf, -⟩ := hread
    exact ⟨rfl, by simpa using hf⟩
  · exact ⟨rfl, by simp⟩

theorem rfc5424_of_opens (h : d.Opens line rest) : Text.Scan.rfc5424 line = some ((), rest) := by
  obtain ⟨hyear, hmonth, hmonthRange, hday, hdayRange, hclock, hfraction, hzone⟩ := h.isDate
  have hmark : NoDigit (fractionText d.fraction ++ (d.zone.text ++ rest)) :=
    noDigit_fractionText (Zone.noDigit_append hzone rest)
  rw [h.eq_append, text_append, Text.Scan.rfc5424, bind_of_eq_some (exactly_append hyear _),
    bind_of_eq_some (char_cons_self '-' _), bind_of_eq_some (exactly_append hmonth _),
    bind_of_eq_some (char_cons_self '-' _), bind_of_eq_some (exactly_append hday _),
    bind_of_eq_some (char_cons_self 'T' _),
    Clock.bind_of_isTime (fun hdigits _ => exactly_append hdigits _) hclock hmark,
    bind_of_eq_some (optional_fraction hfraction hzone rest), bind_of_eq_some (Zone.zone_of_isZone hzone rest),
    bind_of_eq_some (followedBy_of (Text.Scan.spaceOrEnd_eq_true_iff.mpr h.endsHere)),
    bind_of_eq_some (guard_of ⟨hmonthRange.1, hmonthRange.2, hdayRange⟩ _),
    bind_of_eq_some (guard_of ⟨hclock.hour_le, hclock.minute_le, hclock.second_le⟩ _)]
  exact guard_of (Zone.offset?_range hzone) _

/-- Where a date is read, the text opens with it. -/
theorem exists_opens_of_rfc5424 {u : Unit} (h : Text.Scan.rfc5424 line = some (u, rest)) :
    ∃ d, Opens d line rest := by
  simp only [Text.Scan.rfc5424, bind_eq_some_iff, char_eq_some_iff, exactly_eq_some_iff, followedBy_eq_some_iff,
    guard_eq_some_iff, Text.Scan.spaceOrEnd_eq_true_iff] at h
  obtain ⟨_, _, ⟨year, rfl, hyear, -⟩, _, _, rfl, _, _, ⟨month, rfl, hmonth, rfl⟩, _, _, rfl,
    _, _, ⟨day, rfl, hday, rfl⟩, _, _, rfl, h⟩ := h
  obtain ⟨_, _, ⟨hour, rfl, hhour, rfl⟩, _, _, rfl, _, _, ⟨minute, rfl, hminute, rfl⟩, _, _, rfl,
    _, _, ⟨second, rfl, hsecond, rfl⟩, h⟩ := h
  obtain ⟨fraction, _, hread, h⟩ := h
  obtain ⟨rfl, hfraction⟩ := fraction_of_optional hread
  obtain ⟨_, _, hread, h⟩ := h
  obtain ⟨z, rfl, rfl, hzone⟩ := Zone.exists_of_zone hread
  obtain ⟨_, _, ⟨hends, rfl⟩, _, _, ⟨⟨hmonthLeast, hmonthMost, hdayRange⟩, rfl⟩, _, _,
    ⟨⟨hhourLe, hminuteLe, hsecondLe⟩, rfl⟩, hzoneRange, rfl⟩ := h
  refine ⟨⟨year, month, day, ⟨hour, minute, second⟩, fraction, z⟩, ⟨hyear, hmonth, ⟨hmonthLeast, hmonthMost⟩,
    hday, hdayRange, ⟨hhour, hhourLe, hminute, hminuteLe, hsecond, hsecondLe⟩, hfraction, hzone hzoneRange⟩,
    ?_, hends⟩
  rw [text_append, Clock.text_append]

end NumericDate

/-- The length reported for a text is that of the value with which the text opens, and zero if there is none. Of
such values there is one at most. -/
structure Measures {δ : Type} (Opens : δ → List Char → List Char → Prop) (size : δ → List Char → Nat)
    (text : List Char) (n : Int) : Prop where
  nonneg : 0 ≤ n
  pos_iff : 0 < n ↔ ∃ d rest, Opens d text rest
  eq_size : ∀ d rest, Opens d text rest → n = size d rest
  unique : ∀ d rest d' rest', Opens d text rest → Opens d' text rest' → d = d' ∧ rest = rest'

namespace Shape

variable {shape : Shape} {line left : List Char}

theorem length?_of_scan (shape : Shape) (h : shape.scan line = some ((), left)) :
    shape.length? line = some (line.length - left.length) := by
  rw [length?, Text.Scan.length?, h]
  rfl

theorem exists_scan_of_length? {n : Nat} (h : shape.length? line = some n) :
    ∃ left, shape.scan line = some ((), left) := by
  rw [length?, Text.Scan.length?, Option.map_eq_some_iff] at h
  obtain ⟨⟨_, left⟩, hscan, -⟩ := h
  exact ⟨left, hscan⟩

theorem length?_le {n : Nat} (h : shape.length? line = some n) : n ≤ line.length := by
  rw [length?, Text.Scan.length?, Option.map_eq_some_iff] at h
  obtain ⟨⟨_, left⟩, -, rfl⟩ := h
  exact Nat.sub_le _ _

theorem consumed_of_le {text : String} {start : Nat} (h : start ≤ text.length) (shape : Shape) :
    shape.consumed text start = ((shape.length? (text.toList.drop start)).getD 0 : Nat) := by
  rw [consumed, Int.toNat_natCast, Nat.min_eq_left h]
  split
  · next n hlength =>
    rw [hlength, Option.getD_some]
    omega
  · next hlength =>
    rw [hlength]
    rfl

/-- A scanner that reads a value exactly where a text opens with one measures the values. -/
theorem measures_of_length? {δ : Type} {Opens : δ → List Char → List Char → Prop} {size : δ → List Char → Nat}
    (hread : ∀ {d rest}, Opens d line rest → shape.length? line = some (size d rest))
    (hopens : ∀ {n}, shape.length? line = some n → ∃ d rest, Opens d line rest)
    (hpos : ∀ d rest, 0 < size d rest)
    (hunique : ∀ {d d' rest rest'}, Opens d line rest → Opens d' line rest' → d = d' ∧ rest = rest') :
    Measures Opens size line ((shape.length? line).getD 0 : Nat) where
  nonneg := Int.natCast_nonneg _
  pos_iff := by
    constructor
    · intro h
      cases hlength : shape.length? line with
      | none =>
          rw [hlength] at h
          exact absurd h (Int.lt_irrefl 0)
      | some n => exact hopens hlength
    · rintro ⟨d, rest, h⟩
      rw [hread h, Option.getD_some]
      exact Int.natCast_pos.mpr (hpos d rest)
  eq_size d rest h := by rw [hread h, Option.getD_some]
  unique _ _ _ _ h h' := hunique h h'

end Shape

namespace NamedDate

variable {d : NamedDate} {line rest : List Char}

theorem size_pos (d : NamedDate) (rest : List Char) : 0 < d.size rest :=
  Nat.add_pos_left (List.length_pos_of_mem (List.mem_append_right d.month List.mem_cons_self)) _

theorem length?_of_opens (h : d.Opens line rest) : Shape.rfc3164.length? line = some (d.size rest) := by
  rw [Shape.length?_of_scan .rfc3164 (rfc3164_of_opens h), h.eq_append, List.length_append, size, withoutColon]
  cases rest with
  | nil => simp
  | cons c rest =>
      split
      · simp
        omega
      · simp

theorem exists_opens_of_length? {n : Nat} (h : Shape.rfc3164.length? line = some n) :
    ∃ d rest, Opens d line rest := by
  obtain ⟨left, hscan⟩ := Shape.exists_scan_of_length? h
  obtain ⟨d, rest, hopens, -⟩ := exists_opens_of_rfc3164 hscan
  exact ⟨d, rest, hopens⟩

end NamedDate

namespace NumericDate

variable {d : NumericDate} {line rest : List Char}

theorem length_text_pos (d : NumericDate) : 0 < d.text.length :=
  List.length_pos_of_mem (List.mem_append_right d.year List.mem_cons_self)

theorem length?_of_opens (h : d.Opens line rest) : Shape.rfc5424.length? line = some d.text.length := by
  rw [Shape.length?_of_scan .rfc5424 (rfc5424_of_opens h), h.eq_append, List.length_append, Nat.add_sub_cancel]

theorem exists_opens_of_length? {n : Nat} (h : Shape.rfc5424.length? line = some n) :
    ∃ d rest, Opens d line rest := by
  obtain ⟨rest, hscan⟩ := Shape.exists_scan_of_length? h
  obtain ⟨d, hopens⟩ := exists_opens_of_rfc5424 hscan
  exact ⟨d, rest, hopens⟩

end NumericDate

/-- At every place of a text, the two shapes of dates tell whether a date begins there and how far it goes, and they
see nothing of what stands before. -/
theorem Shape.measures_dates {text : String} {start : Nat} (h : start ≤ text.length) :
    Measures NamedDate.Opens NamedDate.size (text.toList.drop start) (rfc3164.consumed text start) ∧
      Measures NumericDate.Opens (fun d _ => d.text.length) (text.toList.drop start)
        (rfc5424.consumed text start) ∧
      ∀ (text' : String) (start' : Nat), start' ≤ text'.length →
        text'.toList.drop start' = text.toList.drop start →
        ∀ shape : Shape, shape.consumed text' start' = shape.consumed text start := by
  refine ⟨?named, ?numeric, ?place⟩
  case named =>
    rw [consumed_of_le h]
    exact measures_of_length? NamedDate.length?_of_opens NamedDate.exists_opens_of_length? NamedDate.size_pos
      NamedDate.Opens.unique
  case numeric =>
    rw [consumed_of_le h]
    exact measures_of_length? NumericDate.length?_of_opens NumericDate.exists_opens_of_length?
      (fun d _ => d.length_text_pos) NumericDate.Opens.unique
  case place =>
    intro text' start' h' heq shape
    rw [consumed_of_le h', consumed_of_le h, heq]

/-- A colon is read with the first date, and the space behind the second one is not. -/
theorem Shape.measures_dates_of_two_lines :
    Shape.rfc3164.consumed "<13>oCt  1 22:14:60: up" 4 = 16 ∧
      Shape.rfc5424.consumed "at 2003-10-11T22:14:15.003-07:00 up" 3 = 29 := by
  have hnamed := (@measures_dates "<13>oCt  1 22:14:60: up" 4 (by decide)).1
  have hnumeric := (@measures_dates "at 2003-10-11T22:14:15.003-07:00 up" 3 (by decide)).2.1
  constructor
  · exact hnamed.eq_size
      ⟨['o', 'C', 't'], true, ['1'], none, ⟨['2', '2'], ['1', '4'], ['6', '0']⟩⟩ ": up".toList (by decide)
  · exact hnumeric.eq_size
      ⟨['2', '0', '0', '3'], ['1', '0'], ['1', '1'], ⟨['2', '2'], ['1', '4'], ['1', '5']⟩,
        some ['0', '0', '3'], .offset '-' ['0', '7'] ['0', '0']⟩ " up".toList (by decide)

end LogMining
