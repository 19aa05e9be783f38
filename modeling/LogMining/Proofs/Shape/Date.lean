import LogMining.Proofs.Shape.Scan
import LogMining.Proofs.Text.Words
import LogMining.Shape.Match
import Mathlib.Data.List.Forall2

/-!
# How dates are written

A date is written field by field: `NamedDate` and `NumericDate` have the characters of the fields, `text` puts
them together and `IsDate` says what each of them may be. A text opens with a date in one way only, since every
field ends where its digits do. So a scanner has nothing to choose from, and reads a date wherever there is one.
-/

namespace LogMining

open Text (number)
open Text.Scan (IsDigits IsNumber NoDigit)

namespace Text.Scan

variable {digits digits' rest rest' : List Char}

theorem digits_append_inj (h : ∀ c ∈ digits, c.isDigit = true) (h' : ∀ c ∈ digits', c.isDigit = true)
    (hrest : NoDigit rest) (hrest' : NoDigit rest') (heq : digits ++ rest = digits' ++ rest') :
    digits = digits' ∧ rest = rest' :=
  append_inj_of_run h h' hrest hrest' heq

/-- A character is a letter, where case is ignored and the long s counts as an s. -/
def StandsFor (letter c : Char) : Prop := c.toLower = letter ∨ letter = 's' ∧ c = '\u017f'

instance (letter c : Char) : Decidable (StandsFor letter c) := instDecidableOr

/-- The name of a month, whatever the case of its letters. -/
def IsMonth (name : List Char) : Prop := ∃ month ∈ monthNames, List.Forall₂ StandsFor month.toList name

instance : DecidablePred IsMonth := fun _ => List.decidableBEx ..

theorem foldCase_eq_iff {c letter : Char} (h : letter ≠ '\u017f') :
    foldCase c = letter ↔ StandsFor letter c := by
  rw [foldCase, StandsFor]
  split
  · next hc =>
    subst hc
    have hlower : Char.toLower '\u017f' = '\u017f' := by decide
    rw [hlower]
    exact ⟨fun hs => .inr ⟨hs.symm, rfl⟩, fun hs => hs.elim (fun heq => absurd heq.symm h) fun hs => hs.1.symm⟩
  · next hc => simp [hc]

theorem map_foldCase_eq_iff {letters name : List Char} (h : '\u017f' ∉ letters) :
    name.map foldCase = letters ↔ List.Forall₂ StandsFor letters name := by
  induction name generalizing letters with
  | nil => rw [List.map_nil, List.forall₂_nil_right_iff, eq_comm]
  | cons c name ih =>
      cases letters with
      | nil => simp
      | cons letter letters =>
          rw [List.mem_cons, not_or] at h
          rw [List.map_cons, List.cons.injEq, foldCase_eq_iff (Ne.symm h.1), ih h.2, List.forall₂_cons]

theorem length_monthNames : ∀ month ∈ monthNames, month.toList.length = 3 ∧ '\u017f' ∉ month.toList := by
  decide

theorem IsMonth.length_eq {name : List Char} (h : IsMonth name) : name.length = 3 := by
  obtain ⟨month, hmonth, hname⟩ := h
  rw [← hname.length_eq, (length_monthNames month hmonth).1]

theorem month_eq_some_iff {text : List Char} {u : Unit} :
    month text = some (u, rest) ↔ ∃ name, text = name ++ rest ∧ IsMonth name := by
  have hnames : ∀ letters : List Char, String.ofList (letters.map foldCase) ∈ monthNames ↔ IsMonth letters := by
    intro letters
    constructor
    · intro h
      refine ⟨_, h, (map_foldCase_eq_iff (length_monthNames _ h).2).mp ?_⟩
      rw [String.toList_ofList]
    · rintro ⟨month, hmonth, hname⟩
      rwa [(map_foldCase_eq_iff (length_monthNames month hmonth).2).mpr hname, String.ofList_toList]
  rw [month]
  constructor
  · intro h
    split at h
    · next hmonth =>
      cases h
      exact ⟨text.take 3, (List.take_append_drop 3 text).symm, (hnames _).mp hmonth⟩
    · cases h
  · rintro ⟨name, rfl, hname⟩
    rw [List.take_left' hname.length_eq, List.drop_left' hname.length_eq, if_pos ((hnames name).mpr hname)]

theorem month_append {name : List Char} (h : IsMonth name) (rest : List Char) :
    month (name ++ rest) = some ((), rest) :=
  month_eq_some_iff.mpr ⟨name, rfl, h⟩

end Text.Scan

@[ext]
structure Clock where
  hour : List Char
  minute : List Char
  second : List Char

namespace Clock

def text (c : Clock) : List Char := c.hour ++ ':' :: (c.minute ++ ':' :: c.second)

/-- A time of day, which may be a leap second. Its fields have two digits, or as few as are asked for. -/
@[mk_iff isTime_iff]
structure IsTime (least : Nat) (c : Clock) : Prop where
  hour : IsDigits least 2 c.hour
  hour_le : number c.hour ≤ 23
  minute : IsDigits least 2 c.minute
  minute_le : number c.minute ≤ 59
  second : IsDigits least 2 c.second
  second_le : number c.second ≤ 60

instance (least : Nat) : DecidablePred (IsTime least) := fun c => decidable_of_iff' _ (isTime_iff least c)

variable {c c' : Clock} {least least' : Nat} {rest rest' : List Char}

theorem text_append (c : Clock) (rest : List Char) :
    c.text ++ rest = c.hour ++ ':' :: (c.minute ++ ':' :: (c.second ++ rest)) := by
  simp [text]

theorem IsTime.append_inj (h : c.IsTime least) (h' : c'.IsTime least') (hrest : NoDigit rest)
    (hrest' : NoDigit rest') (heq : c.text ++ rest = c'.text ++ rest') : c = c' ∧ rest = rest' := by
  have hcolon : ∀ text, NoDigit (':' :: text) := Text.Scan.noDigit_cons (by decide)
  rw [text_append, text_append] at heq
  obtain ⟨hhour, hleft⟩ := Text.Scan.digits_append_inj h.hour.2.2 h'.hour.2.2 (hcolon _) (hcolon _) heq
  obtain ⟨hminute, hleft⟩ := Text.Scan.digits_append_inj h.minute.2.2 h'.minute.2.2 (hcolon _) (hcolon _)
    (List.cons.inj hleft).2
  obtain ⟨hsecond, hend⟩ := Text.Scan.digits_append_inj h.second.2.2 h'.second.2.2 hrest hrest'
    (List.cons.inj hleft).2
  exact ⟨Clock.ext hhour hminute hsecond, hend⟩

end Clock

/-- A date with the name of the month as it is written. -/
@[ext]
structure NamedDate where
  month : List Char
  /-- A second space stands before the day. -/
  padded : Bool
  day : List Char
  year : Option (List Char)
  clock : Clock

namespace NamedDate

def padding (padded : Bool) : List Char := if padded then [' '] else []

def yearText (year : Option (List Char)) : List Char := year.elim [] (· ++ [' '])

def text (d : NamedDate) : List Char :=
  d.month ++ ' ' :: (padding d.padded ++ (d.day ++ ' ' :: (yearText d.year ++ d.clock.text)))

/-- The fields are those of a date. -/
@[mk_iff isDate_iff]
structure IsDate (d : NamedDate) : Prop where
  month : Text.Scan.IsMonth d.month
  day : IsDigits 1 2 d.day
  day_range : 1 ≤ number d.day ∧ number d.day ≤ 31
  year : ∀ y ∈ d.year, IsDigits 4 4 y ∧ 1967 ≤ number y ∧ number y ≤ 2099
  clock : d.clock.IsTime 1

instance : DecidablePred IsDate := fun d => decidable_of_iff' _ (isDate_iff d)

/-- A text opens with a date, no digit behind it, and has a rest. -/
@[mk_iff opens_iff]
structure Opens (d : NamedDate) (line rest : List Char) : Prop where
  isDate : d.IsDate
  eq_append : line = d.text ++ rest
  noDigit : NoDigit rest

instance (d : NamedDate) (line rest : List Char) : Decidable (d.Opens line rest) :=
  decidable_of_iff' _ (opens_iff d line rest)

variable {d d' : NamedDate} {line rest rest' : List Char}

theorem text_append (d : NamedDate) (rest : List Char) :
    d.text ++ rest = d.month ++ ' ' :: (padding d.padded ++
      (d.day ++ ' ' :: (yearText d.year ++ (d.clock.text ++ rest)))) := by
  simp [text]

theorem padding_append_inj {padded padded' : Bool} (hrest : ' ' ∉ rest.head?) (hrest' : ' ' ∉ rest'.head?)
    (heq : padding padded ++ rest = padding padded' ++ rest') : padded = padded' ∧ rest = rest' := by
  cases padded with
  | false =>
      cases padded' with
      | false => exact ⟨rfl, heq⟩
      | true =>
          rw [show rest = ' ' :: rest' from heq] at hrest
          exact absurd rfl hrest
  | true =>
      cases padded' with
      | false =>
          rw [show rest' = ' ' :: rest from heq.symm] at hrest'
          exact absurd rfl hrest'
      | true => exact ⟨rfl, (List.cons.inj heq).2⟩

/-- What comes behind the day is a year where a space follows its digits, and a time where a colon does. -/
theorem yearText_append_inj {year year' : Option (List Char)} {c c' : Clock}
    (hyear : ∀ y ∈ year, ∀ d ∈ y, d.isDigit = true) (hyear' : ∀ y ∈ year', ∀ d ∈ y, d.isDigit = true)
    (hc : ∀ d ∈ c.hour, d.isDigit = true) (hc' : ∀ d ∈ c'.hour, d.isDigit = true)
    (heq : yearText year ++ (c.text ++ rest) = yearText year' ++ (c'.text ++ rest')) :
    year = year' ∧ c.text ++ rest = c'.text ++ rest' := by
  have hspace : ∀ text, NoDigit (' ' :: text) := Text.Scan.noDigit_cons (by decide)
  have hcolon : ∀ text, NoDigit (':' :: text) := Text.Scan.noDigit_cons (by decide)
  cases year with
  | none =>
      cases year' with
      | none => exact ⟨rfl, heq⟩
      | some y =>
          simp only [yearText, Option.elim, List.nil_append, List.append_assoc, List.singleton_append,
            Clock.text_append] at heq
          obtain ⟨-, hends⟩ := Text.Scan.digits_append_inj hc (hyear' y rfl) (hcolon _) (hspace _) heq
          cases hends
  | some y =>
      cases year' with
      | none =>
          simp only [yearText, Option.elim, List.nil_append, List.append_assoc, List.singleton_append,
            Clock.text_append] at heq
          obtain ⟨-, hends⟩ := Text.Scan.digits_append_inj (hyear y rfl) hc' (hspace _) (hcolon _) heq
          cases hends
      | some y' =>
          simp only [yearText, Option.elim, List.append_assoc, List.singleton_append] at heq
          obtain ⟨hy, hends⟩ :=
            Text.Scan.digits_append_inj (hyear y rfl) (hyear' y' rfl) (hspace _) (hspace _) heq
          exact ⟨congrArg some hy, (List.cons.inj hends).2⟩

theorem not_mem_head?_day (h : d.IsDate) (rest : List Char) : ' ' ∉ (d.day ++ rest).head? := by
  obtain ⟨hleast, -, hdigits⟩ := h.day
  obtain ⟨c, day, hday⟩ := List.exists_cons_of_length_pos hleast
  rw [hday, List.cons_append]
  rintro ⟨⟩
  exact absurd (hdigits ' ' (hday ▸ List.mem_cons_self)) (by decide)

theorem Opens.unique (h : d.Opens line rest) (h' : d'.Opens line rest') : d = d' ∧ rest = rest' := by
  have hspace : ∀ text, NoDigit (' ' :: text) := Text.Scan.noDigit_cons (by decide)
  have heq := h.eq_append.symm.trans h'.eq_append
  rw [text_append, text_append] at heq
  obtain ⟨hmonth, heq⟩ := List.append_inj heq (h.isDate.month.length_eq.trans h'.isDate.month.length_eq.symm)
  obtain ⟨hpadded, heq⟩ := padding_append_inj (not_mem_head?_day h.isDate _)
    (not_mem_head?_day h'.isDate _) (List.cons.inj heq).2
  obtain ⟨hday, heq⟩ := Text.Scan.digits_append_inj h.isDate.day.2.2 h'.isDate.day.2.2 (hspace _) (hspace _) heq
  obtain ⟨hyear, heq⟩ := yearText_append_inj (fun y hy => (h.isDate.year y hy).1.2.2)
    (fun y hy => (h'.isDate.year y hy).1.2.2) h.isDate.clock.hour.2.2 h'.isDate.clock.hour.2.2
    (List.cons.inj heq).2
  obtain ⟨hclock, hrest⟩ := h.isDate.clock.append_inj h'.isDate.clock h.noDigit h'.noDigit heq
  exact ⟨NamedDate.ext hmonth hpadded hday hyear hclock, hrest⟩

end NamedDate

/-- A time zone as it is written: the letter `Z`, or a sign with hours and minutes. -/
inductive Zone where
  | universal
  | offset (sign : Char) (hour minute : List Char)

namespace Zone

def text : Zone → List Char
  | universal => ['Z']
  | offset sign hour minute => sign :: (hour ++ ':' :: minute)

/-- A zone is off by less than a day, in either direction. -/
def IsZone : Zone → Prop
  | universal => True
  | offset sign hour minute => (sign = '+' ∨ sign = '-') ∧ IsDigits 2 2 hour ∧ number hour ≤ 23 ∧
      IsDigits 2 2 minute ∧ number minute ≤ 59

instance : DecidablePred IsZone
  | universal => inferInstanceAs (Decidable True)
  | offset .. => inferInstanceAs (Decidable (_ ∧ _))

variable {zone zone' : Zone} {rest rest' : List Char}

theorem exists_head (h : zone.IsZone) (rest : List Char) :
    ∃ c left, zone.text ++ rest = c :: left ∧ (c = 'Z' ∨ c = '+' ∨ c = '-') := by
  cases zone with
  | universal => exact ⟨'Z', rest, rfl, .inl rfl⟩
  | offset sign hour minute => exact ⟨sign, hour ++ ':' :: minute ++ rest, rfl, .inr h.1⟩

theorem noDigit_append (h : zone.IsZone) (rest : List Char) : NoDigit (zone.text ++ rest) := by
  obtain ⟨c, left, htext, hc⟩ := exists_head h rest
  rw [htext]
  rcases hc with rfl | rfl | rfl <;> exact Text.Scan.noDigit_cons (by decide) left

theorem append_ne_point (h : zone.IsZone) (rest : List Char) {left : List Char} :
    zone.text ++ rest ≠ '.' :: left := by
  intro hpoint
  obtain ⟨c, left', htext, hc⟩ := exists_head h rest
  obtain rfl : c = '.' := (List.cons.inj (htext.symm.trans hpoint)).1
  rcases hc with hc | hc | hc <;> exact absurd hc (by decide)

theorem append_inj (h : zone.IsZone) (h' : zone'.IsZone) (hrest : NoDigit rest) (hrest' : NoDigit rest')
    (heq : zone.text ++ rest = zone'.text ++ rest') : zone = zone' ∧ rest = rest' := by
  have hletter : ∀ {sign : Char}, sign = '+' ∨ sign = '-' → 'Z' ≠ sign := by
    rintro _ (rfl | rfl) <;> decide
  cases zone with
  | universal =>
      cases zone' with
      | universal => exact ⟨rfl, (List.cons.inj heq).2⟩
      | offset sign' hour' minute' => exact absurd (List.cons.inj heq).1 (hletter h'.1)
  | offset sign hour minute =>
      cases zone' with
      | universal => exact absurd (List.cons.inj heq).1.symm (hletter h.1)
      | offset sign' hour' minute' =>
          obtain ⟨-, hhour, -, hminute, -⟩ := h
          obtain ⟨-, hhour', -, hminute', -⟩ := h'
          have hcolon : ∀ text, NoDigit (':' :: text) := Text.Scan.noDigit_cons (by decide)
          simp only [text, List.cons_append, List.append_assoc] at heq
          obtain ⟨hsign, hleft⟩ := List.cons.inj heq
          obtain ⟨hsame, hleft⟩ :=
            Text.Scan.digits_append_inj hhour.2.2 hhour'.2.2 (hcolon _) (hcolon _) hleft
          obtain ⟨hsame', hend⟩ :=
            Text.Scan.digits_append_inj hminute.2.2 hminute'.2.2 hrest hrest' (List.cons.inj hleft).2
          exact ⟨by rw [hsign, hsame, hsame'], hend⟩

end Zone

/-- A date in digits as it is written. -/
@[ext]
structure NumericDate where
  year : List Char
  month : List Char
  day : List Char
  clock : Clock
  /-- The digits of a fraction of a second. -/
  fraction : Option (List Char)
  zone : Zone

namespace NumericDate

def fractionText (fraction : Option (List Char)) : List Char := fraction.elim [] ('.' :: ·)

def text (d : NumericDate) : List Char :=
  d.year ++ '-' :: (d.month ++ '-' :: (d.day ++ 'T' ::
    (d.clock.text ++ (fractionText d.fraction ++ d.zone.text))))

/-- The fields are those of a date. -/
@[mk_iff isDate_iff]
structure IsDate (d : NumericDate) : Prop where
  year : IsDigits 4 4 d.year
  month : IsDigits 2 2 d.month
  month_range : 1 ≤ number d.month ∧ number d.month ≤ 12
  day : IsDigits 2 2 d.day
  day_range : 1 ≤ number d.day ∧ number d.day ≤ 31
  clock : d.clock.IsTime 2
  fraction : ∀ f ∈ d.fraction, IsNumber f
  zone : d.zone.IsZone

instance : DecidablePred IsDate := fun d => decidable_of_iff' _ (isDate_iff d)

/-- A space comes next, or the text ends, maybe with a line feed. -/
def EndsHere (rest : List Char) : Prop := rest = [] ∨ rest = ['\n'] ∨ rest.head? = some ' '

instance : DecidablePred EndsHere := fun _ => instDecidableOr

/-- A text opens with a date that ends there, and has a rest. -/
@[mk_iff opens_iff]
structure Opens (d : NumericDate) (line rest : List Char) : Prop where
  isDate : d.IsDate
  eq_append : line = d.text ++ rest
  endsHere : EndsHere rest

instance (d : NumericDate) (line rest : List Char) : Decidable (d.Opens line rest) :=
  decidable_of_iff' _ (opens_iff d line rest)

variable {d d' : NumericDate} {line rest rest' : List Char}

theorem text_append (d : NumericDate) (rest : List Char) :
    d.text ++ rest = d.year ++ '-' :: (d.month ++ '-' :: (d.day ++ 'T' ::
      (d.clock.text ++ (fractionText d.fraction ++ (d.zone.text ++ rest))))) := by
  simp [text]

theorem EndsHere.noDigit (h : EndsHere rest) : NoDigit rest := by
  rcases h with rfl | rfl | hspace
  · exact Text.Scan.noDigit_nil
  · exact Text.Scan.noDigit_cons (by decide) []
  · intro c hc
    obtain rfl : ' ' = c := Option.some.inj (hspace.symm.trans hc)
    decide

theorem noDigit_fractionText {fraction : Option (List Char)} (hrest : NoDigit rest) :
    NoDigit (fractionText fraction ++ rest) := by
  cases fraction with
  | none => exact hrest
  | some f => exact Text.Scan.noDigit_cons (by decide) _

theorem fractionText_append_inj {fraction fraction' : Option (List Char)} {zone zone' : Zone}
    (hf : ∀ f ∈ fraction, IsNumber f) (hf' : ∀ f ∈ fraction', IsNumber f) (hzone : zone.IsZone)
    (hzone' : zone'.IsZone)
    (heq : fractionText fraction ++ (zone.text ++ rest) = fractionText fraction' ++ (zone'.text ++ rest')) :
    fraction = fraction' ∧ zone.text ++ rest = zone'.text ++ rest' := by
  cases fraction with
  | none =>
      cases fraction' with
      | none => exact ⟨rfl, heq⟩
      | some f' => exact absurd heq (Zone.append_ne_point hzone rest)
  | some f =>
      cases fraction' with
      | none => exact absurd heq.symm (Zone.append_ne_point hzone' rest')
      | some f' =>
          obtain ⟨hsame, hend⟩ := Text.Scan.digits_append_inj (hf f rfl).2 (hf' f' rfl).2
            (Zone.noDigit_append hzone _) (Zone.noDigit_append hzone' _) (List.cons.inj heq).2
          exact ⟨congrArg some hsame, hend⟩

/-- A text opens with one date only. -/
theorem Opens.unique (h : d.Opens line rest) (h' : d'.Opens line rest') : d = d' ∧ rest = rest' := by
  have hdash : ∀ text, NoDigit ('-' :: text) := Text.Scan.noDigit_cons (by decide)
  have hletter : ∀ text, NoDigit ('T' :: text) := Text.Scan.noDigit_cons (by decide)
  have heq := h.eq_append.symm.trans h'.eq_append
  rw [text_append, text_append] at heq
  obtain ⟨hyear, hleft⟩ :=
    Text.Scan.digits_append_inj h.isDate.year.2.2 h'.isDate.year.2.2 (hdash _) (hdash _) heq
  obtain ⟨hmonth, hleft⟩ := Text.Scan.digits_append_inj h.isDate.month.2.2 h'.isDate.month.2.2 (hdash _)
    (hdash _) (List.cons.inj hleft).2
  obtain ⟨hday, hleft⟩ := Text.Scan.digits_append_inj h.isDate.day.2.2 h'.isDate.day.2.2 (hletter _)
    (hletter _) (List.cons.inj hleft).2
  obtain ⟨hclock, hleft⟩ := h.isDate.clock.append_inj h'.isDate.clock
    (noDigit_fractionText (Zone.noDigit_append h.isDate.zone _))
    (noDigit_fractionText (Zone.noDigit_append h'.isDate.zone _)) (List.cons.inj hleft).2
  obtain ⟨hfraction, hleft⟩ := fractionText_append_inj h.isDate.fraction h'.isDate.fraction h.isDate.zone
    h'.isDate.zone hleft
  obtain ⟨hzone, hrest⟩ :=
    Zone.append_inj h.isDate.zone h'.isDate.zone h.endsHere.noDigit h'.endsHere.noDigit hleft
  exact ⟨NumericDate.ext hyear hmonth hday hclock hfraction hzone, hrest⟩

end NumericDate

end LogMining
