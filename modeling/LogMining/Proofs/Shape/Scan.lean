import LogMining.Shape.Value
import Mathlib.Data.List.TakeWhile
import Mathlib.Data.Option.Basic

/-!
# What scanners read

A scanner that succeeds has read a first part of the text and left the rest. `Reads p scan` says that it
reads such characters only. For digits and for addresses it is told exactly when they are read.
-/

namespace LogMining.Text.Scan

variable {α β : Type} {scan : Scan α} {p : Char → Prop} {text rest : List Char}

theorem bind_eq_some_iff {f : α → Scan β} {b : β} :
    (scan >>= f) text = some (b, rest) ↔
      ∃ a mid, scan text = some (a, mid) ∧ f a mid = some (b, rest) := by
  change (scan text).bind (fun r => f r.1 r.2) = some (b, rest) ↔ _
  rw [Option.bind_eq_some_iff]
  constructor
  · rintro ⟨⟨a, mid⟩, hscan, hrest⟩
    exact ⟨a, mid, hscan, hrest⟩
  · rintro ⟨a, mid, hscan, hrest⟩
    exact ⟨(a, mid), hscan, hrest⟩

theorem bind_of_eq_some {f : α → Scan β} {a : α} (h : scan text = some (a, rest)) :
    (scan >>= f) text = f a rest := by
  change (scan text).bind (fun r => f r.1 r.2) = _
  rw [h]
  rfl

theorem guard_eq_some_iff {condition : Prop} [Decidable condition] {u : Unit} :
    (guard condition : Scan Unit) text = some (u, rest) ↔ condition ∧ rest = text := by
  rw [guard]
  split
  · next h =>
    change some ((), text) = some (u, rest) ↔ _
    simp [h, eq_comm]
  · next h =>
    change none = some (u, rest) ↔ _
    simp [h]

theorem guard_of {condition : Prop} [Decidable condition] (h : condition) (text : List Char) :
    (guard condition : Scan Unit) text = some ((), text) :=
  guard_eq_some_iff.mpr ⟨h, rfl⟩

theorem char_eq_some_iff {c : Char} {u : Unit} :
    char c text = some (u, rest) ↔ text = c :: rest := by
  cases text with
  | nil => simp [char]
  | cons d text =>
      rw [char]
      split
      · next h => simp [h]
      · next h => simp [h]

theorem char_cons_self (c : Char) (text : List Char) : char c (c :: text) = some ((), text) :=
  char_eq_some_iff.mpr rfl

/-- The text does not go on with a digit. -/
def NoDigit (text : List Char) : Prop := ∀ c ∈ text.head?, c.isDigit = false

instance : DecidablePred NoDigit := fun text => Option.decidableForallMem text.head?

theorem noDigit_nil : NoDigit [] := by simp [NoDigit]

theorem noDigit_cons {c : Char} (h : c.isDigit = false) (text : List Char) : NoDigit (c :: text) := by
  simpa [NoDigit] using h

def IsNumber (digits : List Char) : Prop := digits ≠ [] ∧ ∀ c ∈ digits, c.isDigit = true

instance : DecidablePred IsNumber := fun _ => @instDecidableAnd _ _ _ (List.decidableBAll ..)

theorem digitRun_eq_some_iff {digits : List Char} :
    digitRun text = some (digits, rest) ↔ text = digits ++ rest ∧ IsNumber digits ∧ NoDigit rest := by
  rw [digitRun]
  constructor
  · intro h
    split at h
    · cases h
    · next hne =>
      cases h
      refine ⟨(List.takeWhile_append_dropWhile ..).symm, ⟨?_, fun c hc => List.mem_takeWhile_imp hc⟩, ?_⟩
      · simpa using hne
      · intro c hc
        have hnot := List.head?_dropWhile_not Char.isDigit text
        rw [Option.mem_def.mp hc] at hnot
        simpa using hnot
  · rintro ⟨rfl, ⟨hne, hdigits⟩, hrest⟩
    have htake : rest.takeWhile Char.isDigit = [] ∧ rest.dropWhile Char.isDigit = rest := by
      cases rest with
      | nil => exact ⟨rfl, rfl⟩
      | cons c rest =>
          have hc : c.isDigit = false := hrest c rfl
          simp [hc]
    rw [List.takeWhile_append_of_pos hdigits, List.dropWhile_append_of_pos hdigits, htake.1, htake.2,
      List.append_nil, if_neg (by simpa using hne)]

theorem integer_eq_some_iff {u : Unit} :
    integer text = some (u, rest) ↔ ∃ digits, text = digits ++ rest ∧ IsNumber digits ∧ NoDigit rest := by
  rw [integer, bind_eq_some_iff]
  constructor
  · rintro ⟨digits, mid, hrun, hpure⟩
    cases hpure
    exact ⟨digits, digitRun_eq_some_iff.mp hrun⟩
  · rintro ⟨digits, hdigits⟩
    exact ⟨digits, rest, digitRun_eq_some_iff.mpr hdigits, rfl⟩

def IsOctet (digits : List Char) : Prop :=
  IsNumber digits ∧ digits.length ≤ 3 ∧ number digits ≤ 255

/-- Four numbers up to 255 with dots between them. -/
def IsAddress (address : List Char) : Prop :=
  ∃ a b c d, IsOctet a ∧ IsOctet b ∧ IsOctet c ∧ IsOctet d ∧
    address = a ++ '.' :: (b ++ '.' :: (c ++ '.' :: d))

theorem ipv4_eq_some_iff {u : Unit} :
    ipv4 text = some (u, rest) ↔
      ∃ address, text = address ++ rest ∧ IsAddress address ∧ NoDigit rest := by
  simp only [ipv4, bind_eq_some_iff, digitRun_eq_some_iff, char_eq_some_iff, guard_eq_some_iff,
    List.all_cons, List.all_nil, isOctet, Bool.and_eq_true, decide_eq_true_iff]
  constructor
  · rintro ⟨a, _, ⟨rfl, ha, -⟩, _, _, rfl, b, _, ⟨rfl, hb, -⟩, _, _, rfl, c, _, ⟨rfl, hc, -⟩, _, _, rfl,
      d, _, ⟨rfl, hd, hrest⟩, ⟨hoa, hob, hoc, hod, -⟩, rfl⟩
    exact ⟨_, by simp, ⟨a, b, c, d, ⟨ha, hoa⟩, ⟨hb, hob⟩, ⟨hc, hoc⟩, ⟨hd, hod⟩, rfl⟩, hrest⟩
  · rintro ⟨_, rfl, ⟨a, b, c, d, ⟨ha, hoa⟩, ⟨hb, hob⟩, ⟨hc, hoc⟩, ⟨hd, hod⟩, rfl⟩, hrest⟩
    have hdot : ∀ text, NoDigit ('.' :: text) := noDigit_cons (by decide)
    exact ⟨a, _, ⟨by simp, ha, hdot _⟩, (), _, rfl, b, _, ⟨rfl, hb, hdot _⟩, (), _, rfl, c, _,
      ⟨rfl, hc, hdot _⟩, (), _, rfl, d, rest, ⟨rfl, hd, hrest⟩, ⟨hoa, hob, hoc, hod, trivial⟩, rfl⟩

def IsDigits (least most : Nat) (digits : List Char) : Prop :=
  least ≤ digits.length ∧ digits.length ≤ most ∧ ∀ c ∈ digits, c.isDigit = true

instance (least most : Nat) : DecidablePred (IsDigits least most) := fun _ =>
  @instDecidableAnd _ _ _ (@instDecidableAnd _ _ _ (List.decidableBAll ..))

theorem exactly_eq_some_iff {n m : Nat} :
    exactly n text = some (m, rest) ↔
      ∃ digits, text = digits ++ rest ∧ IsDigits n n digits ∧ number digits = m := by
  rw [exactly]
  constructor
  · intro h
    split at h
    · next hdigits =>
      cases h
      exact ⟨text.take n, (List.take_append_drop n text).symm,
        ⟨hdigits.1.ge, hdigits.1.le, List.all_eq_true.mp hdigits.2⟩, rfl⟩
    · cases h
  · rintro ⟨digits, rfl, ⟨hleast, hmost, hdigits⟩, rfl⟩
    obtain rfl : digits.length = n := Nat.le_antisymm hmost hleast
    rw [List.take_left', List.drop_left', if_pos ⟨rfl, List.all_eq_true.mpr hdigits⟩]
    all_goals rfl

theorem exactly_append {n : Nat} {digits : List Char} (h : IsDigits n n digits) (rest : List Char) :
    exactly n (digits ++ rest) = some (number digits, rest) :=
  exactly_eq_some_iff.mpr ⟨digits, rfl, h, rfl⟩

theorem oneOrTwo_of_two {c d : Char} (hc : c.isDigit = true) (hd : d.isDigit = true) (rest : List Char) :
    oneOrTwo (c :: d :: rest) = some (number [c, d], rest) := by
  simp [oneOrTwo, hc, hd]

theorem oneOrTwo_of_one {c : Char} (hc : c.isDigit = true) (hrest : NoDigit rest) :
    oneOrTwo (c :: rest) = some (number [c], rest) := by
  cases rest with
  | nil => simp [oneOrTwo, hc]
  | cons d rest =>
      have hd : d.isDigit = false := hrest d rfl
      simp [oneOrTwo, hc, hd]

theorem oneOrTwo_eq_some_iff {m : Nat} :
    oneOrTwo text = some (m, rest) ↔
      ∃ digits, text = digits ++ rest ∧ IsDigits 1 2 digits ∧ (digits.length = 1 → NoDigit rest) ∧
        number digits = m := by
  constructor
  · intro h
    cases text with
    | nil => cases h
    | cons c text =>
        cases hc : c.isDigit with
        | false => simp [oneOrTwo, hc] at h
        | true =>
            by_cases hrest : NoDigit text
            · rw [oneOrTwo_of_one hc hrest] at h
              cases h
              exact ⟨[c], rfl, ⟨by simp, by simp, by simpa using hc⟩, fun _ => hrest, rfl⟩
            · cases text with
              | nil => exact absurd noDigit_nil hrest
              | cons d text =>
                  have hd : d.isDigit = true := by simpa [NoDigit] using hrest
                  rw [oneOrTwo_of_two hc hd] at h
                  cases h
                  exact ⟨[c, d], rfl, ⟨by simp, by simp, by simp [hc, hd]⟩, by simp, rfl⟩
  · rintro ⟨digits, rfl, ⟨hleast, hmost, hdigits⟩, hone, rfl⟩
    rcases digits with _ | ⟨c, _ | ⟨d, _ | ⟨e, digits⟩⟩⟩
    · cases hleast
    · exact oneOrTwo_of_one (hdigits c (by simp)) (hone rfl)
    · exact oneOrTwo_of_two (hdigits c (by simp)) (hdigits d (by simp)) rest
    · simp at hmost

theorem oneOrTwo_append {digits : List Char} (h : IsDigits 1 2 digits) (hrest : NoDigit rest) :
    oneOrTwo (digits ++ rest) = some (number digits, rest) :=
  oneOrTwo_eq_some_iff.mpr ⟨digits, rfl, h, fun _ => hrest, rfl⟩

theorem optional_eq_some_iff {o : Option α} :
    optional scan text = some (o, rest) ↔
      (∃ a, o = some a ∧ scan text = some (a, rest)) ∨ o = none ∧ rest = text ∧ scan text = none := by
  rw [optional]
  cases scan text with
  | none =>
      constructor
      · intro h
        cases h
        exact .inr ⟨rfl, rfl, rfl⟩
      · rintro (⟨a, -, h⟩ | ⟨rfl, rfl, -⟩)
        · cases h
        · rfl
  | some r =>
      constructor
      · intro h
        cases h
        exact .inl ⟨r.1, rfl, rfl⟩
      · rintro (⟨a, rfl, h⟩ | ⟨-, -, h⟩)
        · cases h
          rfl
        · cases h

theorem optional_char (c : Char) (text : List Char) :
    ∃ o, optional (char c) text = some (o, if text.head? = some c then text.tail else text) := by
  cases text with
  | nil => exact ⟨none, rfl⟩
  | cons d text =>
      by_cases hd : d = c
      · exact ⟨some (), by simp [optional, char, hd]⟩
      · exact ⟨none, by simp [optional, char, hd]⟩

theorem followedBy_eq_some_iff {follows : List Char → Bool} {u : Unit} :
    followedBy follows text = some (u, rest) ↔ follows text = true ∧ rest = text := by
  rw [followedBy]
  split
  · next h => simp [h, eq_comm]
  · next h => simp [h]

theorem followedBy_of {follows : List Char → Bool} (h : follows text = true) :
    followedBy follows text = some ((), text) :=
  followedBy_eq_some_iff.mpr ⟨h, rfl⟩

/-- What a scanner reads has such characters only. -/
def Reads (p : Char → Prop) (scan : Scan α) : Prop :=
  ∀ text a rest, scan text = some (a, rest) → ∃ taken, text = taken ++ rest ∧ ∀ c ∈ taken, p c

theorem Reads.bind {f : α → Scan β} (h : Reads p scan) (hf : ∀ a, Reads p (f a)) :
    Reads p (scan >>= f) := by
  intro text b rest hbind
  obtain ⟨a, mid, hscan, hrest⟩ := bind_eq_some_iff.mp hbind
  obtain ⟨first, rfl, hfirst⟩ := h text a mid hscan
  obtain ⟨second, rfl, hsecond⟩ := hf a mid b rest hrest
  exact ⟨first ++ second, (List.append_assoc ..).symm, List.forall_mem_append.mpr ⟨hfirst, hsecond⟩⟩

theorem reads_guard (p : Char → Prop) (condition : Prop) [Decidable condition] :
    Reads p (guard condition) := by
  intro text u rest h
  obtain ⟨-, rfl⟩ := guard_eq_some_iff.mp h
  exact ⟨[], rfl, by simp⟩

theorem reads_pure (p : Char → Prop) (a : α) : Reads p (pure a : Scan α) := by
  intro text b rest h
  cases h
  exact ⟨[], rfl, by simp⟩

theorem reads_char {c : Char} (h : p c) : Reads p (char c) := by
  intro text u rest hchar
  exact ⟨[c], char_eq_some_iff.mp hchar, List.forall_mem_singleton.mpr h⟩

theorem reads_digitRun (h : ∀ c : Char, c.isDigit = true → p c) : Reads p digitRun := by
  intro text digits rest hrun
  obtain ⟨heq, ⟨-, hdigits⟩, -⟩ := digitRun_eq_some_iff.mp hrun
  exact ⟨digits, heq, fun c hc => h c (hdigits c hc)⟩

theorem reads_exactly (h : ∀ c : Char, c.isDigit = true → p c) (n : Nat) : Reads p (exactly n) := by
  intro text m rest hrun
  obtain ⟨digits, heq, ⟨-, -, hdigits⟩, -⟩ := exactly_eq_some_iff.mp hrun
  exact ⟨digits, heq, fun c hc => h c (hdigits c hc)⟩

end LogMining.Text.Scan
