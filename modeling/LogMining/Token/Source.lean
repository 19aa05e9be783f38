import LogMining.Line.Dates
import LogMining.Text.Blank
import LogMining.Token.Pending

/-!
# The tokens of a line

A source hands out the tokens of one line in reading order. Pending tokens come first, whichever
line they were found in; then the next word is read, which is a longest run of characters other than
blanks. A word that begins like a placeholder is left as it is, all others are looked at for their
shape.

`Source.feed` runs a source to its end and notes its state after every token, since a reader that
stops early leaves the source, and with it the pending tokens, as they are at that moment.
-/

namespace LogMining

/-- A line that is being read, with the pending tokens. -/
structure Source where
  pending : Pending
  /-- The characters that have not been read. -/
  rest : List Char
  /-- The number of characters that have been read. -/
  position : Nat := 0
deriving DecidableEq, Repr

/-- The tokens that come out of some supply one after the other, each with the state in which the
supply is after it. -/
structure Feed (σ : Type) where
  tokens : List (Token × σ)
  /-- What ended the supply, if it was not used up. -/
  fault : Option Fault
  /-- The state in which the supply ended. -/
  last : σ

namespace Source

def ofLine (line : String) (pending : Pending) : Source := { pending, rest := line.toList }

def classify (word : List Char) : Step Pending Token := do
  let t : Token := { word := String.ofList word }
  if t.isPlaceholder then return { t with special := decide (t.word ∈ Shape.placeholders) }
  else return (← Pending.detect t).getD t

/-- Hands out the next token. At the end of the line there is none. The characters of a word are
passed over even if the word overflows the pending tokens. -/
def next : Step Source (Option Token) := fun s =>
  match s.pending.items with
  | t :: items => .ok (some t) { s with pending := { s.pending with items } }
  | [] =>
    let blanks := s.rest.takeWhile Text.isBlank
    let inked := s.rest.dropWhile Text.isBlank
    let word := inked.takeWhile Text.isInk
    let rest := inked.dropWhile Text.isInk
    let position := s.position + blanks.length + word.length
    if word.isEmpty then .ok none { s with rest, position }
    else
      match (classify word).run s.pending with
      | .ok t pending => .ok (some t) { pending, rest, position }
      | .error fault pending => .error fault { pending, rest, position }

/-- A bound on the number of tokens that a source can still hand out. Every character of the line
counts three, since a word is at most three tokens. -/
def bound (s : Source) : Nat := 3 * s.rest.length + s.pending.size

theorem size_classify_le (word : List Char) (p : Pending) :
    (Step.state ((classify word).run p)).size ≤ p.size + 2 := by
  unfold classify
  dsimp only
  split
  · simp [Step.state]
  · have h := Pending.size_detect_le { word := String.ofList word } p
    rw [EStateM.run_bind]
    split
    · next q hq => simpa [hq, Step.state] using h
    · next q hq => simpa [hq, Step.state] using h

theorem length_dropWhile_lt {p q : Char → Bool} {text : List Char}
    (h : ((text.dropWhile p).takeWhile q).isEmpty = false) :
    ((text.dropWhile p).dropWhile q).length < text.length := by
  have hle := (List.dropWhile_sublist (p := p) (l := text)).length_le
  have hsplit := congrArg List.length (List.takeWhile_append_dropWhile (p := q) (l := text.dropWhile p))
  rw [List.length_append] at hsplit
  have hpos : 0 < ((text.dropWhile p).takeWhile q).length := by
    rw [List.isEmpty_eq_false_iff] at h
    exact List.length_pos_iff.mpr h
  omega

theorem bound_next_lt {s s' : Source} {t : Token} (h : next.run s = .ok (some t) s') :
    s'.bound < s.bound := by
  simp only [next, EStateM.run] at h
  split at h
  · next items hitems =>
    cases h
    simp [bound, Pending.size, hitems]
  · next hitems =>
    split at h
    · cases h
    · next hword =>
      have hrest := length_dropWhile_lt (Bool.eq_false_iff.mpr hword)
      have hsize := size_classify_le ((s.rest.dropWhile Text.isBlank).takeWhile Text.isInk) s.pending
      split at h
      · next p hp =>
        cases h
        simp only [EStateM.run] at hsize
        simp only [hp, Step.state] at hsize
        simp only [bound, Pending.size, hitems, List.length_nil] at hsize ⊢
        omega
      · cases h

def feedOnto (done : List (Token × Source)) (s : Source) : Feed Source :=
  match _h : next.run s with
  | .ok (some t) s' => feedOnto ((t, s') :: done) s'
  | .ok none s' => { tokens := done.reverse, fault := none, last := s' }
  | .error fault s' => { tokens := done.reverse, fault := some fault, last := s' }
termination_by s.bound
decreasing_by exact bound_next_lt _h

def feed (s : Source) : Feed Source := feedOnto [] s

theorem feedOnto_eq (done : List (Token × Source)) (s : Source) :
    feedOnto done s = { s.feed with tokens := done.reverse ++ s.feed.tokens } := by
  rw [feed, feedOnto, feedOnto.eq_def []]
  split
  · next t s' h =>
    rw [feedOnto_eq ((t, s') :: done), feedOnto_eq [(t, s')]]
    simp
  · simp
  · simp
termination_by s.bound
decreasing_by all_goals exact bound_next_lt ‹_›

theorem feed_of_next {s s' : Source} {t : Token} (h : next.run s = .ok (some t) s') :
    s.feed = { s'.feed with tokens := (t, s') :: s'.feed.tokens } := by
  rw [feed, feedOnto]
  split
  · next u r hr =>
    rw [h] at hr
    cases hr
    simp [feedOnto_eq [(t, s')]]
  · next hr => simp [h] at hr
  · next hr => simp [h] at hr

theorem feed_of_end {s s' : Source} (h : next.run s = .ok none s') :
    s.feed = { tokens := [], fault := none, last := s' } := by
  rw [feed, feedOnto]
  split
  · next hr => simp [h] at hr
  · next hr =>
    rw [h] at hr
    cases hr
    rfl
  · next hr => simp [h] at hr

theorem feed_of_fault {s s' : Source} {fault : Fault} (h : next.run s = .error fault s') :
    s.feed = { tokens := [], fault := some fault, last := s' } := by
  rw [feed, feedOnto]
  split
  · next hr => simp [h] at hr
  · next hr => simp [h] at hr
  · next hr =>
    rw [h] at hr
    cases hr
    rfl

def toList : Step Source (List Token) := fun s =>
  let feed := s.feed
  match feed.fault with
  | none => .ok (feed.tokens.map Prod.fst) feed.last
  | some fault => .error fault feed.last

end Source

/-- The tokens of a line in which dates are to be masked first, with the pending tokens from which
it starts. -/
def tokenize (line : String) : Step Pending (List Token) := fun p =>
  Step.mapState Source.pending (Source.toList.run (Source.ofLine (Line.maskDates line) p))

end LogMining
