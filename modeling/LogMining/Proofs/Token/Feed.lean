import LogMining.Proofs.Text.Words
import LogMining.Proofs.Token.OfWord

/-!
# What a source hands out

Words are read only when nothing is pending, so what a source hands out are the pending tokens followed by
the tokens of the words of its line, and nothing is pending at the end. That takes room for two pending
tokens if there is a masked address among the words. Without that room the source stops at the first
masked address.
-/

namespace LogMining.Source

open Shape (IsMasked)
open Text (words)

variable {s : Source} {t : Token} {items : List Token} {word : List Char} {more : List (List Char)}

theorem run_next_of_pending (h : s.pending.items = t :: items) :
    next.run s = .ok (some t) { s with pending := { s.pending with items } } := by
  simp only [next, EStateM.run, h]

theorem run_next_of_end (hitems : s.pending.items = []) (h : words s.rest = []) :
    next.run s = .ok none { s with rest := [], position := s.position + s.rest.length } := by
  have hinked := Text.dropWhile_isBlank_of_words_eq_nil h
  have hblanks := List.takeWhile_append_dropWhile (p := Text.isBlank) (l := s.rest)
  rw [hinked, List.append_nil] at hblanks
  simp only [next, EStateM.run, hitems, hinked, hblanks]
  rfl

theorem run_next_of_word (hitems : s.pending.items = []) (h : words s.rest = word :: more) :
    ∃ rest position, words rest = more ∧ position + rest.length = s.position + s.rest.length ∧
      next.run s =
        match (classify word).run s.pending with
        | .ok t pending => .ok (some t) { pending, rest, position }
        | .error fault pending => .error fault { pending, rest, position } := by
  obtain ⟨hword, hne, hmore⟩ := Text.of_words_eq_cons h
  refine ⟨_, s.position + (s.rest.takeWhile Text.isBlank).length + word.length, hmore, ?_, ?_⟩
  · have hblanks := congrArg List.length
      (List.takeWhile_append_dropWhile (p := Text.isBlank) (l := s.rest))
    have hinked := congrArg List.length
      (List.takeWhile_append_dropWhile (p := Text.isInk) (l := s.rest.dropWhile Text.isBlank))
    rw [List.length_append] at hblanks hinked
    rw [hword] at hinked
    omega
  · simp only [next, EStateM.run, hitems, hword]
    exact if_neg (by simpa using hne)

/-- With enough room a source hands out the pending tokens and then the tokens of all words, and leaves
nothing pending. -/
theorem feed_of_room (s : Source) (h : 2 ≤ s.pending.capacity ∨ ∀ word ∈ words s.rest, ¬IsMasked word) :
    s.feed.tokens.map Prod.fst = s.pending.items ++ (words s.rest).flatMap Token.ofWord ∧
      s.feed.fault = none ∧
      s.feed.last = { pending := s.pending.clear, rest := []
                      position := s.position + s.rest.length } := by
  cases hitems : s.pending.items with
  | cons t items =>
      have hnext := run_next_of_pending hitems
      obtain ⟨htokens, hfault, hlast⟩ :=
        feed_of_room { s with pending := { s.pending with items } } h
      rw [feed_of_next hnext]
      exact ⟨congrArg (List.cons t) htokens, hfault, hlast⟩
  | nil =>
      cases hwords : words s.rest with
      | nil =>
          rw [feed_of_end (run_next_of_end hitems hwords)]
          exact ⟨rfl, rfl, by rw [Pending.clear, ← hitems]⟩
      | cons word more =>
          obtain ⟨rest, position, hrest, hposition, hnext⟩ := run_next_of_word hitems hwords
          rw [hwords] at h
          have hroom := h.imp_right fun hnone word hword => hnone word (List.mem_cons_of_mem _ hword)
          by_cases hmasked : IsMasked word
          · -- the second and the third part are handed out before the next word is read
            have hcapacity : 2 ≤ s.pending.capacity :=
              h.resolve_right fun hnone => hnone word List.mem_cons_self hmasked
            have hrun : next.run s = .ok (some Token.maskedAddress)
                { pending := { s.pending with items := [Pending.slashPart, Pending.maskPart] }
                  rest, position } := by
              rw [hnext, run_classify_of_room hmasked hitems hcapacity]
            obtain ⟨htokens, hfault, hlast⟩ := feed_of_room
              { pending := { s.pending with items := [Pending.slashPart, Pending.maskPart] }
                rest, position } (.inl hcapacity)
            rw [feed_of_next hrun]
            refine ⟨?_, hfault, hlast.trans (by rw [hposition]; rfl)⟩
            rw [List.flatMap_cons, Token.ofWord_of_isMasked hmasked, ← hrest]
            exact congrArg (List.cons Token.maskedAddress) htokens
          · obtain ⟨t, hword, hclassify⟩ := run_classify_of_not hmasked s.pending
            have hrun : next.run s = .ok (some t) { pending := s.pending, rest, position } := by
              rw [hnext, hclassify]
            obtain ⟨htokens, hfault, hlast⟩ := feed_of_room
              { pending := s.pending, rest, position } (hrest ▸ hroom)
            rw [hitems, hrest] at htokens
            rw [feed_of_next hrun]
            refine ⟨?_, hfault, hlast.trans (by rw [hposition])⟩
            rw [List.flatMap_cons, hword]
            exact congrArg (List.cons t) htokens
termination_by s.bound
decreasing_by all_goals exact bound_next_lt ‹_›

theorem run_toList_of_room (s : Source)
    (h : 2 ≤ s.pending.capacity ∨ ∀ word ∈ words s.rest, ¬IsMasked word) :
    toList.run s = .ok (s.pending.items ++ (words s.rest).flatMap Token.ofWord)
      { pending := s.pending.clear, rest := [], position := s.position + s.rest.length } := by
  obtain ⟨htokens, hfault, hlast⟩ := s.feed_of_room h
  simp only [toList, EStateM.run, hfault, htokens, hlast]

/-- Without room for two tokens a source stops at the first masked address. -/
theorem feed_of_full {before after : List (List Char)} (hitems : s.pending.items = [])
    (hfull : s.pending.capacity < 2) (hwords : words s.rest = before ++ word :: after)
    (hbefore : ∀ word ∈ before, ¬IsMasked word) (hmasked : IsMasked word) :
    s.feed.tokens.map Prod.fst = before.flatMap Token.ofWord ∧
      s.feed.fault = some (.overflow s.pending.capacity) ∧
      s.feed.last.pending =
        { s.pending with items := if s.pending.capacity = 1 then [Pending.maskPart] else [] } := by
  induction before generalizing s with
  | nil =>
      obtain ⟨rest, position, -, -, hnext⟩ := run_next_of_word hitems hwords
      rw [run_classify_of_full hmasked hitems hfull] at hnext
      rw [feed_of_fault hnext]
      exact ⟨rfl, rfl, rfl⟩
  | cons first before ih =>
      obtain ⟨hfirst, hbefore⟩ := List.forall_mem_cons.mp hbefore
      obtain ⟨rest, position, hrest, -, hnext⟩ := run_next_of_word hitems hwords
      obtain ⟨t, hword, hclassify⟩ := run_classify_of_not hfirst s.pending
      rw [hclassify] at hnext
      obtain ⟨htokens, hfault, hlast⟩ :=
        ih (s := { pending := s.pending, rest, position }) hitems hfull hrest hbefore
      rw [feed_of_next hnext]
      refine ⟨?_, hfault, hlast⟩
      rw [List.flatMap_cons, hword]
      exact congrArg (List.cons t) htokens

/-- What is true of the tokens of all words of a line and of the pending tokens is true of all tokens that come
out of a source and of those that are left over. -/
theorem forall_mem_feed (s : Source) {P : Token → Prop}
    (hwords : ∀ word ∈ words s.rest, ∀ t ∈ Token.ofWord word, P t)
    (hitems : ∀ t ∈ s.pending.items, P t) :
    (∀ t ∈ s.feed.tokens.map Prod.fst, P t) ∧ ∀ t ∈ s.feed.last.pending.items, P t := by
  cases hpending : s.pending.items with
  | cons t items =>
      have hnext := run_next_of_pending hpending
      rw [hpending, List.forall_mem_cons] at hitems
      obtain ⟨htokens, hlast⟩ :=
        forall_mem_feed { s with pending := { s.pending with items } } hwords hitems.2
      rw [feed_of_next hnext, List.map_cons]
      exact ⟨List.forall_mem_cons.mpr ⟨hitems.1, htokens⟩, hlast⟩
  | nil =>
      cases hall : words s.rest with
      | nil =>
          rw [feed_of_end (run_next_of_end hpending hall)]
          exact ⟨by simp, hitems⟩
      | cons word more =>
          rw [hall, List.forall_mem_cons] at hwords
          obtain ⟨rest, position, hrest, -, hnext⟩ := run_next_of_word hpending hall
          obtain ⟨hstate, htoken⟩ := forall_mem_classify hitems hwords.1
          cases hrun : (classify word).run s.pending with
          | error fault pending =>
              rw [hrun] at hnext hstate
              rw [feed_of_fault hnext]
              exact ⟨by simp, hstate⟩
          | ok t pending =>
              have hsome : next.run s = .ok (some t) { pending, rest, position } := by rw [hnext, hrun]
              rw [hrun] at hstate
              obtain ⟨htokens, hlast⟩ :=
                forall_mem_feed { pending, rest, position } (hrest ▸ hwords.2) hstate
              rw [feed_of_next hsome, List.map_cons]
              exact ⟨List.forall_mem_cons.mpr ⟨htoken t pending hrun, htokens⟩, hlast⟩
termination_by s.bound
decreasing_by all_goals exact bound_next_lt ‹_›

end LogMining.Source

namespace LogMining

open Shape (IsMasked)

namespace Line

def words (line : String) : List (List Char) := Text.words (maskDates line).toList

/-- The tokens that the words of a line become. -/
def tokens (line : String) : List Token := (words line).flatMap Token.ofWord

/-- There is a masked address among the words of the line. -/
def HasMasked (line : String) : Prop := ∃ word ∈ words line, IsMasked word

end Line

theorem run_tokenize_of_room (line : String) (p : Pending)
    (h : 2 ≤ p.capacity ∨ ¬Line.HasMasked line) :
    (tokenize line).run p = .ok (p.items ++ Line.tokens line) p.clear := by
  have hlist := (Source.ofLine (Line.maskDates line) p).run_toList_of_room
    (h.imp_right fun hnone word hword hmasked => hnone ⟨word, hword, hmasked⟩)
  change Step.mapState Source.pending (Source.toList.run _) = _
  rw [hlist]
  rfl

end LogMining
