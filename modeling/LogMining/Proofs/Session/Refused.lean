import LogMining.Proofs.Session.Alone

/-!
# Lines that are refused

Without room for two pending tokens a line is refused if there is a masked address among its words, and only
then. Tokens are read one ahead, so when the masked address is read, the word before it is still waiting to
be placed, and it is lost with the line.
-/

namespace LogMining

namespace Line

open Shape (IsMasked)

theorem HasMasked.exists_first {line : String} (h : HasMasked line) :
    ∃ before word after, words line = before ++ word :: after ∧
      (∀ w ∈ before, ¬IsMasked w) ∧ IsMasked word := by
  obtain ⟨word, hword, hmasked⟩ := h
  have hsome : ((words line).find? Shape.isMaskedAddress).isSome = true :=
    List.find?_isSome.mpr ⟨word, hword, Shape.isMaskedAddress_iff.mpr hmasked⟩
  obtain ⟨first, hfirst⟩ := Option.isSome_iff_exists.mp hsome
  obtain ⟨hmasked', before, after, hwords, hbefore⟩ := List.find?_eq_some_iff_append.mp hfirst
  refine ⟨before, first, after, hwords, fun w hw hmasked'' => ?_, Shape.isMaskedAddress_iff.mp hmasked'⟩
  have hnot := hbefore w hw
  rw [Shape.isMaskedAddress_iff.mpr hmasked''] at hnot
  cases hnot

end Line

namespace Session

variable {s s' : Session} {ends : Int} {below : Slots} {line : String}

/-- What a session has become after it has refused a line at the first masked address. -/
structure Refused (s s' : Session) (line : String) : Prop where
  /-- Of the tokens before the address all but the last one have been placed, each with the next one known.
  With enough room the tokens of the line would go on with those of the address. -/
  placed : ∃ before word after rest, Line.words line = before ++ word :: after ∧
    (∀ w ∈ before, ¬Shape.IsMasked w) ∧ Shape.IsMasked word ∧
    (tokenize line).run {} = .ok (before.flatMap Token.ofWord ++ Token.maskedAddress :: rest) {} ∧
    s'.tree = Step.state ((Tree.placeAhead Tree.root (before.flatMap Token.ofWord)).run s.tree)
  lineEnds : s'.tree.lineEndsAt = s.tree.lineEndsAt
  lines : s'.lines = s.lines
  pending : s'.pending.items = if s.pending.capacity = 1 then [Pending.maskPart] else []

theorem exists_refused (h : s.tree.Comprises ends below) (hreports : s.progress.Reports)
    (hitems : s.pending.items = []) (hfull : s.pending.capacity < 2) (hmasked : Line.HasMasked line) :
    ∃ s', (addLine line).run s = .error (.overflow s.pending.capacity) s' ∧ s.Refused s' line := by
  obtain ⟨before, word, after, hwords, hbefore, hword⟩ := hmasked.exists_first
  have hreport := Progress.run_report hreports "reading"
  obtain ⟨htokens, hfault, hlast⟩ := Source.feed_of_full
    (s := Source.ofLine (Line.maskDates line) s.pending) hitems hfull hwords hbefore hword
  replace hfault : (Source.ofLine (Line.maskDates line) s.pending).feed.fault =
    some (.overflow s.pending.capacity) := hfault
  obtain ⟨id, tree, hinsert, -⟩ :=
    Tree.insertFeed_eq h (Source.ofLine (Line.maskDates line) s.pending).feed
  have htree : tree = Step.state ((Tree.placeAhead Tree.root (before.flatMap Token.ofWord)).run s.tree) := by
    have hstate := Tree.state_insertFrom_of_fault (.overflow s.pending.capacity)
      (Source.ofLine (Line.maskDates line) s.pending).feed.last Tree.root
      (Source.ofLine (Line.maskDates line) s.pending).feed.tokens s.tree
    rw [Tree.insertFeed, hfault] at hinsert
    rw [htokens, hinsert] at hstate
    exact hstate
  -- with the usual room the same line comes apart into its tokens
  obtain ⟨rest, htokenize⟩ : ∃ rest, (tokenize line).run {} =
      .ok (before.flatMap Token.ofWord ++ Token.maskedAddress :: rest) {} := by
    refine ⟨Pending.slashPart :: Pending.maskPart :: after.flatMap Token.ofWord, ?_⟩
    rw [run_tokenize_of_room line {} (.inl (by decide)), Line.tokens, hwords, List.flatMap_append,
      List.flatMap_cons, Token.ofWord_of_isMasked hword]
    rfl
  refine ⟨{ s with
    progress := s.progress.counted "reading"
    tree
    pending := (Source.ofLine (Line.maskDates line) s.pending).feed.last.pending },
    ?_, ⟨before, word, after, rest, hwords, hbefore, hword, htokenize, htree⟩, ?_, rfl, ?_⟩
  · rw [run_addLine_of_report line hreport, hinsert, hfault]
    rfl
  · exact (congrArg Tree.lineEndsAt htree).trans (Tree.lineEndsAt_placeAhead ..)
  · exact congrArg Pending.items hlast

/-- A session refuses exactly the lines with masked addresses, and refuses them at the first one. -/
structure RefusesMasked (s : Session) : Prop where
  iff : ∀ line, (∃ s', (addLine line).run s = .error (.overflow s.pending.capacity) s') ↔
    Line.HasMasked line
  refused : ∀ line fault s', (addLine line).run s = .error fault s' → s.Refused s' line

theorem refusesMasked (h : s.tree.Comprises ends below) (hreports : s.progress.Reports)
    (hitems : s.pending.items = []) (hfull : s.pending.capacity < 2) : s.RefusesMasked := by
  have hline : ∀ line, ((∃ s', (addLine line).run s = .error (.overflow s.pending.capacity) s') ↔
      Line.HasMasked line) ∧
      ∀ fault s', (addLine line).run s = .error fault s' → s.Refused s' line := by
    intro line
    by_cases hmasked : Line.HasMasked line
    · obtain ⟨s', hrun, hrefused⟩ := exists_refused h hreports hitems hfull hmasked
      refine ⟨iff_of_true ⟨s', hrun⟩ hmasked, fun fault s'' hrun' => ?_⟩
      rw [hrun] at hrun'
      cases hrun'
      exact hrefused
    · obtain ⟨id, tree, progress, -, hrun⟩ := run_addLine_of_room h hreports hitems line (.inr hmasked)
      refine ⟨iff_of_false ?_ hmasked, fun fault s' hrun' => ?_⟩
      · rintro ⟨s', hrun'⟩
        rw [hrun] at hrun'
        cases hrun'
      · rw [hrun] at hrun'
        cases hrun'
  exact ⟨fun line => (hline line).1, fun line => (hline line).2⟩

end Session

end LogMining
