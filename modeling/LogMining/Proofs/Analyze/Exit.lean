import LogMining.Analyze
import LogMining.Proofs.Session.Refused

/-!
# How a run exits

A run fails if a line is refused for want of room for pending tokens, and then before anything is printed.
Otherwise the lines are taken in and the tree is refined, and nothing but a terminal that does not draw an
outline keeps a tree from being printed. Dumps are always printed.
-/

namespace LogMining

/-- The terminal draws the outline of a tree. -/
def Terminal.Draws (terminal : Terminal) (tree : Tree) : Prop :=
  ∃ outline lines, tree.outline terminal = .ok outline ∧ terminal.draw outline = .ok lines

namespace Session

variable {s : Session} {ends : Int} {below : Slots}

theorem run_drawing (h : s.tree.Comprises ends below) (hreports : s.progress.Reports) (terminal : Terminal) :
    ∃ progress, progress.Reports ∧
      (terminal.Draws s.tree → ∃ lines, (drawing terminal).run s = .ok lines { s with progress }) ∧
      (¬terminal.Draws s.tree → ∃ fault, (drawing terminal).run s = .error fault { s with progress }) := by
  obtain ⟨drawn, houtline⟩ := h.exists_outline terminal
  refine ⟨(Progress.counted "print")^[s.tree.live - 1] s.progress,
    (Progress.reports_iterate_counted _ _ _).mpr hreports, ?_⟩
  have hdrawing : (drawing terminal).run s = (Step.query fun _ => terminal.draw drawn).run
      { s with progress := (Progress.counted "print")^[s.tree.live - 1] s.progress } := by
    rw [drawing, EStateM.run_bind, run_outline h hreports houtline]
  rw [hdrawing, Step.run_query]
  cases hlines : terminal.draw drawn with
  | ok lines =>
      have hdraws : terminal.Draws s.tree := ⟨drawn, lines, houtline, hlines⟩
      exact ⟨fun _ => ⟨lines, rfl⟩, fun hnot => absurd hdraws hnot⟩
  | error fault =>
      refine ⟨fun ⟨outline, lines, houtline', hlines'⟩ => ?_, fun _ => ⟨fault, rfl⟩⟩
      cases houtline'.symm.trans houtline
      cases hlines'.symm.trans hlines

theorem run_step_addLine_of_room (h : s.tree.Comprises ends below) (hreports : s.progress.Reports)
    (hitems : s.pending.items = []) {line : String}
    (hroom : 2 ≤ s.pending.capacity ∨ ¬Line.HasMasked line) :
    ∃ s', (Call.addLine line).step.run s = .ok () s' ∧ s'.pending = s.pending := by
  obtain ⟨id, tree, progress, -, hrun⟩ := run_addLine_of_room h hreports hitems line hroom
  refine ⟨{ s with tree, progress, lines := s.lines + 1 }, ?_, rfl⟩
  rw [Call.step, EStateM.run_bind, hrun]
  rfl

theorem addLines_eq (lines : List String) :
    addLines lines = (do
      lines.forM fun line => (Call.addLine line).step
      return lines.length) := rfl

theorem forM_addLine_cons (h : s.tree.Comprises ends below) (hreports : s.progress.Reports)
    (hitems : s.pending.items = []) (line : String)
    (hroom : 2 ≤ s.pending.capacity ∨ ¬Line.HasMasked line) (lines : List String) :
    ∃ s' ends' below', s'.tree.Comprises ends' below' ∧ s'.progress.Reports ∧
      s'.pending = s.pending ∧ s.after [.addLine line] = s' ∧
      ((line :: lines).forM fun line => (Call.addLine line).step).run s =
        (lines.forM fun line => (Call.addLine line).step).run s' := by
  obtain ⟨s', hrun, hpending⟩ := run_step_addLine_of_room h hreports hitems hroom
  obtain ⟨ends', below', htree⟩ := after_comprises h [.addLine line]
  have hreports' := (reports_step (.addLine line) s).mpr hreports
  have hafter : s.after [.addLine line] = s' := by
    rw [after, after, hrun]
    rfl
  rw [hrun] at hreports'
  refine ⟨s', ends', below', hafter ▸ htree, hreports', hpending, hafter, ?_⟩
  rw [List.forM_eq_forM, List.forM_cons, EStateM.run_bind, hrun]

theorem run_addLines_of_room (h : s.tree.Comprises ends below) (hreports : s.progress.Reports)
    (hitems : s.pending.items = []) {lines : List String}
    (hroom : 2 ≤ s.pending.capacity ∨ ∀ line ∈ lines, ¬Line.HasMasked line) :
    (addLines lines).run s = .ok lines.length (s.after (lines.map .addLine)) := by
  have hforM : (lines.forM fun line => (Call.addLine line).step).run s =
      .ok () (s.after (lines.map .addLine)) := by
    induction lines generalizing s ends below with
    | nil => rfl
    | cons line lines ih =>
        have hrest := hroom.imp_right fun hnone line hline => hnone line (List.mem_cons_of_mem _ hline)
        obtain ⟨s', ends', below', htree, hreports', hpending, hafter, hrun⟩ :=
          forM_addLine_cons h hreports hitems line
            (hroom.imp_right fun hnone => hnone line List.mem_cons_self) lines
        rw [hrun, List.map_cons, ← List.singleton_append, after_append, hafter]
        exact ih htree hreports' (hpending ▸ hitems) (hpending ▸ hrest)
  rw [addLines_eq, EStateM.run_bind, hforM]
  rfl

/-- Without room for two tokens the first line with a masked address is refused, and no other one is taken
in. -/
theorem run_addLines_of_full (h : s.tree.Comprises ends below) (hreports : s.progress.Reports)
    (hitems : s.pending.items = []) (hfull : s.pending.capacity < 2) {lines : List String}
    (hmasked : ∃ line ∈ lines, Line.HasMasked line) :
    ∃ s', (addLines lines).run s = .error (.overflow s.pending.capacity) s' := by
  have hforM : ∃ s', (lines.forM fun line => (Call.addLine line).step).run s =
      .error (.overflow s.pending.capacity) s' := by
    induction lines generalizing s ends below with
    | nil => simp at hmasked
    | cons line lines ih =>
        by_cases hline : Line.HasMasked line
        · obtain ⟨s', hrun, -⟩ := exists_refused h hreports hitems hfull hline
          refine ⟨s', ?_⟩
          rw [List.forM_eq_forM, List.forM_cons, EStateM.run_bind, Call.step, EStateM.run_bind, hrun]
        · obtain ⟨s', ends', below', htree, hreports', hpending, -, hrun⟩ :=
            forM_addLine_cons h hreports hitems _ (.inr hline) lines
          obtain ⟨line', hmem, hline'⟩ := hmasked
          have hrest : ∃ line ∈ lines, Line.HasMasked line :=
            ⟨line', (List.mem_cons.mp hmem).resolve_left (fun heq => hline (heq ▸ hline')), hline'⟩
          rw [hrun, ← hpending]
          exact ih htree hreports' (hpending ▸ hitems) (hpending ▸ hfull) hrest
  obtain ⟨s', hrun⟩ := hforM
  refine ⟨s', ?_⟩
  rw [addLines_eq, EStateM.run_bind, hrun]

theorem tree_refine_congr {s' : Session} (htree : s.tree = s'.tree) (hreports : s.progress.Reports)
    (hreports' : s'.progress.Reports) :
    (s.after [.refine]).tree = (s'.after [.refine]).tree := by
  have hsweep := Pass.Blind.sweep.mapState_eq s.pass s'.pass htree hreports hreports'
  simp only [after, Call.step, run_refine, Step.state_mapState]
  rw [← Step.state_mapState Pass.tree, hsweep, Step.state_mapState]

theorem exists_run_refine (h : s.tree.Comprises ends below) (hreports : s.progress.Reports) :
    refine.run s = .ok () (s.after [.refine]) := by
  obtain ⟨below', pass', -, hsweep, -⟩ :=
    Pass.run_sweep (show s.pass.tree.Comprises ends below from h) hreports
  rw [after, after, Call.step, run_refine, hsweep]
  rfl

end Session

namespace Options

def session (options : Options) : Session :=
  { pending := { capacity := options.pendingCapacity }
    progress := { enabled := options.reportProgress }
    keepsNotes := options.verbose }

theorem comprises_session (options : Options) : options.session.tree.Comprises 0 .nil :=
  Tree.comprises_empty

theorem reports_session (options : Options) : options.session.progress.Reports :=
  fun _ => show (100 : Int) ≠ 0 by decide

def lines (options : Options) (input : List UInt8) : List String :=
  Text.Lines.ofBytes options.lineLength input

def grown (options : Options) (input : List UInt8) : Session :=
  options.session.after ((options.lines input).map .addLine)

def refined (options : Options) (input : List UInt8) : Session :=
  (options.grown input).after [.refine]

/-- There is a masked address in the input and no room for two pending tokens. -/
def Overflows (options : Options) (input : List UInt8) : Prop :=
  options.pendingCapacity < 2 ∧ ∃ line ∈ options.lines input, Line.HasMasked line

/-- The terminal draws the trees that are to be drawn, if any are. -/
def Drawn (terminal : Terminal) (options : Options) (input : List UInt8) : Prop :=
  options.pretty = true →
    (options.initialTree = true → terminal.Draws (options.grown input).tree) ∧
      terminal.Draws (options.refined input).tree

end Options

namespace Run

variable {terminal : Terminal} {options : Options} {input : List UInt8} {run : Run}
variable {ends : Int} {below : Slots}

theorem run_onSession {α : Type} (step : Step Session α) (run : Run) :
    (onSession step).run run =
      Step.mapState (fun session => { run with session }) (step.run run.session) := rfl

def printing (terminal : Terminal) (options : Options) : Step Run Unit := do
  if options.initialTree then print terminal options
  onSession Session.refine
  print terminal options

theorem analyze_eq (terminal : Terminal) (options : Options) (input : List UInt8) :
    analyze terminal options input = (do
      let _ ← onSession (Session.addLines (options.lines input))
      printing terminal options) := rfl

theorem run_print (terminal : Terminal) (options : Options) (run : Run)
    (h : run.session.tree.Comprises ends below) (hreports : run.session.progress.Reports) :
    ∃ progress, progress.Reports ∧
      ((options.pretty = true → terminal.Draws run.session.tree) → ∃ printed,
        (print terminal options).run run = .ok () { session := { run.session with progress }, printed }) ∧
      (¬(options.pretty = true → terminal.Draws run.session.tree) → ∃ fault,
        (print terminal options).run run =
          .error fault { run with session := { run.session with progress } }) := by
  cases hpretty : options.pretty with
  | true =>
      obtain ⟨progress, hreports', hdraws, hnot⟩ := Session.run_drawing h hreports terminal
      refine ⟨progress, hreports', fun h => ?_, fun h => ?_⟩
      · obtain ⟨lines, hrun⟩ := hdraws (h rfl)
        refine ⟨run.printed ++ lines, ?_⟩
        rw [print, EStateM.run_bind, run_onSession, if_pos hpretty, hrun]
        rfl
      · obtain ⟨fault, hrun⟩ := hnot fun hdraws => h fun _ => hdraws
        refine ⟨fault, ?_⟩
        rw [print, EStateM.run_bind, run_onSession, if_pos hpretty, hrun]
        rfl
  | false =>
      obtain ⟨lines, hlines⟩ := h.exists_dump
      have hrun := Session.run_dump h hreports hlines
      refine ⟨(Progress.counted "print")^[run.session.tree.live] run.session.progress,
        (Progress.reports_iterate_counted _ _ _).mpr hreports,
        fun _ => ⟨run.printed ++ lines.map terminal.echo, ?_⟩,
        fun h => absurd (fun hfalse => by cases hfalse) h⟩
      rw [print, EStateM.run_bind, run_onSession, if_neg (by rw [hpretty]; decide), EStateM.run_bind, hrun]
      rfl

/-- Refining never fails where reports go through, so it depends on the tree alone whether a run comes to its
end from there. -/
theorem run_refine_print (terminal : Terminal) (options : Options) (run : Run)
    (h : run.session.tree.Comprises ends below) (hreports : run.session.progress.Reports) :
    (∃ run', (do onSession Session.refine; print terminal options : Step Run Unit).run run = .ok () run') ↔
      (options.pretty = true → terminal.Draws (run.session.after [.refine]).tree) := by
  obtain ⟨ends', below', htree⟩ := Session.after_comprises h [.refine]
  have hreports' := (Session.reports_step .refine run.session).mpr hreports
  obtain ⟨progress, -, hdraws, hnot⟩ :=
    run_print terminal options { run with session := run.session.after [.refine] } htree hreports'
  rw [EStateM.run_bind, run_onSession, Session.exists_run_refine h hreports]
  constructor
  · rintro ⟨run', hrun⟩
    by_contra hnotDrawn
    obtain ⟨fault, herror⟩ := hnot hnotDrawn
    exact nomatch herror.symm.trans hrun
  · intro h
    obtain ⟨printed, hrun⟩ := hdraws h
    exact ⟨_, hrun⟩

theorem run_analyze_of_not (h : ¬options.Overflows input) :
    (∃ run', (analyze terminal options input).run { session := options.session } = .ok () run') ↔
      options.Drawn terminal input := by
  obtain ⟨ends, below, htree⟩ :=
    Session.after_comprises options.comprises_session ((options.lines input).map .addLine)
  have hgrown := (Session.reports_after options.session ((options.lines input).map .addLine)).mpr
    options.reports_session
  have hroom : 2 ≤ options.pendingCapacity ∨ ∀ line ∈ options.lines input, ¬Line.HasMasked line := by
    rw [Options.Overflows, not_and_or, not_lt] at h
    exact h.imp_right fun hnone line hline hmasked => hnone ⟨line, hline, hmasked⟩
  have hlines :=
    Session.run_addLines_of_room options.comprises_session options.reports_session rfl hroom
  have hrun : (analyze terminal options input).run { session := options.session } =
      (printing terminal options).run { session := options.grown input } := by
    rw [analyze_eq, EStateM.run_bind, run_onSession, hlines]
    rfl
  rw [hrun, printing, Options.Drawn]
  -- printing the tree changes the progress only, so both refinements leave the same tree
  cases hinitial : options.initialTree with
  | false =>
      have hrefined := run_refine_print terminal options { session := options.grown input } htree hgrown
      simpa [Options.refined] using hrefined
  | true =>
      obtain ⟨progress, hreports', hdraws, hnot⟩ :=
        run_print terminal options { session := options.grown input } htree hgrown
      simp only [if_true, EStateM.run_bind]
      by_cases hdrawn : options.pretty = true → terminal.Draws (options.grown input).tree
      · obtain ⟨printed, hprint⟩ := hdraws hdrawn
        have hcongr : (Session.after { options.grown input with progress } [.refine]).tree =
            (options.refined input).tree := Session.tree_refine_congr rfl hreports' hgrown
        have hrefined := run_refine_print terminal options
          { session := { options.grown input with progress }, printed } htree hreports'
        rw [hcongr] at hrefined
        rw [hprint]
        refine Iff.trans hrefined ⟨fun h hpretty => ⟨fun _ => hdrawn hpretty, h hpretty⟩, ?_⟩
        exact fun h hpretty => (h hpretty).2
      · obtain ⟨fault, hprint⟩ := hnot hdrawn
        rw [hprint]
        refine iff_of_false ?_ fun h => hdrawn fun hpretty => (h hpretty).1 trivial
        rintro ⟨run', herror⟩
        cases herror

theorem run_analyze_of_overflows (h : options.Overflows input) :
    ∃ session, (analyze terminal options input).run { session := options.session } =
      .error (.overflow options.pendingCapacity) { session } := by
  obtain ⟨session, hlines⟩ :=
    Session.run_addLines_of_full options.comprises_session options.reports_session rfl h.1 h.2
  refine ⟨session, ?_⟩
  rw [analyze_eq, EStateM.run_bind, run_onSession, hlines]
  rfl

end Run

variable {terminal : Terminal} {options : Options} {input : List UInt8} {run : Run} {fault : Fault}

theorem analyze_of_ok
    (h : (Run.analyze terminal options input).run { session := options.session } = .ok () run) :
    (analyze terminal options input).exitCode = 0 := by
  rw [Options.session] at h
  simp only [analyze, h]

theorem analyze_of_error
    (h : (Run.analyze terminal options input).run { session := options.session } = .error fault run) :
    (analyze terminal options input).exitCode = 1 ∧
      (analyze terminal options input).output = run.printed.toList := by
  rw [Options.session] at h
  simp only [analyze, h, Step.state, and_self]

/-- A run exits with an error before anything is printed if and only if there is an overflow, and without an
error otherwise, exactly if the terminal draws the trees that it is to draw. -/
theorem exits_by_overflow_iff (terminal : Terminal) (options : Options) (input : List UInt8) :
    (((analyze terminal options input).exitCode = 1 ∧ (analyze terminal options input).output = [] ↔
        options.Overflows input) ∧
      (¬options.Overflows input → (analyze terminal options input).exitCode = 0)) ↔
    (¬options.Overflows input → options.Drawn terminal input) := by
  by_cases hover : options.Overflows input
  · obtain ⟨session, hrun⟩ := Run.run_analyze_of_overflows hover
    have hexit := analyze_of_error hrun
    exact iff_of_true ⟨iff_of_true hexit hover, absurd hover⟩ (absurd hover)
  · rw [imp_iff_right hover, imp_iff_right hover, ← Run.run_analyze_of_not hover]
    cases hrun : (Run.analyze terminal options input).run { session := options.session } with
    | ok _ run =>
        have hexit := analyze_of_ok hrun
        refine iff_of_true ⟨iff_of_false (fun h => ?_) hover, hexit⟩ ⟨run, rfl⟩
        rw [hexit] at h
        exact absurd h.1 (by decide)
    | error fault run =>
        obtain ⟨hexit, -⟩ := analyze_of_error hrun
        refine iff_of_false (fun h => ?_) ?_
        · rw [hexit] at h
          exact absurd h.2 (by decide)
        · rintro ⟨run', hok⟩
          cases hok

/-- Without room for two pending tokens a session refuses exactly the lines with masked addresses, whatever
it has been asked to do before. That a run exits with an error before anything is printed if and only if a
line is refused, and without an error otherwise, is true exactly where the terminal draws the trees that it is
to draw, whatever else the terminal does. -/
theorem refusals_and_exits (terminal : Terminal) (s : Session) (calls : List Session.Call) (options : Options)
    (input : List UInt8) :
    ((s.cleared.after calls).pending.items = [] → (s.cleared.after calls).pending.capacity < 2 →
      s.progress.Reports → (s.cleared.after calls).RefusesMasked) ∧
    ((((analyze terminal options input).exitCode = 1 ∧ (analyze terminal options input).output = [] ↔
        options.Overflows input) ∧
      (¬options.Overflows input → (analyze terminal options input).exitCode = 0)) ↔
    (¬options.Overflows input → options.Drawn terminal input)) := by
  refine ⟨fun hitems hfull hreports => ?_, exits_by_overflow_iff terminal options input⟩
  obtain ⟨ends, below, htree⟩ :=
    Session.after_comprises (s := s.cleared) Tree.comprises_empty calls
  exact Session.refusesMasked htree ((Session.reports_after s.cleared calls).mpr hreports) hitems hfull

/-- A session with room for one pending token has taken in a line without masked addresses. A run with as much
room dumps its trees, so nothing is to be drawn, and overflows at the second word of its line. -/
theorem refusals_and_exits_of_one_place :
    ((Session.cleared { pending := { capacity := 1 } }).after [.addLine "net up"]).pending.items = [] ∧
      ((Session.cleared { pending := { capacity := 1 } }).after
        [.addLine "net up"]).pending.capacity < 2 ∧
      ({} : Progress).Reports ∧
      ((Session.cleared { pending := { capacity := 1 } }).after [.addLine "net up"]).RefusesMasked ∧
      Options.Overflows { pendingCapacity := 1 } "a 1.2.3.4/5\n".toUTF8.toList ∧
      (analyze {} { pendingCapacity := 1 } "a 1.2.3.4/5\n".toUTF8.toList).exitCode = 1 ∧
      (analyze {} { pendingCapacity := 1 } "a 1.2.3.4/5\n".toUTF8.toList).output = [] := by
  have hitems : ((Session.cleared { pending := { capacity := 1 } }).after
      [.addLine "net up"]).pending.items = [] := by
    decide +kernel
  have hfull : ((Session.cleared { pending := { capacity := 1 } }).after
      [.addLine "net up"]).pending.capacity < 2 := by
    decide +kernel
  have hreports : ({} : Progress).Reports := fun henabled => by cases henabled
  have hover : Options.Overflows { pendingCapacity := 1 } "a 1.2.3.4/5\n".toUTF8.toList := by
    have hlines : Options.lines { pendingCapacity := 1 } "a 1.2.3.4/5\n".toUTF8.toList = ["a 1.2.3.4/5"] := by
      decide +kernel
    have hwords : Line.words "a 1.2.3.4/5" = ["a".toList, "1.2.3.4/5".toList] := by decide +kernel
    refine ⟨by decide, "a 1.2.3.4/5", hlines ▸ List.mem_singleton.mpr rfl, "1.2.3.4/5".toList, ?_, ?_⟩
    · rw [hwords]
      exact List.mem_cons_of_mem _ (List.mem_singleton.mpr rfl)
    · exact Shape.isMaskedAddress_iff.mp (by decide +kernel)
  obtain ⟨hrefuses, hexits⟩ := refusals_and_exits {} { pending := { capacity := 1 } } [.addLine "net up"]
    { pendingCapacity := 1 } "a 1.2.3.4/5\n".toUTF8.toList
  have hexit := (hexits.mpr fun hnot => absurd hover hnot).1.mpr hover
  exact ⟨hitems, hfull, hreports, hrefuses hitems hfull hreports, hover, hexit⟩

/-- The terminal takes a label that begins with a bracket and a slash for a tag which closes nothing, and so
does not draw the tree of two lines whose middle words are such a label when they stand side by side. -/
theorem not_exits_by_overflow :
    let terminal : Terminal :=
      { draw := fun outline =>
          if "[/a | b]" ∈ outline.rows.map Prod.snd then .error (.refused "closing tag has nothing to close")
          else .ok (outline.rows.map Prod.snd) }
    let input := "x [/a e\nx b] e\n".toUTF8.toList
    ¬(((analyze terminal { pretty := true } input).exitCode = 1 ∧
          (analyze terminal { pretty := true } input).output = [] ↔
        Options.Overflows { pretty := true } input) ∧
      (¬Options.Overflows { pretty := true } input →
        (analyze terminal { pretty := true } input).exitCode = 0)) := by
  intro terminal input
  rw [exits_by_overflow_iff]
  intro h
  have hroom : ¬Options.Overflows { pretty := true } input := fun hover => absurd hover.1 (by decide)
  have hlabels : ((Options.grown { pretty := true } input).tree.outline terminal).map
        (fun outline => outline.rows.map Prod.snd) =
      .ok ["[ROOT]", "x {2}", "[/a | b]", "e {2} [dim]\\[nterm 2][/]"] := by
    decide +kernel
  obtain ⟨outline, lines, houtline, hlines⟩ := (h hroom rfl).1 rfl
  rw [houtline] at hlabels
  have hrows : outline.rows.map Prod.snd = _ := Except.ok.inj hlabels
  have hrefused : terminal.draw outline = .error (.refused "closing tag has nothing to close") := by
    refine if_pos ?_
    rw [hrows]
    simp
  cases hrefused.symm.trans hlines

end LogMining
