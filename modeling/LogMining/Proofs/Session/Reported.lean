import LogMining.Proofs.Progress.Totals
import LogMining.Proofs.Session.Alone

/-!
# What a session reports

A session is asked for lines to be taken in, for its tree to be refined, and for dumps and outlines, in any
order. What it answers and the tree that it leaves depend on the tree before and not on its progress, which
does no more than count: a unit for a line, and one for each node that a sweep has left or that is rendered.
-/

namespace LogMining

namespace Session

/-- What a session may be asked for. -/
inductive Request where
  | addLine (line : String)
  | refine
  | dump
  | outline
deriving DecidableEq, Repr

inductive Answer where
  | ended (id : NodeId)
  | refined
  | dumped (lines : List String)
  | outlined (outline : Outline)

namespace Request

def serve (terminal : Terminal) : Request → Step Session Answer
  | addLine line => do return .ended (← Session.addLine line)
  | refine => do
    Session.refine
    return .refined
  | dump => do return .dumped (← Session.dump)
  | outline => do return .outlined (← Session.outline terminal)

/-- Does the same with a tree alone. -/
def serveTree (terminal : Terminal) : Request → Step Tree Answer
  | addLine line => do return .ended (← Tree.insertTokens (Line.tokens line))
  | refine => do
    Tree.carryOut .refine
    return .refined
  | dump => do return .dumped (← Step.query Tree.dump)
  | outline => do return .outlined (← Step.query (Tree.outline terminal))

def phase : Request → String
  | addLine _ => "reading"
  | refine => "squashing"
  | dump => "print"
  | outline => "print"

/-- The units that are reported of a request that leaves the given tree. The root is not reported when a tree
is refined, and not in an outline. -/
def units (tree : Tree) : Request → Nat
  | addLine _ => 1
  | refine => tree.live - 1
  | dump => tree.live
  | outline => tree.live - 1

end Request

def course (terminal : Terminal) (s : Session) : List Request → List (Request × Tree)
  | [] => []
  | request :: requests =>
    let next := Step.state ((request.serve terminal).run s)
    (request, next.tree) :: next.course terminal requests

/-- What is reported in a course, one request after the other. -/
def reported (course : List (Request × Tree)) : List (String × Nat) :=
  course.map fun (request, tree) => (request.phase, request.units tree)

variable {terminal : Terminal} {s : Session} {ends : Int} {below : Slots}

theorem exists_serve (h : s.tree.Comprises ends below) (hreports : s.progress.Reports)
    (hitems : s.pending.items = []) (hroom : 2 ≤ s.pending.capacity) (request : Request) :
    ∃ answer s' ends' below', (request.serve terminal).run s = .ok answer s' ∧
      (request.serveTree terminal).run s.tree = .ok answer s'.tree ∧ s'.tree.Comprises ends' below' ∧
      s'.pending = s.pending ∧
      s'.progress = (Progress.counted request.phase)^[request.units s'.tree] s.progress := by
  cases request with
  | addLine line =>
      obtain ⟨⟨ends', below', htree⟩, -⟩ := addLine_comprises h line
      have hprogress := progress_addLine line s
      obtain ⟨id, tree, progress, hinsert, hrun⟩ :=
        run_addLine_of_room h hreports hitems line (.inl hroom)
      rw [hrun] at htree hprogress
      refine ⟨.ended id, _, ends', below', ?_, ?_, htree, rfl, hprogress⟩
      · rw [Request.serve, EStateM.run_bind, hrun]
        rfl
      · rw [Request.serveTree, EStateM.run_bind, hinsert]
        rfl
  | refine =>
      obtain ⟨below', pass', -, hsweep, htree, hprogress⟩ :=
        Pass.run_sweep (show s.pass.tree.Comprises ends below from h) hreports
      -- what is left of a refinement where nothing but the tree is looked at
      have halone := run_carryOut h hreports hitems hroom .refine
      rw [Call.step, run_refine, hsweep] at halone
      have hunits : pass'.tree.live - 1 = below'.ids.length := by rw [htree.live_eq, Nat.add_one_sub_one]
      refine ⟨.refined, { s with
        tree := pass'.tree, progress := pass'.progress, nodesBefore := some s.tree.live,
        tally := pass'.tally, keepsNotes := pass'.keepsNotes, notes := pass'.notes }, ends, below',
        ?_, ?_, htree, rfl, ?_⟩
      · rw [Request.serve, EStateM.run_bind, run_refine, hsweep]
        rfl
      · rw [Request.serveTree, EStateM.run_bind, halone]
        rfl
      · rw [Request.phase, Request.units, hunits]
        exact hprogress
  | dump =>
      obtain ⟨lines, hlines⟩ := h.exists_dump
      refine ⟨.dumped lines, { s with progress := (Progress.counted "print")^[s.tree.live] s.progress },
        ends, below, ?_, ?_, h, rfl, rfl⟩
      · rw [Request.serve, EStateM.run_bind, run_dump h hreports hlines]
        rfl
      · rw [Request.serveTree, EStateM.run_bind, Step.run_query, hlines]
        rfl
  | outline =>
      obtain ⟨drawn, hdrawn⟩ := h.exists_outline terminal
      refine ⟨.outlined drawn,
        { s with progress := (Progress.counted "print")^[s.tree.live - 1] s.progress },
        ends, below, ?_, ?_, h, rfl, rfl⟩
      · rw [Request.serve, EStateM.run_bind, run_outline h hreports hdrawn]
        rfl
      · rw [Request.serveTree, EStateM.run_bind, Step.run_query, hdrawn]
        rfl

theorem exists_mapM_serve (terminal : Terminal) (h : s.tree.Comprises ends below) (hreports : s.progress.Reports)
    (hitems : s.pending.items = []) (hroom : 2 ≤ s.pending.capacity) (requests : List Request) :
    ∃ answers s', (requests.mapM (Request.serve terminal)).run s = .ok answers s' ∧
      (requests.mapM (Request.serveTree terminal)).run s.tree = .ok answers s'.tree ∧
      s'.progress = s.progress.countAll (reported (s.course terminal requests)) := by
  induction requests generalizing s ends below with
  | nil => exact ⟨[], s, rfl, rfl, rfl⟩
  | cons request requests ih =>
      obtain ⟨answer, next, ends', below', hserve, htree, hnext, hpending, hprogress⟩ :=
        exists_serve h hreports hitems hroom request
      have hreports' : next.progress.Reports :=
        hprogress ▸ (Progress.reports_iterate_counted _ _ _).mpr hreports
      obtain ⟨answers, s', hserves, htrees, hcount⟩ :=
        ih hnext hreports' (hpending ▸ hitems) (hpending ▸ hroom)
      refine ⟨answer :: answers, s', ?_, ?_, ?_⟩
      · rw [List.mapM_cons, EStateM.run_bind, hserve]
        simp only [EStateM.run_bind, hserves, EStateM.run_pure]
      · rw [List.mapM_cons, EStateM.run_bind, htree]
        simp only [EStateM.run_bind, htrees, EStateM.run_pure]
      · rw [hcount, course, hserve, hprogress]
        rfl

def start (s : Session) (progress : Progress) : Session := { s.cleared with progress }

/-- In a session that has room for two pending tokens, and on every terminal, the answers and the tree are the same
whether progress is enabled or not, however often the display is brought up to date. If it is enabled, the total
of a label is what was reported of it, and there is none if that is nothing. -/
theorem serve_with_or_without_progress (terminal : Terminal) (s : Session) (refreshEvery refreshEvery' : Int)
    (hrefresh : refreshEvery ≠ 0) (hroom : 2 ≤ s.pending.capacity) (requests : List Request) :
    ∃ answers shown hidden,
      (requests.mapM (Request.serve terminal)).run (s.start { enabled := true, refreshEvery }) = .ok answers shown ∧
      (requests.mapM (Request.serve terminal)).run (s.start { enabled := false, refreshEvery := refreshEvery' }) =
        .ok answers hidden ∧
      shown.tree = hidden.tree ∧ (shown.finish.progress.totals.map Prod.fst).Nodup ∧
      ∀ label, shown.finish.progress.totals.lookup label =
        let units := Progress.unitsOf label
          (reported ((s.start { enabled := true, refreshEvery }).course terminal requests))
        if units = 0 then none else some units := by
  obtain ⟨answers, shown, hserve, htree, hprogress⟩ :=
    exists_mapM_serve (s := s.start { enabled := true, refreshEvery }) terminal Tree.comprises_empty
      (fun _ => hrefresh) rfl hroom requests
  obtain ⟨answers', hidden, hserve', htree', -⟩ :=
    exists_mapM_serve (s := s.start { enabled := false, refreshEvery := refreshEvery' }) terminal
      Tree.comprises_empty (fun henabled => by cases henabled) rfl hroom requests
  have hsame : EStateM.Result.ok answers shown.tree = .ok answers' hidden.tree := htree.symm.trans htree'
  injection hsame with hanswers htrees
  subst hanswers
  refine ⟨answers, shown, hidden, hserve, hserve', htrees, Progress.nodup_totals _, fun label => ?_⟩
  rw [finish, hprogress]
  exact Progress.lookup_totals_countAll refreshEvery label _

/-- Two nodes are below the root when the tree is refined and dumped, and a third one when it is outlined. -/
theorem serve_with_or_without_progress_of_six_requests :
    let requests : List Request := [.addLine "a 1", .addLine "b 1", .refine, .dump, .addLine "c", .outline]
    let s : Session := { pending := { capacity := 2 } }
    2 ≤ s.pending.capacity ∧ (1 : Int) ≠ 0 ∧
      ∃ answers shown hidden,
        (requests.mapM (Request.serve {})).run (s.start { enabled := true, refreshEvery := 1 }) =
          .ok answers shown ∧
        (requests.mapM (Request.serve {})).run (s.start { enabled := false, refreshEvery := 100 }) =
          .ok answers hidden ∧
        shown.tree = hidden.tree ∧
        ["reading", "squashing", "print", "done"].map
          (fun label => shown.finish.progress.totals.lookup label) = [some 3, some 2, some 6, none] := by
  intro requests s
  have hunits : ["reading", "squashing", "print", "done"].map (fun label => Progress.unitsOf label
      (reported ((s.start { enabled := true, refreshEvery := 1 }).course {} requests))) = [3, 2, 6, 0] := by
    decide +kernel
  simp only [List.map_cons, List.map_nil, List.cons.injEq, and_true] at hunits
  obtain ⟨answers, shown, hidden, hserve, hserve', htree, -, hlookup⟩ :=
    serve_with_or_without_progress {} s 1 100 (by decide) (by decide) requests
  refine ⟨by decide, by decide, answers, shown, hidden, hserve, hserve', htree, ?_⟩
  simp only [List.map_cons, List.map_nil, hlookup, hunits]
  decide

end Session

end LogMining
