import LogMining.Proofs.Accounts.Balance
import LogMining.Proofs.Refine.Books
import LogMining.Proofs.Refine.Parts

/-!
# The course of a sweep through the slots

`Slots.Course` relates a chain to what a sweep leaves of it, like `Slots.Sweeps`, and to what happens in the
sweep. Every slot that is left is visited once. Each join takes a slot away, with the line ends of the slot
above it, and each split adds the slots of a front and a back, at which no line ends.
-/

namespace LogMining

namespace Pass

def visited (events : List Event) : List NodeId :=
  events.filterMap fun
    | .visit id => some id
    | _ => none

def lostEnds (events : List Event) : List Int :=
  events.filterMap fun
    | .join _ lost => some lost
    | _ => none

def splitOff (events : List Event) : List Affixes :=
  events.filterMap fun
    | .split _ a => some a
    | _ => none

theorem visited_append (events events' : List Event) :
    visited (events ++ events') = visited events ++ visited events' := List.filterMap_append

theorem lostEnds_append (events events' : List Event) :
    lostEnds (events ++ events') = lostEnds events ++ lostEnds events' := List.filterMap_append

theorem splitOff_append (events events' : List Event) :
    splitOff (events ++ events') = splitOff events ++ splitOff events' := List.filterMap_append

theorem visited_cons_visit (id : NodeId) (events : List Event) :
    visited (.visit id :: events) = id :: visited events := rfl

theorem lostEnds_cons_visit (id : NodeId) (events : List Event) :
    lostEnds (.visit id :: events) = lostEnds events := rfl

theorem splitOff_cons_visit (id : NodeId) (events : List Event) :
    splitOff (.visit id :: events) = splitOff events := rfl

theorem entries_eq (events : List Event) :
    entries events = ((lostEnds events).length, (splitOff events).length,
      ((splitOff events).map Affixes.created).sum) := by
  induction events with
  | nil => rfl
  | cons event events ih =>
      rw [entries, ih]
      cases event with
      | visit id => simp [Event.entry, lostEnds, splitOff]
      | join id lost => simp [Event.entry, lostEnds, splitOff, Nat.add_comm]
      | split id a => simp [Event.entry, lostEnds, splitOff, Nat.add_comm]

end Pass

namespace Slots

open Pass (Event visited lostEnds splitOff)

variable {isChoice : Bool} {id fresh : Nat} {values values' values'' : List Token} {ends ends' ends'' mid : Int}
  {below below' below'' beside slots slots' : Slots} {t : Token} {events : List Event}

/-- The line ends that a slot gives up, one after the other, when it is joined with those below it. -/
def lost : List Token → Int → Slots → List Int
  | _, _, nil => []
  | values, ends, slot id more mid below beside =>
    match joint? values (slot id more mid below beside) with
    | none => []
    | some (t, _) => ends :: lost [t] mid below

theorem lost_of_none (ends : Int) (h : joint? values below = none) : lost values ends below = [] := by
  cases below with
  | nil => rfl
  | slot id more mid below beside => simp only [lost, h]

theorem lost_of_some (ends : Int) (h : joint? values below = some (t, mid, below')) :
    lost values ends below = ends :: lost [t] mid below' := by
  obtain ⟨t', u, id, rfl, rfl, -⟩ := joint?_eq_some h
  simp only [lost, h]

theorem Joined.length_lost (h : Joined values ends below values' ends' below') :
    below'.ids.length + (lost values ends below).length = below.ids.length := by
  induction h with
  | done hjoint =>
      rw [lost_of_none _ hjoint]
      rfl
  | step hjoint _ ih =>
      rw [lost_of_some _ hjoint]
      obtain ⟨t, u, id, rfl, rfl, -⟩ := joint?_eq_some hjoint
      simp only [ids_slot, ids_nil, List.append_nil, List.length_cons]
      omega

theorem Joined.endsSum_add_sum (h : Joined values ends below values' ends' below') :
    ends' + below'.endsSum + (lost values ends below).sum = ends + below.endsSum := by
  induction h with
  | done hjoint =>
      rw [lost_of_none _ hjoint]
      exact Int.add_zero _
  | step hjoint _ ih =>
      rw [lost_of_some _ hjoint]
      obtain ⟨t, u, id, rfl, rfl, -⟩ := joint?_eq_some hjoint
      simp only [endsSum, List.sum_cons]
      omega

/-- The line ends that a slot gives up before its values are looked at. It is not joined if there is a choice. -/
def given (isChoice : Bool) (values : List Token) (ends : Int) (below : Slots) : List Int :=
  if isChoice then [] else lost values ends below

def joins (isChoice : Bool) (id : Nat) (values : List Token) (ends : Int) (below : Slots) : List Event :=
  (given isChoice values ends below).map (.join id)

def splits (id : Nat) (values : List Token) : List Event :=
  ((Token.affixes? values).map (.split id)).toList

/-- A sweep through the first chain leaves the second one, and this is what happens in it. -/
inductive Course : Bool → Slots → List Event → Slots → Prop
  | nil {isChoice : Bool} : Course isChoice nil [] nil
  | slot {isChoice : Bool} {id fresh : Nat} {values values' values'' : List Token}
      {ends ends' ends'' : Int} {below below' below'' swept beside beside' : Slots}
      {events events' : List Event}
      (hprepared : Prepared isChoice values ends below values' ends' below')
      (hfactored : (slot id values' ends' below' beside).factored fresh =
        slot id values'' ends'' below'' beside)
      (hbelow : Course below''.hasChoice below'' events swept)
      (hbeside : Course isChoice beside events' beside') :
      Course isChoice (slot id values ends below beside)
        (.visit id :: (joins isChoice id values ends below ++ splits id values' ++ (events ++ events')))
        (slot id values'' ends'' swept beside')

theorem Course.sweeps (h : Course isChoice slots events slots') : Sweeps isChoice slots slots' := by
  induction h with
  | nil => exact .nil
  | slot hprepared hfactored _ _ ihBelow ihBeside => exact .slot hprepared hfactored ihBelow ihBeside

section Events

theorem visited_joins : visited (joins isChoice id values ends below) = [] := by
  rw [joins, visited, List.filterMap_map]
  exact List.filterMap_eq_nil_iff.mpr fun _ _ => rfl

theorem visited_splits : visited (splits id values) = [] := by
  rw [splits]
  cases Token.affixes? values <;> rfl

theorem lostEnds_joins :
    lostEnds (joins isChoice id values ends below) = given isChoice values ends below := by
  rw [joins, lostEnds, List.filterMap_map]
  exact List.filterMap_some

theorem lostEnds_splits : lostEnds (splits id values) = [] := by
  rw [splits]
  cases Token.affixes? values <;> rfl

theorem splitOff_joins : splitOff (joins isChoice id values ends below) = [] := by
  rw [joins, splitOff, List.filterMap_map]
  exact List.filterMap_eq_nil_iff.mpr fun _ _ => rfl

theorem splitOff_splits : splitOff (splits id values) = (Token.affixes? values).toList := by
  rw [splits]
  cases Token.affixes? values <;> rfl

end Events

/-- Every slot that a sweep leaves has been visited, and no other one, in the order of a walk. -/
theorem Course.visited_eq (h : Course isChoice slots events slots') :
    visited events = slots'.ids.map Int.ofNat := by
  induction h with
  | nil => rfl
  | slot _ _ _ _ ihBelow ihBeside =>
      simp only [Pass.visited_cons_visit, Pass.visited_append, visited_joins, visited_splits, ihBelow, ihBeside,
        List.nil_append, ids_slot, List.map_cons, List.map_append]
      rfl

theorem length_ids_stack (fresh : Nat) (more : List (List Token)) (below : Slots) :
    (stack fresh more below).ids.length = more.length + below.ids.length := by
  induction more generalizing fresh with
  | nil => rw [stack, List.length_nil, Nat.zero_add]
  | cons values more ih =>
      rw [stack, ids_slot, ids_nil, List.append_nil, List.length_cons, List.length_cons, ih]
      omega

theorem endsSum_stack (fresh : Nat) (more : List (List Token)) (below : Slots) :
    (stack fresh more below).endsSum = below.endsSum := by
  induction more generalizing fresh with
  | nil => rfl
  | cons values more ih =>
      rw [stack, endsSum, ih]
      simp only [endsSum]
      omega

theorem length_pieces (values : List Token) :
    (Token.pieces values).length = ((Token.affixes? values).toList.map Affixes.created).sum + 1 := by
  cases ha : Token.affixes? values with
  | none =>
      rw [Token.pieces_of_none ha]
      rfl
  | some a =>
      obtain ⟨t, u, more, rfl, -⟩ := Token.eq_of_affixes? ha
      rw [Token.pieces_of_some ha]
      simp only [Affixes.pieces, Affixes.created, List.length_append, List.length_singleton, Option.toList_some,
        List.map_cons, List.map_nil, List.sum_cons, List.sum_nil]
      split <;> split <;> rfl

theorem factored_counts
    (h : (slot id values ends below beside).factored fresh = slot id values'' ends'' below'' beside) :
    ends'' = ends ∧ below''.endsSum = below.endsSum ∧
      below''.ids.length = below.ids.length + ((Token.affixes? values).toList.map Affixes.created).sum := by
  obtain ⟨more, hpieces, rfl, rfl⟩ := eq_stack_of_factored h
  have hlength := length_pieces values
  rw [hpieces, List.length_cons, Nat.add_right_cancel_iff] at hlength
  refine ⟨rfl, endsSum_stack fresh more below, ?_⟩
  rw [length_ids_stack, hlength, Nat.add_comm]

theorem Prepared.counts (h : Prepared isChoice values ends below values' ends' below') :
    below'.ids.length + (given isChoice values ends below).length = below.ids.length ∧
      ends' + below'.endsSum + (given isChoice values ends below).sum = ends + below.endsSum := by
  cases h with
  | choice => exact ⟨rfl, Int.add_zero _⟩
  | only h => exact ⟨h.length_lost, h.endsSum_add_sum⟩

theorem Course.length_eq (h : Course isChoice slots events slots') :
    slots'.ids.length + (lostEnds events).length =
      slots.ids.length + ((splitOff events).map Affixes.created).sum := by
  induction h with
  | nil => rfl
  | slot hprepared hfactored _ _ ihBelow ihBeside =>
      obtain ⟨hjoined, -⟩ := hprepared.counts
      obtain ⟨-, -, hsplit⟩ := factored_counts hfactored
      simp only [Pass.lostEnds_cons_visit, Pass.splitOff_cons_visit, Pass.lostEnds_append, Pass.splitOff_append,
        lostEnds_joins, lostEnds_splits, splitOff_joins, splitOff_splits, List.nil_append, List.append_nil,
        List.length_append, List.map_append, List.sum_append, ids_slot, List.length_cons]
      omega

/-- Line ends are lost in joins only. -/
theorem Course.endsSum_eq (h : Course isChoice slots events slots') :
    slots'.endsSum + (lostEnds events).sum = slots.endsSum := by
  induction h with
  | nil => rfl
  | slot hprepared hfactored _ _ ihBelow ihBeside =>
      obtain ⟨-, hjoined⟩ := hprepared.counts
      obtain ⟨rfl, hsplit, -⟩ := factored_counts hfactored
      simp only [Pass.lostEnds_cons_visit, Pass.lostEnds_append, lostEnds_joins, lostEnds_splits, List.append_nil,
        List.sum_append, endsSum]
      omega

theorem Course.pos_of_mem_splitOff (h : Course isChoice slots events slots') :
    ∀ a ∈ splitOff events, 0 < a.front ∨ 0 < a.back := by
  induction h with
  | nil => simp [splitOff]
  | slot _ _ _ _ ihBelow ihBeside =>
      intro a ha
      simp only [Pass.splitOff_cons_visit, Pass.splitOff_append, splitOff_joins, splitOff_splits,
        List.nil_append, List.mem_append, Option.mem_toList] at ha
      rcases ha with ha | ha | ha
      · exact Token.pos_of_affixes? ha
      · exact ihBelow a ha
      · exact ihBeside a ha

end Slots

namespace Pass

variable {α : Type} {pass pass' : Pass} {parent : Option NodeId} {id : Nat} {values : List Token} {ends : Int}
  {below beside : Slots}

theorem run_watch {tell : Pass → α → List Event} {step : Step Pass α} {a : α}
    (h : step.run pass = .ok a pass') (events : List Event) :
    (watch tell step).run (pass, events) = .ok a (pass', events ++ tell pass a) := by
  rw [EStateM.run, watch, h]

theorem run_silent_get (pass : Pass) (events : List Event) :
    (silent get).run (pass, events) = .ok pass (pass, events) :=
  congrArg (fun events => EStateM.Result.ok pass (pass, events)) (List.append_nil events)

theorem run_silent_ask (question : Tree → Except Fault α) (pass : Pass) (events : List Event) :
    (silent (ask question)).run (pass, events) =
      match question pass.tree with
      | .ok a => .ok a (pass, events)
      | .error fault => .error fault (pass, events) := by
  simp only [EStateM.run, silent, watch]
  simp only [show ask question pass = _ from run_ask question pass]
  cases question pass.tree with
  | ok a => simp only [List.append_nil]
  | error fault => rfl

theorem run_recordChain_nil (n : Nat) (isChoice : Bool) (pass : Pass) (events : List Event) :
    (recordChain n isChoice none).run (pass, events) = .ok () (pass, events ++ []) := by
  rw [List.append_nil]
  cases n <;> rfl

theorem run_recordWithin {n : Nat} (h : pass.tree.Holds parent (.slot id values ends below beside))
    (hn : below.ids.length < n) :
    ∃ values' ends' below' pass', Slots.Joined values ends below values' ends' below' ∧
      pass.Replaces pass' parent (.slot id values ends below beside)
        (.slot id values' ends' below' beside) ∧
      ∀ events, (recordWithin n id).run (pass, events) =
        .ok () (pass', events ++ (Slots.lost values ends below).map (.join id)) := by
  induction n generalizing pass values ends below with
  | zero => simp at hn
  | succ n ih =>
      cases hjoint : Slots.joint? values below with
      | none =>
          refine ⟨values, ends, below, pass, .done hjoint, Replaces.refl h, fun events => ?_⟩
          rw [recordWithin, EStateM.run_bind, run_watch (run_collapseChild_of_none h hjoint),
            Slots.lost_of_none ends hjoint]
          rfl
      | some joined =>
          obtain ⟨t, mid, below'⟩ := joined
          obtain ⟨pass', hrun, hreplaces⟩ := run_collapseChild_of_some h hjoint
          have hlt := Slots.length_ids_of_joint? hjoint
          obtain ⟨values', ends', below'', pass'', hrest, hreplaces', hrun'⟩ :=
            ih hreplaces.toHolds (by omega)
          refine ⟨values', ends', below'', pass'', .step hjoint hrest, hreplaces.trans hreplaces',
            fun events => ?_⟩
          have htell : joinEvents id pass true = [.join id ends] := by
            simp only [joinEvents, Tree.node_of_get? h.spells.1]
          rw [recordWithin, EStateM.run_bind, run_watch hrun, htell, Slots.lost_of_some ends hjoint,
            List.map_cons]
          have hjoins := hrun' (events ++ [.join id ends])
          rw [List.append_assoc, List.singleton_append] at hjoins
          exact hjoins

theorem run_recordPrepare (isChoice : Bool)
    (h : pass.tree.Holds parent (.slot id values ends below beside)) :
    ∃ values' ends' below' pass', Slots.Prepared isChoice values ends below values' ends' below' ∧
      pass.Replaces pass' parent (.slot id values ends below beside)
        (.slot id values' ends' below' beside) ∧
      ∀ events, (recordPrepare id isChoice).run (pass, events) =
        .ok () (pass', events ++ Slots.joins isChoice id values ends below) := by
  cases isChoice with
  | true =>
      refine ⟨values, ends, below, pass, .choice, Replaces.refl h, fun events => ?_⟩
      exact congrArg (fun events => EStateM.Result.ok () (pass, events)) (List.append_nil events).symm
  | false =>
      obtain ⟨values', ends', below', pass', hjoined, hreplaces, hrun⟩ :=
        run_recordWithin h (Nat.lt_succ_of_le h.below.length_ids_le)
      refine ⟨values', ends', below', pass', .only hjoined, hreplaces, fun events => ?_⟩
      rw [recordPrepare, if_neg Bool.false_ne_true, EStateM.run_bind, run_silent_get]
      exact hrun events

theorem splitEvents_of_holds (h : pass.tree.Holds parent (.slot id values ends below beside)) :
    splitEvents id pass (Token.affixes? values).isSome = Slots.splits id values := by
  cases ha : Token.affixes? values with
  | none =>
      rw [Slots.splits, ha]
      rfl
  | some a =>
      rw [Slots.splits, ha]
      simp only [splitEvents, Option.isSome_some, Tree.node_of_get? h.spells.1, affixes?_eq, ha]
      rfl

theorem exists_run_recordChain (isChoice : Bool)
    (h : pass.tree.Holds parent (.slot id values ends below beside)) (hreports : pass.progress.Reports) :
    ∃ values' ends' below' fresh values'' below'' factored,
      Slots.Prepared isChoice values ends below values' ends' below' ∧
      (Slots.slot id values' ends' below' beside).factored fresh =
        .slot id values'' ends' below'' beside ∧
      below''.weight + 1 ≤ Token.weight values + below.weight ∧
      pass.tree.Replaces factored.tree parent (.slot id values ends below beside)
        (.slot id values'' ends' below'' beside) ∧
      factored.progress = pass.progress.counted "squashing" ∧
      ∀ n events, (recordChain (n + 1) isChoice (some (id : Int))).run (pass, events) =
        (do recordChain n below''.hasChoice below''.first
            recordChain n isChoice beside.first : Step (Pass × List Event) Unit).run
          (factored, events ++ .visit id ::
            (Slots.joins isChoice id values ends below ++ Slots.splits id values')) := by
  obtain ⟨values', ends', below', prepared, hprepared, hreplaces, hprepare⟩ :=
    run_recordPrepare isChoice
      (show { pass with progress := pass.progress.counted "squashing" }.tree.Holds parent _ from h)
  obtain ⟨factored, hfactor, hsplit⟩ := run_factor hreplaces.toHolds
  obtain ⟨values'', below'', hfactored, hweight⟩ :=
    Slots.factored_slot prepared.tree.size id values' ends' below' beside
  rw [hfactored] at hsplit
  have hlimit := hprepared.weight_le
  refine ⟨values', ends', below', prepared.tree.size, values'', below'', factored, hprepared, hfactored,
    by omega, hreplaces.toReplaces.trans hsplit.toReplaces,
    hsplit.progress_eq.trans hreplaces.progress_eq, fun n events => ?_⟩
  rw [recordChain, EStateM.run_bind, run_watch (run_report _ hreports)]
  simp only [EStateM.run_bind, hprepare, run_watch hfactor, splitEvents_of_holds hreplaces.toHolds,
    run_silent_ask, Tree.node_of_get? hsplit.spells.1, below_eq hsplit.spells, elim_first_hasChoice,
    map_first_hasChoice, List.append_assoc, List.nil_append, List.cons_append]

theorem run_recordChain {n : Nat} (isChoice : Bool) {slots : Slots} (hn : slots.weight ≤ n)
    (h : pass.tree.Holds parent slots) (hreports : pass.progress.Reports) :
    ∃ events' slots' pass', Slots.Course isChoice slots events' slots' ∧
      pass.tree.Replaces pass'.tree parent slots slots' ∧
      pass'.progress = (Progress.counted "squashing")^[slots'.ids.length] pass.progress ∧
      ∀ events, (recordChain n isChoice slots.first).run (pass, events) =
        .ok () (pass', events ++ events') := by
  induction n generalizing pass parent isChoice slots with
  | zero =>
      cases slots with
      | nil => exact ⟨[], .nil, pass, .nil, Tree.Replaces.refl h, rfl, run_recordChain_nil 0 isChoice pass⟩
      | slot id values ends below beside =>
          have hpos := Token.weight_pos values
          rw [Slots.weight] at hn
          omega
  | succ n ih =>
      cases slots with
      | nil =>
          exact ⟨[], .nil, pass, .nil, Tree.Replaces.refl h, rfl, run_recordChain_nil (n + 1) isChoice pass⟩
      | slot id values ends below beside =>
          rw [Slots.weight] at hn
          have hpos := Token.weight_pos values
          obtain ⟨values', ends', below', fresh, values'', below'', factored, hprepared, hfactored, hweight,
            hreplaces, hown, hrun⟩ := exists_run_recordChain isChoice h hreports
          have hnode := hreplaces.toHolds
          have hreportsOwn : factored.progress.Reports :=
            hown ▸ (Progress.reports_counted _ _).mpr hreports
          obtain ⟨eventsBelow, swept, lower, hbelow, hlower, hcountBelow, hrunBelow⟩ :=
            ih below''.hasChoice (show below''.weight ≤ n by omega) hnode.below hreportsOwn
          have hreportsBelow : lower.progress.Reports :=
            hcountBelow ▸ (Progress.reports_iterate_counted _ _ _).mpr hreportsOwn
          have hbelow' := Tree.Replaces.lift_below hnode hlower hbelow.sweeps.first
          obtain ⟨eventsBeside, beside', pass', hbeside, hreplaces', hcountBeside, hrunBeside⟩ :=
            ih isChoice (show beside.weight ≤ n by omega) hbelow'.toHolds.beside hreportsBelow
          have hbeside' := Tree.Replaces.lift_beside hbelow'.toHolds hreplaces' hbeside.sweeps.first
          refine ⟨_, .slot id values'' ends' swept beside', pass',
            .slot hprepared hfactored hbelow hbeside, (hreplaces.trans hbelow').trans hbeside', ?_,
            fun events => ?_⟩
          · rw [hcountBeside, hcountBelow, hown, Slots.ids_slot, List.length_cons, List.length_append,
              Function.iterate_succ_apply, Nat.add_comm swept.ids.length, Function.iterate_add_apply]
          · rw [Slots.first_slot, hrun, EStateM.run_bind, hrunBelow]
            dsimp only
            rw [hrunBeside]
            simp only [List.append_assoc, List.cons_append]

theorem recordSweep_eq (h : pass.tree.Comprises ends below) :
    recordSweep.run (pass, []) =
      (recordChain (sweepLimit pass.tree) below.hasChoice below.first).run (pass, []) := by
  have hroot := h.holds.spells
  simp only [recordSweep, EStateM.run_bind, run_silent_ask, run_silent_get,
    show Tree.root = ((0 : Nat) : Int) from rfl, Tree.node_of_get? hroot.1, below_eq hroot,
    elim_first_hasChoice, map_first_hasChoice]

/-- A sweep through a whole tree leaves a whole tree, provided that reports go through or that there is nothing
to report, and what happens in it is told by the slots before and after. -/
theorem run_sweep_course (h : pass.tree.Comprises ends below) (hreports : pass.progress.Reports ∨ below = .nil) :
    ∃ below' pass', Slots.Course below.hasChoice below pass.events below' ∧ sweep.run pass = .ok () pass' ∧
      pass'.tree.Comprises ends below' ∧
      pass'.progress = (Progress.counted "squashing")^[below'.ids.length] pass.progress ∧
      pass'.books = pass.books + entries pass.events := by
  obtain ⟨events', below', pass', hcourse, hreplaces, hcount, hrun⟩ :
      ∃ events' below' pass', Slots.Course below.hasChoice below events' below' ∧
        pass.tree.Replaces pass'.tree (some ((0 : Nat) : Int)) below below' ∧
        pass'.progress = (Progress.counted "squashing")^[below'.ids.length] pass.progress ∧
        ∀ events, (recordChain (sweepLimit pass.tree) below.hasChoice below.first).run (pass, events) =
          .ok () (pass', events ++ events') := by
    rcases hreports with hreports | rfl
    · exact run_recordChain below.hasChoice (weight_le_sweepLimit h) h.holds.below hreports
    · exact ⟨[], .nil, pass, .nil, Tree.Replaces.refl h.holds.below, rfl, run_recordChain_nil _ _ pass⟩
  have hrecord := (recordSweep_eq h).trans (hrun [])
  have hsweep := Erases.recordSweep pass []
  have hevents : pass.events = events' := by
    rw [events, hrecord]
    rfl
  have hbooks := KeepsBooks.recordSweep pass.books (pass, []) () _ (add_zero _).symm hrecord
  rw [hrecord] at hsweep
  rw [hevents]
  refine ⟨below', pass', hcourse, hsweep.symm, ?_, hcount, hbooks⟩
  exact h.replaces (Tree.Replaces.lift_below h.holds hreplaces hcourse.sweeps.first)
    (hcourse.sweeps.proper h.proper)

end Pass

end LogMining
