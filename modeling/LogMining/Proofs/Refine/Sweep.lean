import LogMining.Proofs.Progress.Reports
import LogMining.Proofs.Refine.Collapse
import LogMining.Proofs.Refine.Split
import LogMining.Proofs.Slots.Whole
import LogMining.Refine.Sweep

/-!
# Sweeping through the slots

`Slots.Sweeps` relates a chain to what a sweep leaves of it. The numbers of the slots that are added are
left open, since nothing depends on them. A sweep ends after at most three steps for each slot: only a
slot with several values that are whole words is ever split, and it is split into three at most, none of
which is split again.
-/

namespace LogMining

namespace Token

/-- The number of slots into which values may be split. -/
def weight : List Token → Nat
  | t :: _ :: _ => if t.subword then 1 else 3
  | _ => 1

theorem weight_pos (values : List Token) : 1 ≤ weight values := by
  unfold weight
  split
  · split <;> omega
  · exact Nat.le_refl 1

theorem weight_le (values : List Token) : weight values ≤ 3 := by
  unfold weight
  split
  · split <;> omega
  · omega

theorem weight_of_affixes? {values : List Token} {a : Affixes} (h : affixes? values = some a) :
    weight values = 3 := by
  rcases values with _ | ⟨t, _ | ⟨u, more⟩⟩
  · cases h
  · cases h
  · rw [affixes?] at h
    rw [weight]
    split at h
    · cases h
    · next hsub => rw [if_neg hsub]

theorem subword_shaped (t : Token) : t.shaped.subword = t.subword := by
  unfold shaped shaped?
  cases Shape.ofWord? t.word.toList <;> rfl

theorem subword_of_mem_settled {values : List Token} {t : Token} (h : t ∈ settled values) :
    t.subword = true := by
  obtain ⟨u, hu, n, rfl⟩ := exists_of_mem_mergeDuplicates h
  obtain ⟨v, -, rfl⟩ := List.mem_map.mp hu
  exact subword_shaped _

theorem weight_settled (values : List Token) : weight (settled values) = 1 := by
  have hsub : ∀ t ∈ settled values, t.subword = true := fun t ht => subword_of_mem_settled ht
  generalize settled values = rest at hsub ⊢
  rcases rest with _ | ⟨t, _ | ⟨u, more⟩⟩
  · rfl
  · rfl
  · rw [weight, if_pos (hsub t List.mem_cons_self)]

theorem affixes?_settled (values : List Token) : affixes? (settled values) = none := by
  cases h : affixes? (settled values) with
  | none => rfl
  | some a =>
      have hweight := weight_of_affixes? h
      rw [weight_settled] at hweight
      cases hweight

end Token

namespace Slots

def hasChoice : Slots → Bool
  | slot _ _ _ _ (slot _ _ _ _ _) => true
  | _ => false

/-- The number of slots that a sweep visits at most. -/
def weight : Slots → Nat
  | nil => 0
  | slot _ values _ below beside => Token.weight values + below.weight + beside.weight

theorem weight_le (slots : Slots) : slots.weight ≤ 3 * slots.ids.length := by
  induction slots with
  | nil => exact Nat.le_refl 0
  | slot id values ends below beside ihBelow ihBeside =>
      have hvalues := Token.weight_le values
      simp only [weight, ids_slot, List.length_cons, List.length_append]
      omega

theorem weight_withBack_le (fresh : Nat) (back : Int) (values : List Token) (below : Slots) :
    (withBack fresh back values below).weight ≤ below.weight + 1 := by
  rcases values with _ | ⟨t, more⟩
  · exact Nat.le_succ _
  · rw [withBack]
    split
    · simp [weight, Token.weight]
      omega
    · exact Nat.le_succ _

/-- A slot is joined with those below it unless there is a choice. -/
inductive Prepared : Bool → List Token → Int → Slots → List Token → Int → Slots → Prop
  | choice {values : List Token} {ends : Int} {below : Slots} :
      Prepared true values ends below values ends below
  | only {values values' : List Token} {ends ends' : Int} {below below' : Slots}
      (h : Joined values ends below values' ends' below') :
      Prepared false values ends below values' ends' below'

/-- A sweep through the first chain leaves the second one. -/
inductive Sweeps : Bool → Slots → Slots → Prop
  | nil {isChoice : Bool} : Sweeps isChoice nil nil
  | slot {isChoice : Bool} {id fresh : Nat} {values values' values'' : List Token}
      {ends ends' ends'' : Int} {below below' below'' swept beside beside' : Slots}
      (hprepared : Prepared isChoice values ends below values' ends' below')
      (hfactored : (slot id values' ends' below' beside).factored fresh =
        slot id values'' ends'' below'' beside)
      (hbelow : Sweeps below''.hasChoice below'' swept)
      (hbeside : Sweeps isChoice beside beside') :
      Sweeps isChoice (slot id values ends below beside) (slot id values'' ends'' swept beside')

theorem Sweeps.first {isChoice : Bool} {slots slots' : Slots} (h : Sweeps isChoice slots slots') :
    slots'.first = slots.first := by
  cases h <;> rfl

theorem exists_of_sweeps_slot {isChoice : Bool} {id : Nat} {values : List Token} {ends : Int}
    {below beside slots' : Slots} (h : Sweeps isChoice (slot id values ends below beside) slots') :
    ∃ fresh values' values'' ends' ends'' below' below'' swept beside',
      Prepared isChoice values ends below values' ends' below' ∧
      (slot id values' ends' below' beside).factored fresh =
        slot id values'' ends'' below'' beside ∧
      Sweeps below''.hasChoice below'' swept ∧ Sweeps isChoice beside beside' ∧
      slots' = slot id values'' ends'' swept beside' := by
  cases h with
  | slot hprepared hfactored hbelow hbeside =>
      exact ⟨_, _, _, _, _, _, _, _, _, hprepared, hfactored, hbelow, hbeside, rfl⟩

theorem weight_of_joined {values values' : List Token} {ends ends' : Int} {below below' : Slots}
    (h : Joined values ends below values' ends' below') :
    Token.weight values' + below'.weight ≤ Token.weight values + below.weight := by
  induction h with
  | done h => exact Nat.le_refl _
  | step h rest ih =>
      obtain ⟨t, u, id, rfl, rfl, -⟩ := joint?_eq_some h
      simp only [weight, Token.weight] at ih ⊢
      omega

theorem factored_slot (fresh id : Nat) (values : List Token) (ends : Int) (below beside : Slots) :
    ∃ values' below', (slot id values ends below beside).factored fresh =
        slot id values' ends below' beside ∧
      below'.weight + 1 ≤ Token.weight values + below.weight := by
  cases haffixes : Token.affixes? values with
  | none =>
      refine ⟨values, below, by simp only [factored, haffixes], ?_⟩
      have hpos := Token.weight_pos values
      omega
  | some a =>
      have hweight := Token.weight_of_affixes? haffixes
      rcases values with _ | ⟨t, more⟩
      · cases haffixes
      · simp only [factored, haffixes, disjoined]
        split
        · refine ⟨_, _, rfl, ?_⟩
          have hback := weight_withBack_le (fresh + 1) a.back
            (Token.behindFront a.front (t :: more)) below
          simp only [weight, Token.weight_settled]
          omega
        · refine ⟨_, _, rfl, ?_⟩
          have hback := weight_withBack_le fresh a.back
            (Token.behindFront a.front (t :: more)) below
          omega

theorem Prepared.weight_le {isChoice : Bool} {values values' : List Token} {ends ends' : Int}
    {below below' : Slots} (h : Prepared isChoice values ends below values' ends' below') :
    Token.weight values' + below'.weight ≤ Token.weight values + below.weight := by
  cases h with
  | choice => exact Nat.le_refl _
  | only h => exact weight_of_joined h

theorem Prepared.proper {isChoice : Bool} {id : Nat} {values values' : List Token}
    {ends ends' : Int} {below below' beside : Slots}
    (h : Prepared isChoice values ends below values' ends' below')
    (hproper : (slot id values ends below beside).Proper) :
    (slot id values' ends' below' beside).Proper := by
  cases h with
  | choice => exact hproper
  | only h =>
      obtain ⟨hne, hnodup, hbelow⟩ := h.proper hproper.1 hproper.2.1 hproper.2.2.1
      exact ⟨hne, hnodup, hbelow, hproper.2.2.2⟩

theorem Sweeps.proper {isChoice : Bool} {slots slots' : Slots} (h : Sweeps isChoice slots slots')
    (hproper : slots.Proper) : slots'.Proper := by
  induction h with
  | nil => trivial
  | slot hprepared hfactored hbelow hbeside ihBelow ihBeside =>
      have hsplit := hfactored ▸ proper_factored (hprepared.proper hproper)
      exact ⟨hsplit.1, hsplit.2.1, ihBelow hsplit.2.2.1, ihBeside hproper.2.2.2⟩

end Slots

namespace Pass

variable {pass : Pass} {parent : Option NodeId}

theorem run_report (label : String) (h : pass.progress.Reports) :
    (report label).run pass = .ok () { pass with progress := pass.progress.counted label } := by
  rw [run_report_eq, Progress.run_report h]
  rfl

theorem run_report_of_not (label : String) (h : ¬pass.progress.Reports) :
    (report label).run pass =
      .error .zeroRefresh { pass with progress := pass.progress.counted label } := by
  rw [run_report_eq, Progress.run_report_of_not h]
  rfl

theorem below_eq {tree : Tree} {id : Nat} {values : List Token} {ends : Int} {below beside : Slots}
    (h : tree.Spells parent (.slot id values ends below beside)) :
    Pass.below tree
        { values, parent, child := below.first, sibling := beside.first, lineEnds := ends } =
      .ok (below.first.map (·, below.hasChoice)) := by
  cases below with
  | nil => rfl
  | slot id' values' ends' below' beside' =>
      simp only [Pass.below, Slots.first_slot, Tree.node_of_get? h.2.1.1]
      cases beside' <;> rfl

theorem elim_first_hasChoice (slots : Slots) :
    (slots.first.map fun id => (id, slots.hasChoice)).elim false Prod.snd = slots.hasChoice := by
  cases slots <;> rfl

theorem map_first_hasChoice (slots : Slots) :
    (slots.first.map fun id => (id, slots.hasChoice)).map Prod.fst = slots.first := by
  cases slots <;> rfl

def sweepChain (n : Nat) (isChoice : Bool) : Option NodeId → Step Pass Unit
  | none => pure ()
  | some id => sweepFrom n id isChoice

def prepare (id : NodeId) (isChoice : Bool) : Step Pass Unit := do
  unless isChoice do collapseAll id

def sweepOn (n : Nat) (id : NodeId) (isChoice : Bool) : Step Pass Unit := do
  prepare id isChoice
  let _ ← factor id
  let node ← ask (·.node id)
  let next ← ask (below · node)
  sweepChain n (next.elim false Prod.snd) (next.map Prod.fst)
  sweepChain n isChoice node.sibling

theorem sweepFrom_succ (n : Nat) (id : NodeId) (isChoice : Bool) :
    sweepFrom (n + 1) id isChoice = (do report "squashing"; sweepOn n id isChoice) := by
  rw [sweepFrom]
  refine bind_congr fun _ => ?_
  cases isChoice with
  | true =>
      refine bind_congr fun _ => bind_congr fun node => bind_congr fun next => ?_
      rcases next with _ | ⟨child, isChoice'⟩ <;> rcases node.sibling with _ | sibling <;> rfl
  | false =>
      refine bind_congr fun _ => bind_congr fun _ => bind_congr fun node => bind_congr fun next => ?_
      rcases next with _ | ⟨child, isChoice'⟩ <;> rcases node.sibling with _ | sibling <;> rfl

theorem run_prepare (isChoice : Bool) {id : Nat} {values : List Token} {ends : Int}
    {below beside : Slots} (h : pass.tree.Holds parent (.slot id values ends below beside)) :
    ∃ values' ends' below' pass',
      Slots.Prepared isChoice values ends below values' ends' below' ∧
      (prepare id isChoice).run pass = .ok () pass' ∧
      pass.Replaces pass' parent (.slot id values ends below beside)
        (.slot id values' ends' below' beside) := by
  cases isChoice with
  | true => exact ⟨values, ends, below, pass, .choice, rfl, Replaces.refl h⟩
  | false =>
      obtain ⟨values', ends', below', pass', hjoined, hrun, hreplaces⟩ := run_collapseAll h
      exact ⟨values', ends', below', pass', .only hjoined, hrun, hreplaces⟩

/-- How a sweep comes to a node: the node is reported and prepared, then it is split, and the way leads on to
what is below it, if there is anything, and to its sibling. -/
structure Enters (isChoice : Bool) (id : NodeId) (pass prepared factored : Pass) (node : Node)
    (next : Option (NodeId × Bool)) : Prop where
  prepared_eq :
    (do report "squashing"; prepare id isChoice : Step Pass Unit).run pass = .ok () prepared
  factored_eq : ∃ found, (factor id).run prepared = .ok found factored
  node_eq : factored.tree.node id = .ok node
  next_eq : Pass.below factored.tree node = .ok next

theorem Enters.run_sweepChain {isChoice : Bool} {id : NodeId} {prepared factored : Pass} {node : Node}
    {next : Option (NodeId × Bool)} (h : Enters isChoice id pass prepared factored node next) (n : Nat) :
    (sweepChain (n + 1) isChoice (some id)).run pass =
      (do sweepChain n (next.elim false Prod.snd) (next.map Prod.fst)
          sweepChain n isChoice node.sibling : Step Pass Unit).run factored := by
  obtain ⟨found, hfactor⟩ := h.factored_eq
  have hprepare := h.prepared_eq
  rw [EStateM.run_bind] at hprepare
  rw [sweepChain, sweepFrom_succ, EStateM.run_bind]
  cases hreport : (report "squashing").run pass with
  | error fault reported =>
      rw [hreport] at hprepare
      cases hprepare
  | ok _ reported =>
      rw [hreport] at hprepare
      simp only [sweepOn, EStateM.run_bind, hprepare, hfactor, run_ask, h.node_eq, h.next_eq]

theorem exists_enters (isChoice : Bool) {id : Nat} {values : List Token} {ends : Int}
    {below beside : Slots} (h : pass.tree.Holds parent (.slot id values ends below beside))
    (hreports : pass.progress.Reports) :
    ∃ values' ends' below' fresh values'' below'' prepared factored,
      Slots.Prepared isChoice values ends below values' ends' below' ∧
      (Slots.slot id values' ends' below' beside).factored fresh =
        .slot id values'' ends' below'' beside ∧
      below''.weight + 1 ≤ Token.weight values + below.weight ∧
      prepared.tree.Holds parent (.slot id values' ends' below' beside) ∧
      Enters isChoice id pass prepared factored
        { values := values'', parent, child := below''.first, sibling := beside.first, lineEnds := ends' }
        (below''.first.map (·, below''.hasChoice)) ∧
      pass.tree.Replaces factored.tree parent (.slot id values ends below beside)
        (.slot id values'' ends' below'' beside) ∧
      factored.progress = pass.progress.counted "squashing" := by
  obtain ⟨values', ends', below', prepared, hprepared, hprepare, hreplaces⟩ :=
    run_prepare isChoice
      (show { pass with progress := pass.progress.counted "squashing" }.tree.Holds parent _ from h)
  obtain ⟨factored, hfactor, hsplit⟩ := run_factor hreplaces.toHolds
  obtain ⟨values'', below'', hfactored, hweight⟩ :=
    Slots.factored_slot prepared.tree.size id values' ends' below' beside
  rw [hfactored] at hsplit
  have hlimit := hprepared.weight_le
  refine ⟨values', ends', below', prepared.tree.size, values'', below'', prepared, factored, hprepared,
    hfactored, by omega, hreplaces.toHolds, ⟨?_, ⟨_, hfactor⟩, Tree.node_of_get? hsplit.spells.1,
      below_eq hsplit.spells⟩, hreplaces.toReplaces.trans hsplit.toReplaces,
    hsplit.progress_eq.trans hreplaces.progress_eq⟩
  rw [EStateM.run_bind, run_report _ hreports]
  exact hprepare

/-- A sweep through a chain comes to an end and leaves what `Slots.Sweeps` says, provided that reports
go through. It reports every slot that it leaves. -/
theorem run_sweepChain {n : Nat} (isChoice : Bool) {slots : Slots} (hn : slots.weight ≤ n)
    (h : pass.tree.Holds parent slots) (hreports : pass.progress.Reports) :
    ∃ slots' pass', Slots.Sweeps isChoice slots slots' ∧
      (sweepChain n isChoice slots.first).run pass = .ok () pass' ∧
      pass.tree.Replaces pass'.tree parent slots slots' ∧
      pass'.progress = (Progress.counted "squashing")^[slots'.ids.length] pass.progress := by
  induction n generalizing pass parent isChoice slots with
  | zero =>
      cases slots with
      | nil => exact ⟨.nil, pass, .nil, rfl, Tree.Replaces.refl h, rfl⟩
      | slot id values ends below beside =>
          have hpos := Token.weight_pos values
          rw [Slots.weight] at hn
          omega
  | succ n ih =>
      cases slots with
      | nil => exact ⟨.nil, pass, .nil, rfl, Tree.Replaces.refl h, rfl⟩
      | slot id values ends below beside =>
          rw [Slots.weight] at hn
          have hpos := Token.weight_pos values
          obtain ⟨values', ends', below', fresh, values'', below'', prepared, factored, hprepared,
            hfactored, hweight, -, henters, hreplaces, hown⟩ := exists_enters isChoice h hreports
          have hnode := hreplaces.toHolds
          have hreportsOwn : factored.progress.Reports :=
            hown ▸ (Progress.reports_counted _ _).mpr hreports
          -- what is below the node is swept, and then what goes on beside it
          obtain ⟨swept, lower, hbelow, hrunBelow, hlower, hcountBelow⟩ :=
            ih below''.hasChoice (show below''.weight ≤ n by omega) hnode.below hreportsOwn
          have hreportsBelow : lower.progress.Reports :=
            hcountBelow ▸ (Progress.reports_iterate_counted _ _ _).mpr hreportsOwn
          have hbelow' := Tree.Replaces.lift_below hnode hlower hbelow.first
          obtain ⟨beside', pass', hbeside, hrunBeside, hreplaces', hcountBeside⟩ :=
            ih isChoice (show beside.weight ≤ n by omega) hbelow'.toHolds.beside
              hreportsBelow
          have hbeside' := Tree.Replaces.lift_beside hbelow'.toHolds hreplaces' hbeside.first
          refine ⟨.slot id values'' ends' swept beside', pass',
            .slot hprepared hfactored hbelow hbeside, ?_, ?_, ?_⟩
          · rw [Slots.first_slot, henters.run_sweepChain, EStateM.run_bind, elim_first_hasChoice,
              map_first_hasChoice, hrunBelow]
            exact hrunBeside
          · exact (hreplaces.trans hbelow').trans hbeside'
          · rw [hcountBeside, hcountBelow, hown, Slots.ids_slot, List.length_cons, List.length_append,
              Function.iterate_succ_apply, Nat.add_comm swept.ids.length, Function.iterate_add_apply]

variable {ends : Int} {below : Slots}

theorem sweep_eq (h : pass.tree.Comprises ends below) :
    sweep.run pass =
      (sweepChain (sweepLimit pass.tree) below.hasChoice below.first).run pass := by
  have hroot := h.holds.spells
  simp only [sweep, EStateM.run_bind, run_ask]
  rw [show Tree.root = ((0 : Nat) : Int) from rfl, Tree.node_of_get? hroot.1]
  simp only [below_eq hroot]
  cases below <;> rfl

theorem weight_le_sweepLimit {tree : Tree} (h : tree.Comprises ends below) :
    below.weight ≤ sweepLimit tree := by
  have hweight := below.weight_le
  have hlength := h.holds.below.length_ids_le
  have hle : 1 * (6 * tree.size) ≤ (3 * tree.size + tree.size + 1) * (2 * (3 * tree.size)) :=
    Nat.mul_le_mul (by omega) (by omega)
  simp only [sweepLimit]
  omega

/-- A sweep through a whole tree leaves a whole tree, provided that reports go through. It reports every
node that it leaves but the root. -/
theorem run_sweep (h : pass.tree.Comprises ends below) (hreports : pass.progress.Reports) :
    ∃ below' pass', Slots.Sweeps below.hasChoice below below' ∧ sweep.run pass = .ok () pass' ∧
      pass'.tree.Comprises ends below' ∧
      pass'.progress = (Progress.counted "squashing")^[below'.ids.length] pass.progress := by
  obtain ⟨below', pass', hsweeps, hrun, hreplaces, hcount⟩ :=
    run_sweepChain below.hasChoice (weight_le_sweepLimit h) h.holds.below hreports
  refine ⟨below', pass', hsweeps, (sweep_eq h).trans hrun, ?_, hcount⟩
  exact h.replaces (Tree.Replaces.lift_below h.holds hreplaces hsweeps.first)
    (hsweeps.proper h.proper)

/-- If reports do not go through and there is something to sweep, a sweep fails and leaves the tree as it is. -/
theorem run_sweep_of_ne_nil (h : pass.tree.Comprises ends below) (hreports : ¬pass.progress.Reports)
    (hne : below ≠ .nil) : ∃ progress, sweep.run pass = .error .zeroRefresh { pass with progress } := by
  rw [sweep_eq h]
  cases below with
  | nil => exact absurd rfl hne
  | slot id values ends' below' beside =>
      refine ⟨pass.progress.counted "squashing", ?_⟩
      rw [Slots.first_slot, sweepChain, sweepLimit, sweepFrom_succ, EStateM.run_bind,
        run_report_of_not _ hreports]

/-- If reports do not go through, a sweep leaves the tree as it is. It fails unless there is nothing to
sweep. -/
theorem run_sweep_of_not (h : pass.tree.Comprises ends below) (hreports : ¬pass.progress.Reports) :
    sweep.run pass = .ok () pass ∨
      ∃ progress, sweep.run pass = .error .zeroRefresh { pass with progress } := by
  by_cases hnil : below = .nil
  · subst hnil
    exact .inl (sweep_eq h)
  · exact .inr (run_sweep_of_ne_nil h hreports hnil)

end Pass

end LogMining
