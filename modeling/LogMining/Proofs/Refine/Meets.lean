import LogMining.Proofs.Refine.Pieces

/-!
# Where a sweep splits

`Pass.Meets` follows the recursion of a sweep: it tells to which nodes the sweep comes and what the pass is
then, right before the values of the node are looked at. A slot may have been joined or come into being by
then, but none of these is split, so the nodes that are split in a sweep are those of the tree before it.
-/

namespace LogMining

namespace Token

theorem affixes?_of_pieces {values : List Token} (h : pieces values = [values]) :
    affixes? values = none := by
  cases ha : affixes? values with
  | none => rfl
  | some a =>
      have htwo := two_le_length_pieces ha
      rw [← pieces_of_some ha, h, List.length_singleton] at htwo
      omega

end Token

namespace Slots

variable {isChoice : Bool} {values values' : List Token} {ends ends' : Int} {below below' : Slots}
  {a : Affixes}

theorem Joined.entries_subset (h : Joined values ends below values' ends' below') :
    below'.entries ⊆ below.entries := by
  induction h with
  | done => exact List.Subset.refl _
  | step hjoint _ ih =>
      obtain ⟨t, u, id, rfl, rfl, -⟩ := joint?_eq_some hjoint
      rw [entries_slot, entries_nil, List.append_nil]
      exact List.subset_cons_of_subset _ ih

theorem Joined.length_le (h : Joined values ends below values' ends' below') (hne : values.length ≠ 1) :
    values' = values := by
  cases h with
  | done => rfl
  | step hjoint =>
      rw [joint?_of_length_ne_one hne] at hjoint
      cases hjoint

theorem Prepared.entries_subset (h : Prepared isChoice values ends below values' ends' below') :
    below'.entries ⊆ below.entries := by
  cases h with
  | choice => exact List.Subset.refl _
  | only h => exact h.entries_subset

theorem Joined.length_eq_one (h : Joined values ends below values' ends' below')
    (hlength : values.length = 1) : values'.length = 1 := by
  induction h with
  | done => exact hlength
  | step _ _ ih => exact ih rfl

theorem Prepared.eq_of_affixes? (h : Prepared isChoice values ends below values' ends' below')
    (ha : Token.affixes? values' = some a) : values' = values := by
  cases h with
  | choice => rfl
  | only h =>
      refine h.length_le fun hlength => ?_
      obtain ⟨t, ht⟩ := List.length_eq_one_iff.mp (h.length_eq_one hlength)
      rw [ht] at ha
      cases ha

theorem mem_entries_stack {fresh : Nat} {more : List (List Token)} {e : Nat × List Token}
    (h : e ∈ (stack fresh more below).entries) : e.2 ∈ more ∨ e ∈ below.entries := by
  induction more generalizing fresh with
  | nil => exact .inr h
  | cons values more ih =>
      rw [stack, entries_slot, entries_nil, List.append_nil] at h
      rcases List.mem_cons.mp h with rfl | h
      · exact .inl List.mem_cons_self
      · exact (ih h).imp_left (List.mem_cons_of_mem _)

theorem mem_entries_factored {fresh id n : Nat} {values'' vs : List Token} {beside below'' : Slots}
    (h : (slot id values ends below beside).factored fresh = slot id values'' ends' below'' beside)
    (ha : Token.affixes? vs = some a) : (n, vs) ∈ below''.entries ↔ (n, vs) ∈ below.entries := by
  obtain ⟨more, hpieces, rfl, rfl⟩ := eq_stack_of_factored h
  constructor
  · intro hmem
    refine (mem_entries_stack hmem).resolve_left fun hpiece => ?_
    have hself := Token.pieces_of_mem_pieces (hpieces ▸ List.mem_cons_of_mem values'' hpiece)
    rw [Token.affixes?_of_pieces hself] at ha
    cases ha
  · exact fun hmem => entries_subset_stack fresh more below hmem

theorem Prepared.mem_entries_iff {n : Nat} {vs : List Token}
    (h : Prepared isChoice values ends below values' ends' below') (ha : Token.affixes? vs = some a) :
    (n, vs) ∈ below'.entries ↔ (n, vs) ∈ below.entries :=
  ⟨fun hmem => h.entries_subset hmem, fun hmem => h.mem_entries hmem (Token.stays_of_affixes? ha)⟩

end Slots

namespace Pass

variable {pass prepared prepared' factored factored' : Pass} {isChoice : Bool} {id : NodeId}
  {node node' : Node} {next next' : Option (NodeId × Bool)}

/-- In a sweep through a chain the pass comes to a node and is in a certain state then. -/
inductive Meets : Nat → Bool → Option NodeId → Pass → NodeId → Pass → Prop
  | here {n : Nat} {isChoice : Bool} {id : NodeId} {pass prepared : Pass}
      (h : (do report "squashing"; prepare id isChoice : Step Pass Unit).run pass = .ok () prepared) :
      Meets (n + 1) isChoice (some id) pass id prepared
  | deeper {n : Nat} {isChoice : Bool} {id m : NodeId} {pass prepared factored met : Pass} {node : Node}
      {next : Option (NodeId × Bool)} (h : Enters isChoice id pass prepared factored node next)
      (hbelow : Meets n (next.elim false Prod.snd) (next.map Prod.fst) factored m met) :
      Meets (n + 1) isChoice (some id) pass m met
  | onward {n : Nat} {isChoice : Bool} {id m : NodeId} {pass prepared factored lower met : Pass}
      {node : Node} {next : Option (NodeId × Bool)}
      (h : Enters isChoice id pass prepared factored node next)
      (hbelow : (sweepChain n (next.elim false Prod.snd) (next.map Prod.fst)).run factored = .ok () lower)
      (hbeside : Meets n isChoice node.sibling lower m met) :
      Meets (n + 1) isChoice (some id) pass m met

theorem Enters.unique (h : Enters isChoice id pass prepared factored node next)
    (h' : Enters isChoice id pass prepared' factored' node' next') :
    prepared' = prepared ∧ factored' = factored ∧ node' = node ∧ next' = next := by
  obtain ⟨found, hfactored⟩ := h.factored_eq
  obtain ⟨found', hfactored'⟩ := h'.factored_eq
  have hprepared := h'.prepared_eq
  rw [h.prepared_eq] at hprepared
  cases hprepared
  rw [hfactored] at hfactored'
  cases hfactored'
  have hnode := h'.node_eq
  rw [h.node_eq] at hnode
  cases hnode
  have hnext := h'.next_eq
  rw [h.next_eq] at hnext
  cases hnext
  exact ⟨rfl, rfl, rfl, rfl⟩

/-- From a node on a sweep comes to the node itself, to those below it and to those beside it. -/
theorem Enters.meets_iff {n : Nat} {lower : Pass}
    (h : Enters isChoice id pass prepared factored node next)
    (hbelow : (sweepChain n (next.elim false Prod.snd) (next.map Prod.fst)).run factored = .ok () lower)
    (m : NodeId) (met : Pass) : Meets (n + 1) isChoice (some id) pass m met ↔
      (m = id ∧ met = prepared) ∨
        Meets n (next.elim false Prod.snd) (next.map Prod.fst) factored m met ∨
        Meets n isChoice node.sibling lower m met := by
  constructor
  · intro hmeets
    cases hmeets with
    | here hprepared =>
        rw [h.prepared_eq] at hprepared
        cases hprepared
        exact .inl ⟨rfl, rfl⟩
    | deeper h' hdeeper =>
        obtain ⟨-, rfl, rfl, rfl⟩ := h.unique h'
        exact .inr (.inl hdeeper)
    | onward h' hbelow' honward =>
        obtain ⟨-, rfl, rfl, rfl⟩ := h.unique h'
        rw [hbelow] at hbelow'
        cases hbelow'
        exact .inr (.inr honward)
  · rintro (⟨rfl, rfl⟩ | hdeeper | honward)
    · exact .here h.prepared_eq
    · exact .deeper h hdeeper
    · exact .onward h hbelow honward

variable {parent : Option NodeId} {slots : Slots} {values : List Token} {a : Affixes}

/-- In a sweep through a chain the pass comes to the first slot, which has been joined with others by then,
from there to the slots below it, and at last to those beside it. -/
theorem exists_meets_slot {n own : Nat} {ends : Int} {below beside : Slots} (isChoice : Bool)
    (hn : (Slots.slot own values ends below beside).weight ≤ n + 1)
    (h : pass.tree.Holds parent (.slot own values ends below beside)) (hreports : pass.progress.Reports) :
    ∃ values' ends' below' fresh values'' below'' prepared factored lower,
      Slots.Prepared isChoice values ends below values' ends' below' ∧
      (Slots.slot own values' ends' below' beside).factored fresh =
        .slot own values'' ends' below'' beside ∧
      prepared.tree.Holds parent (.slot own values' ends' below' beside) ∧
      (below''.weight ≤ n ∧ factored.tree.Holds (some (own : Int)) below'' ∧ factored.progress.Reports) ∧
      (beside.weight ≤ n ∧ lower.tree.Holds parent beside ∧ lower.progress.Reports) ∧
      ∀ id met, Meets (n + 1) isChoice (some (own : Int)) pass id met ↔
        (id = own ∧ met = prepared) ∨ Meets n below''.hasChoice below''.first factored id met ∨
          Meets n isChoice beside.first lower id met := by
  rw [Slots.weight] at hn
  have hpos := Token.weight_pos values
  obtain ⟨values', ends', below', fresh, values'', below'', prepared, factored, hprepared, hfactored,
    hweight, hholds, henters, hreplaces, hown⟩ := exists_enters isChoice h hreports
  have hnode := hreplaces.toHolds
  have hreportsOwn : factored.progress.Reports := hown ▸ (Progress.reports_counted _ _).mpr hreports
  obtain ⟨swept, lower, hsweeps, hrun, hlower, hcount⟩ :=
    run_sweepChain below''.hasChoice (show below''.weight ≤ n by omega) hnode.below hreportsOwn
  have hreportsBelow : lower.progress.Reports :=
    hcount ▸ (Progress.reports_iterate_counted _ _ _).mpr hreportsOwn
  have hbelow := Tree.Replaces.lift_below hnode hlower hsweeps.first
  refine ⟨values', ends', below', fresh, values'', below'', prepared, factored, lower, hprepared, hfactored,
    hholds, ⟨by omega, hnode.below, hreportsOwn⟩, ⟨by omega, hbelow.toHolds.beside, hreportsBelow⟩, ?_⟩
  intro id met
  have hmeets := henters.meets_iff (n := n)
    (by rw [elim_first_hasChoice, map_first_hasChoice]; exact hrun) id met
  rwa [elim_first_hasChoice, map_first_hasChoice] at hmeets

theorem Meets.exists_holds {n : Nat} {met : Pass} (hmeets : Meets n isChoice slots.first pass id met)
    (hn : slots.weight ≤ n) (h : pass.tree.Holds parent slots) (hreports : pass.progress.Reports) :
    ∃ (m : Nat) (parent' : Option NodeId) (values' : List Token) (ends' : Int) (below' beside' : Slots),
      id = m ∧ met.tree.Holds parent' (.slot m values' ends' below' beside') := by
  induction n generalizing pass parent isChoice slots with
  | zero => cases hmeets
  | succ n ih =>
      cases slots with
      | nil => cases hmeets
      | slot own values ends below beside =>
          obtain ⟨values', ends', below', fresh, values'', below'', prepared, factored, lower, -, -,
            hholds, ⟨hweight, hbelow, hgo⟩, ⟨hweight', hbeside, hgo'⟩, hiff⟩ :=
            exists_meets_slot isChoice hn h hreports
          rcases (hiff id met).mp hmeets with ⟨rfl, rfl⟩ | hdeeper | honward
          · exact ⟨own, parent, values', ends', below', beside, rfl, hholds⟩
          · exact ih hdeeper hweight hbelow hgo
          · exact ih honward hweight' hbeside hgo'

/-- A sweep comes to a node with values that are to be split if and only if there is a slot with them. -/
theorem meets_iff {n : Nat} (id : NodeId) (isChoice : Bool) (hn : slots.weight ≤ n)
    (h : pass.tree.Holds parent slots) (hreports : pass.progress.Reports) (ha : Token.affixes? values = some a) :
    (∃ met node, Meets n isChoice slots.first pass id met ∧ met.tree.node id = .ok node ∧
      node.values = values) ↔ ∃ m : Nat, id = m ∧ (m, values) ∈ slots.entries := by
  induction n generalizing pass parent isChoice slots with
  | zero =>
      cases slots with
      | nil =>
          refine iff_of_false ?_ (by simp)
          rintro ⟨met, node, hmeets, -⟩
          cases hmeets
      | slot own values ends below beside =>
          have hpos := Token.weight_pos values
          rw [Slots.weight] at hn
          omega
  | succ n ih =>
      cases slots with
      | nil =>
          refine iff_of_false ?_ (by simp)
          rintro ⟨met, node, hmeets, -⟩
          cases hmeets
      | slot own ownValues ends below beside =>
          obtain ⟨values', ends', below', fresh, values'', below'', prepared, factored, lower, hprepared,
            hfactored, hholds, ⟨hweight, hbelow, hgo⟩, ⟨hweight', hbeside, hgo'⟩, hiff⟩ :=
            exists_meets_slot isChoice hn h hreports
          have hmetBelow := ih below''.hasChoice hweight hbelow hgo
          have hmetBeside := ih isChoice hweight' hbeside hgo'
          have hown := Tree.node_of_get? hholds.spells.1
          simp only [Slots.first_slot, hiff, Slots.entries_slot, List.mem_cons, List.mem_append]
          constructor
          · rintro ⟨met, node, ⟨rfl, rfl⟩ | hdeeper | honward, hnode, rfl⟩
            · rw [hown] at hnode
              cases hnode
              exact ⟨own, rfl, .inl (by rw [hprepared.eq_of_affixes? ha])⟩
            · obtain ⟨m, rfl, hmem⟩ := hmetBelow.mp ⟨met, node, hdeeper, hnode, rfl⟩
              rw [Slots.mem_entries_factored hfactored ha, hprepared.mem_entries_iff ha] at hmem
              exact ⟨m, rfl, .inr (.inl hmem)⟩
            · obtain ⟨m, rfl, hmem⟩ := hmetBeside.mp ⟨met, node, honward, hnode, rfl⟩
              exact ⟨m, rfl, .inr (.inr hmem)⟩
          · rintro ⟨m, rfl, hself | hmem | hmem⟩
            · cases hself
              obtain ⟨rfl, -, -⟩ := hprepared.eq_of_stays (Token.stays_of_affixes? ha)
              exact ⟨prepared, _, .inl ⟨rfl, rfl⟩, hown, rfl⟩
            · rw [← hprepared.mem_entries_iff ha, ← Slots.mem_entries_factored hfactored ha] at hmem
              obtain ⟨met, node, hdeeper, hnode⟩ := hmetBelow.mpr ⟨m, rfl, hmem⟩
              exact ⟨met, node, .inr (.inl hdeeper), hnode⟩
            · obtain ⟨met, node, honward, hnode⟩ := hmetBeside.mpr ⟨m, rfl, hmem⟩
              exact ⟨met, node, .inr (.inr honward), hnode⟩

theorem Meets.reports {n : Nat} {first : Option NodeId} {met : Pass}
    (h : Meets n isChoice first pass id met) : pass.progress.Reports := by
  by_contra hreports
  have hreport := run_report_of_not "squashing" hreports
  have hfails : ∀ own prepared,
      (do report "squashing"; prepare own isChoice : Step Pass Unit).run pass ≠ .ok () prepared := by
    intro own prepared hrun
    rw [EStateM.run_bind, hreport] at hrun
    cases hrun
  cases h with
  | here hrun => exact hfails _ _ hrun
  | deeper henters => exact hfails _ _ henters.prepared_eq
  | onward henters => exact hfails _ _ henters.prepared_eq

/-- In a sweep through the whole tree the pass comes to a node, and looks at what its values have in common
then. -/
def Factors (pass : Pass) (id : NodeId) (met : Pass) : Prop :=
  ∃ root next, pass.tree.node Tree.root = .ok root ∧ Pass.below pass.tree root = .ok next ∧
    Meets (sweepLimit pass.tree) (next.elim false Prod.snd) (next.map Prod.fst) pass id met

variable {ends : Int} {below : Slots}

theorem Factors.meets {met : Pass} (hfactors : pass.Factors id met) (h : pass.tree.Comprises ends below) :
    Meets (sweepLimit pass.tree) below.hasChoice below.first pass id met := by
  obtain ⟨root, next, hroot, hnext, hmeets⟩ := hfactors
  rw [show Tree.root = ((0 : Nat) : Int) from rfl, Tree.node_of_get? h.holds.spells.1] at hroot
  cases hroot
  rw [below_eq h.holds.spells] at hnext
  cases hnext
  rwa [elim_first_hasChoice, map_first_hasChoice] at hmeets

/-- The nodes that are split in a sweep are those of the tree before it that are to be split. -/
theorem factors_iff (id : NodeId) (h : pass.tree.Comprises ends below) (hreports : pass.progress.Reports)
    (ha : Token.affixes? values = some a) :
    (∃ met node, pass.Factors id met ∧ met.tree.node id = .ok node ∧ node.values = values) ↔
      ∃ (m : Nat) (node : Node), id = m ∧ pass.tree.get? m = some node ∧ node.values = values := by
  have hmeets := meets_iff id below.hasChoice (weight_le_sweepLimit h) h.holds.below hreports ha
  constructor
  · rintro ⟨met, node, hfactors, hnode, hvalues⟩
    obtain ⟨m, rfl, hmem⟩ := hmeets.mp ⟨met, node, hfactors.meets h, hnode, hvalues⟩
    obtain ⟨node', hnode', hvalues'⟩ := Tree.exists_node_of_mem_entries h.holds.below.spells hmem
    exact ⟨m, node', rfl, hnode', hvalues'⟩
  · rintro ⟨m, node, rfl, hnode, rfl⟩
    have hm : m ≠ 0 := by
      rintro rfl
      obtain rfl : node = _ := Option.some.inj (hnode.symm.trans h.holds.spells.1)
      cases ha
    obtain ⟨met, node', hmet, hnode'⟩ := hmeets.mpr ⟨m, rfl, h.mem_entries hnode hm⟩
    refine ⟨met, node', ⟨_, _, Tree.node_of_get? h.holds.spells.1, below_eq h.holds.spells, ?_⟩, hnode'⟩
    rwa [elim_first_hasChoice, map_first_hasChoice]

end Pass

end LogMining
