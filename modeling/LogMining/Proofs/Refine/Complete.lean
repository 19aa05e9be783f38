import LogMining.Proofs.Refine.Course
import LogMining.Proofs.Refine.Divide
import LogMining.Proofs.Refine.Intact
import LogMining.Proofs.Refine.Meets

/-!
# A sweep leaves nothing undone

After a sweep no values have affixes that could still be split off, and no slot can be joined with the one below
it, unless that one is a front that the sweep itself has split off: the slot above it had been joined as far as
possible when the front was not yet there. Slots among which there is a choice are never joined, and a sweep
neither makes nor removes a choice.
-/

namespace LogMining

namespace Token

variable {values : List Token} {a : Affixes} {u : Token}

/-- If values are not joined with anything and there is one of them, it is a placeholder. -/
theorem isPlaceholder_of_stays (h : Stays [u]) : u.isPlaceholder = true := by
  have hempty := h (.slot 0 [{ word := "" }] 0 .nil .nil)
  cases hu : u.isPlaceholder with
  | true => rfl
  | false =>
      rw [Slots.joint?, hu] at hempty
      cases hempty

theorem settled_middle_ne_singleton (ha : affixes? values = some a) (hnodup : (values.map word).Nodup)
    (hu : u.isPlaceholder = false) : settled (values.map (middle a)) ≠ [u] := by
  intro hsettled
  have hstays := stays_settled_middle ha hnodup
  rw [hsettled] at hstays
  rw [isPlaceholder_of_stays hstays] at hu
  cases hu

/-- If values begin with a single word that is no placeholder when they are split, they are that word, or it is
a front and what remains of the values comes behind it. -/
theorem cases_of_pieces {more : List (List Token)} (h : pieces values = [u] :: more)
    (hnodup : (values.map word).Nodup) (hu : u.isPlaceholder = false) :
    values = [u] ∧ more = [] ∨ ∃ a rest, affixes? values = some a ∧ 0 < a.front ∧
      more = settled (values.map (middle a)) :: rest := by
  cases ha : affixes? values with
  | none =>
      rw [pieces_of_none ha, List.cons.injEq] at h
      exact .inl ⟨h.1, h.2.symm⟩
  | some a =>
      obtain ⟨first, v, others, rfl, -⟩ := eq_of_affixes? ha
      rw [pieces_of_some ha, Affixes.pieces] at h
      by_cases hfront : 0 < a.front
      · rw [if_pos hfront, List.singleton_append, List.cons_append, List.cons.injEq] at h
        exact .inr ⟨a, _, rfl, hfront, h.2.symm⟩
      · -- without a front what remains of the values comes first, which is no single word
        rw [if_neg hfront, List.nil_append, List.singleton_append, List.cons.injEq] at h
        exact absurd h.1 (settled_middle_ne_singleton ha hnodup hu)

theorem ofWords_of_affixes?_eq_none (hlength : 2 ≤ values.length)
    (hfirst : ∀ t ∈ values.head?, t.subword = false) (hnone : affixes? values = none) :
    Affixes.ofWords (values.map word) = .ok { front := 0, back := 0 } := by
  obtain ⟨a, ha⟩ := exists_ofWords_map hlength
  rw [affixes?_eq_ite hlength hfirst ha, ite_eq_left_iff] at hnone
  have hzero : a.front = 0 ∧ a.back = 0 := by
    by_contra hpos
    cases hnone hpos
  rw [ha, Except.ok.injEq]
  exact congrArg₂ Affixes.mk hzero.1 hzero.2

end Token

namespace Slots

open Pass (Event)

variable {isChoice : Bool} {id n fresh : Nat} {values values' : List Token} {ends ends' : Int}
  {below below' beside beside' slots slots' chain : Slots} {t u : Token} {events events' : List Event}

/-- What a sweep leaves is not split any further. -/
theorem Sweeps.unsplit (h : Sweeps isChoice slots slots') :
    slots'.All fun values => Token.affixes? values = none := by
  induction h with
  | nil => trivial
  | slot _ hfactored _ _ ihBelow ihBeside =>
      obtain ⟨more, hpieces, -⟩ := eq_stack_of_factored hfactored
      have hself := Token.pieces_of_mem_pieces (hpieces ▸ List.mem_cons_self)
      exact ⟨Token.affixes?_of_pieces hself, ihBelow, ihBeside⟩

def chains : Slots → List Slots
  | nil => []
  | slot _ _ _ below beside => below :: (below.chains ++ beside.chains)

section Choices

def flags : Bool → Slots → List (Nat × Bool)
  | _, nil => []
  | isChoice, slot id _ _ below beside =>
    (id, isChoice) :: (below.flags below.hasChoice ++ beside.flags isChoice)

theorem map_flags (isChoice : Bool) (slots : Slots) : (slots.flags isChoice).map Prod.fst = slots.ids := by
  induction slots generalizing isChoice with
  | nil => rfl
  | slot id values ends below beside ihBelow ihBeside =>
      rw [flags, List.map_cons, List.map_append, ihBelow, ihBeside, ids_slot]

theorem Joined.mem_flags (h : Joined values ends below values' ends' below')
    (hn : (n, true) ∈ below.flags below.hasChoice) : (n, true) ∈ below'.flags below'.hasChoice := by
  induction h with
  | done => exact hn
  | step hjoint _ ih =>
      obtain ⟨t, u, id, rfl, rfl, -⟩ := joint?_eq_some hjoint
      simp only [flags, hasChoice, List.append_nil, List.mem_cons, Prod.mk.injEq, Bool.true_eq_false,
        and_false, false_or] at hn
      exact ih hn

theorem Prepared.mem_flags (h : Prepared isChoice values ends below values' ends' below')
    (hn : (n, true) ∈ below.flags below.hasChoice) : (n, true) ∈ below'.flags below'.hasChoice := by
  cases h with
  | choice => exact hn
  | only h => exact h.mem_flags hn

theorem mem_flags_stack (fresh : Nat) (more : List (List Token))
    (hn : (n, true) ∈ below.flags below.hasChoice) :
    (n, true) ∈ (stack fresh more below).flags (stack fresh more below).hasChoice := by
  induction more generalizing fresh with
  | nil => exact hn
  | cons values more ih =>
      rw [stack, flags, flags, List.append_nil]
      exact List.mem_cons_of_mem _ (ih (fresh + 1))

theorem Sweeps.hasChoice_eq (h : Sweeps isChoice slots slots') : slots'.hasChoice = slots.hasChoice := by
  cases h with
  | nil => rfl
  | slot _ _ _ hbeside => cases hbeside <;> rfl

theorem Sweeps.mem_flags (h : Sweeps isChoice slots slots') (hn : (n, true) ∈ slots.flags isChoice) :
    (n, true) ∈ slots'.flags isChoice := by
  induction h with
  | nil => exact hn
  | slot hprepared hfactored hbelow _ ihBelow ihBeside =>
      obtain ⟨more, -, -, rfl⟩ := eq_stack_of_factored hfactored
      simp only [flags, List.mem_cons, List.mem_append] at hn ⊢
      rcases hn with hn | hn | hn
      · exact .inl hn
      · refine .inr (.inl ?_)
        rw [hbelow.hasChoice_eq]
        exact ihBelow (mem_flags_stack _ more (hprepared.mem_flags hn))
      · exact .inr (.inr (ihBeside hn))

theorem eq_of_mem_joins {m : NodeId} {lost : Int} (h : .join m lost ∈ joins isChoice id values ends below) :
    isChoice = false ∧ m = id := by
  obtain ⟨ends, hends, heq⟩ := List.mem_map.mp h
  cases heq
  cases isChoice with
  | true => cases hends
  | false => exact ⟨rfl, rfl⟩

theorem join_not_mem_splits {m : NodeId} {lost : Int} : .join m lost ∉ splits id values := by
  rw [splits]
  cases Token.affixes? values <;> simp

theorem Course.mem_flags_of_join (h : Course isChoice slots events slots') {m : NodeId} {lost : Int}
    (hjoin : .join m lost ∈ events) : ∃ n : Nat, m = n ∧ (n, false) ∈ slots'.flags isChoice := by
  induction h with
  | nil => cases hjoin
  | slot _ _ hbelow _ ihBelow ihBeside =>
      simp only [List.mem_cons, List.mem_append, reduceCtorEq, false_or, join_not_mem_splits, or_false] at hjoin
      simp only [flags, List.mem_cons, List.mem_append]
      rcases hjoin with hjoin | hjoin | hjoin
      · obtain ⟨rfl, rfl⟩ := eq_of_mem_joins hjoin
        exact ⟨_, rfl, .inl rfl⟩
      · obtain ⟨n, rfl, hn⟩ := ihBelow hjoin
        exact ⟨n, rfl, .inr (.inl (hbelow.sweeps.hasChoice_eq ▸ hn))⟩
      · obtain ⟨n, rfl, hn⟩ := ihBeside hjoin
        exact ⟨n, rfl, .inr (.inr hn)⟩

theorem mem_flags_of_mem_chain (h : (n : Int) ∈ slots.chain) : (n, isChoice) ∈ slots.flags isChoice := by
  induction slots with
  | nil => cases h
  | slot id values ends below beside _ ihBeside =>
      rw [chain_slot, List.mem_cons] at h
      rw [flags, List.mem_cons, List.mem_append]
      rcases h with h | h
      · obtain rfl : n = id := Int.ofNat.inj h
        exact .inl rfl
      · exact .inr (.inr (ihBeside h))

theorem flags_subset_of_mem_chains (h : chain ∈ slots.chains) :
    chain.flags chain.hasChoice ⊆ slots.flags isChoice := by
  induction slots generalizing isChoice with
  | nil => cases h
  | slot id values ends below beside ihBelow ihBeside =>
      intro flagged hflagged
      rw [chains, List.mem_cons, List.mem_append] at h
      rw [flags, List.mem_cons, List.mem_append]
      rcases h with rfl | h | h
      · exact .inr (.inl hflagged)
      · exact .inr (.inl (ihBelow h hflagged))
      · exact .inr (.inr (ihBeside h hflagged))

theorem eq_of_mem_flags (hnodup : slots.ids.Nodup) {flag flag' : Bool} (h : (n, flag) ∈ slots.flags isChoice)
    (h' : (n, flag') ∈ slots.flags isChoice) : flag = flag' := by
  rw [← map_flags isChoice] at hnodup
  exact congrArg Prod.snd (List.inj_on_of_nodup_map hnodup h h' rfl)

theorem chain_eq_singleton (h : chain.hasChoice = false) {m : NodeId} (hm : m ∈ chain.chain) :
    chain.chain = [m] := by
  cases chain with
  | nil => cases hm
  | slot id values ends below beside =>
      cases beside with
      | nil =>
          rw [chain_slot, chain_nil, List.mem_singleton] at hm
          rw [chain_slot, chain_nil, hm]
      | slot => cases h

theorem Course.chain_eq_of_join (h : Course slots.hasChoice slots events slots') (hnodup : slots'.ids.Nodup)
    (hchain : chain ∈ slots :: slots.chains) {m : NodeId} {lost : Int} (hjoin : .join m lost ∈ events)
    (hm : m ∈ chain.chain) : chain.chain = [m] := by
  cases hchoice : chain.hasChoice with
  | false => exact chain_eq_singleton hchoice hm
  | true =>
      -- the choice is still there after the sweep, but where slots are joined there is none
      obtain ⟨n, rfl, hfalse⟩ := h.mem_flags_of_join hjoin
      have hflag : (n, chain.hasChoice) ∈ slots.flags slots.hasChoice := by
        have hown : (n, chain.hasChoice) ∈ chain.flags chain.hasChoice := mem_flags_of_mem_chain hm
        rcases List.mem_cons.mp hchain with rfl | hchain
        · exact hown
        · exact flags_subset_of_mem_chains hchain hown
      cases eq_of_mem_flags hnodup (h.sweeps.mem_flags (hchoice ▸ hflag)) hfalse

end Choices

section Joinable

theorem Joined.joint?_eq_none (h : Joined values ends below values' ends' below') :
    joint? values' below' = none := by
  induction h with
  | done hjoint => exact hjoint
  | step _ _ ih => exact ih

theorem Prepared.exists_singleton (h : Prepared isChoice values ends below [u] ends' below')
    (hu : u.isPlaceholder = false) : ∃ t, values = [t] ∧ t.isPlaceholder = false := by
  cases h with
  | choice => exact ⟨u, rfl, hu⟩
  | only h =>
      cases h with
      | done => exact ⟨u, rfl, hu⟩
      | step hjoint =>
          obtain ⟨t, _, _, rfl, -, ht, -⟩ := joint?_eq_some hjoint
          exact ⟨t, rfl, ht⟩

/-- Where a sweep leaves a single word in a slot, it was a single word before, or it is a front that has been
split off. -/
theorem Course.exists_singleton
    (h : Course isChoice (.slot id values ends below beside) events (.slot n [u] ends' below' beside'))
    (hproper : Proper (.slot id values ends below beside)) (hu : u.isPlaceholder = false) :
    (∃ t, values = [t] ∧ t.isPlaceholder = false) ∨ ∃ a, .split n a ∈ events ∧ 0 < a.front := by
  cases h with
  | slot hprepared hfactored _ _ =>
      obtain ⟨more, hpieces, -⟩ := eq_stack_of_factored hfactored
      rcases Token.cases_of_pieces hpieces (hprepared.proper hproper).2.1 hu with
        ⟨rfl, -⟩ | ⟨a, -, ha, hfront, -⟩
      · exact .inl (hprepared.exists_singleton hu)
      · exact .inr ⟨a, by simp [splits, ha], hfront⟩

/-- If a slot is the only one of its chain and could be joined with the one below it, then that one is what is
left of a front that has been split off. -/
def JoinsFrontOnly (events : List Event) (chain : Slots) : Prop :=
  ∀ id values ends below, chain = slot id values ends below nil → joint? values below ≠ none →
    ∃ n a, below.first = some n ∧ .split n a ∈ events ∧ 0 < a.front

theorem JoinsFrontOnly.mono (h : JoinsFrontOnly events chain) (hsub : events ⊆ events') :
    JoinsFrontOnly events' chain := by
  intro id values ends below hchain hjoint
  obtain ⟨n, a, hfirst, hsplit, hfront⟩ := h id values ends below hchain hjoint
  exact ⟨n, a, hfirst, hsub hsplit, hfront⟩

/-- Where two slots that a sweep leaves could be joined, one below the other and neither with a choice, the
lower one was not there as a single word when the upper one had been joined and split. -/
theorem not_singleton_of_factored
    (hprepared : Prepared false values ends below values' ends' below')
    (hproper : (slot id values' ends' below' beside).Proper)
    (hfactored : (slot id values' ends' below' beside).factored fresh =
      slot id [t] ends'' (slot n [u] mid below'' nil) beside)
    (ht : t.isPlaceholder = false) (hu : u.isPlaceholder = false) : False := by
  obtain ⟨more, hpieces, -, hstack⟩ := eq_stack_of_factored hfactored
  rcases Token.cases_of_pieces hpieces hproper.2.1 ht with ⟨rfl, rfl⟩ | ⟨a, rest, ha, -, rfl⟩
  · obtain rfl : slot n [u] mid below'' nil = below' := hstack
    cases hprepared with
    | only h =>
        have hjoint := h.joint?_eq_none
        rw [joint?, ht, hu] at hjoint
        cases hjoint
  · rw [stack, slot.injEq] at hstack
    exact Token.settled_middle_ne_singleton ha hproper.2.1 hu hstack.2.1.symm

theorem Sweeps.exists_alone (h : Sweeps isChoice slots (.slot id values ends below .nil)) :
    ∃ values' ends' below', slots = .slot id values' ends' below' .nil := by
  cases h with
  | slot _ _ _ hbeside =>
      cases hbeside
      exact ⟨_, _, _, rfl⟩

theorem Course.joinsFrontOnly (h : Course slots.hasChoice slots events slots') (hproper : slots.Proper) :
    JoinsFrontOnly events slots' := by
  rintro id values ends below rfl hjoint
  obtain ⟨_, _, _, rfl⟩ := h.sweeps.exists_alone
  cases h with
  | slot hprepared hfactored hbelow _ =>
      obtain ⟨⟨t, mid, below'⟩, hjoint⟩ := Option.ne_none_iff_exists'.mp hjoint
      obtain ⟨t, u, n, rfl, rfl, ht, hu, -⟩ := joint?_eq_some hjoint
      have hprepared' := hprepared.proper hproper
      have hsplit := hfactored ▸ proper_factored hprepared'
      obtain ⟨_, _, _, rfl⟩ := hbelow.sweeps.exists_alone
      rcases hbelow.exists_singleton hsplit.2.2.1 hu with ⟨v, rfl, hv⟩ | ⟨a, hmem, hfront⟩
      · exact (not_singleton_of_factored hprepared hprepared' hfactored ht hv).elim
      · exact ⟨n, a, rfl, by simp [hmem], hfront⟩

theorem Course.joinsFrontOnly_of_mem_chains (h : Course isChoice slots events slots') (hproper : slots.Proper)
    (hchain : chain ∈ slots'.chains) : JoinsFrontOnly events chain := by
  induction h with
  | nil => cases hchain
  | slot hprepared hfactored hbelow _ ihBelow ihBeside =>
      have hsplit := hfactored ▸ proper_factored (hprepared.proper hproper)
      simp only [chains, List.mem_cons, List.mem_append] at hchain
      rcases hchain with rfl | hchain | hchain
      · exact (hbelow.joinsFrontOnly hsplit.2.2.1).mono fun event hevent => by simp [hevent]
      · exact (ihBelow hsplit.2.2.1 hchain).mono fun event hevent => by simp [hevent]
      · exact (ihBeside hproper.2.2.2 hchain).mono fun event hevent => by simp [hevent]

/-- In a whole tree that has been swept nothing can be joined but what has been split off. -/
theorem Course.joinsFrontOnly_of_mem (h : Course slots.hasChoice slots events slots')
    (hproper : slots.Proper) (hchain : chain ∈ slots' :: slots'.chains) : JoinsFrontOnly events chain := by
  rcases List.mem_cons.mp hchain with rfl | hchain
  · exact h.joinsFrontOnly hproper
  · exact h.joinsFrontOnly_of_mem_chains hproper hchain

end Joinable

end Slots

namespace Tree

variable {tree : Tree} {parent : Option NodeId} {slots : Slots} {ends : Int} {below : Slots} {n : Nat}
  {ids : List NodeId}

theorem Holds.exists_chain (h : tree.Holds parent slots) (hn : n ∈ slots.ids) :
    ∃ chain ∈ slots.chains, tree.children n = .ok chain.chain ∧ tree.Holds (some (n : Int)) chain := by
  induction slots generalizing parent with
  | nil => cases hn
  | slot id values ends below beside ihBelow ihBeside =>
      rw [Slots.ids_slot, List.mem_cons, List.mem_append] at hn
      simp only [Slots.chains, List.mem_cons, List.mem_append]
      rcases hn with rfl | hn | hn
      · exact ⟨below, .inl rfl, children_eq h, h.below⟩
      · obtain ⟨chain, hchain, hread⟩ := ihBelow h.below hn
        exact ⟨chain, .inr (.inl hchain), hread⟩
      · obtain ⟨chain, hchain, hread⟩ := ihBeside h.beside hn
        exact ⟨chain, .inr (.inr hchain), hread⟩

theorem Comprises.exists_chain (h : tree.Comprises ends below) (hids : tree.children n = .ok ids) :
    ∃ chain ∈ below :: below.chains, ids = chain.chain ∧ tree.Holds (some (n : Int)) chain := by
  obtain ⟨node, hnode⟩ := exists_get?_of_children hids
  obtain ⟨chain, hchain, hread, hholds⟩ := h.holds.exists_chain (h.live n node hnode)
  rw [Slots.root, Slots.chains, Slots.chains, List.append_nil] at hchain
  exact ⟨chain, hchain, Except.ok.inj (hids.symm.trans hread), hholds⟩

theorem child_of_collapse? {node : Node} {c : Collapse} (h : tree.collapse? node = .ok (some c)) :
    node.child = some c.childId := by
  unfold collapse? at h
  split at h
  · next childId t hchild hvalues =>
    cases hnode : tree.node childId with
    | error fault =>
        rw [hnode] at h
        cases h
    | ok child =>
        simp only [hnode, bind, Except.bind] at h
        split at h
        · split at h
          · cases h
          · cases h
            exact hchild
        · cases h
  · cases h

end Tree

end LogMining
