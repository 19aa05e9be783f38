import LogMining.Proofs.Growth.Place
import LogMining.Proofs.Slots.Whole

/-!
# Inserting a line

`Slots.grow` is what the insertion of a line does to the line ends of a node and to the chain below it.
A line whose source fails is inserted as far as the token before the last one that came out, which
serves as the lookahead only, and ends nowhere.
-/

namespace LogMining

namespace Slots

/-- The line ends of a node and the chain below it after the tokens of a line have been inserted, with
the line end if the line has ended. Slots that are opened are numbered from `fresh`. -/
def grow (ended : Bool) (fresh : Nat) : List Token → Int × Slots → Int × Slots
  | [], (ends, below) => (if ended then ends + 1 else ends, below)
  | t :: more, (ends, below) =>
    if more.isEmpty && !ended then (ends, below)
    else
      let next := more.head?.map Token.word
      let fresh' := if below.opens t.word next then fresh + 1 else fresh
      (ends, (below.place fresh t next).changeFrom (holdsWord t.word)
        (mapBelow (grow ended fresh' more)))

theorem grow_nil (ended : Bool) (fresh : Nat) (ends : Int) (below : Slots) :
    grow ended fresh [] (ends, below) = (if ended then ends + 1 else ends, below) := rfl

theorem grow_cons {ended : Bool} {t : Token} {more : List Token} (fresh : Nat) (ends : Int)
    (below : Slots) (h : more ≠ [] ∨ ended = true) :
    grow ended fresh (t :: more) (ends, below) =
      (ends, (below.place fresh t (more.head?.map Token.word)).changeFrom (holdsWord t.word)
        (mapBelow (grow ended
          (if below.opens t.word (more.head?.map Token.word) then fresh + 1 else fresh) more))) := by
  rw [grow, if_neg]
  rcases h with h | h <;> simp [h]

theorem proper_grow {ended : Bool} {fresh : Nat} {tokens : List Token} {ends : Int}
    {below : Slots} (h : below.Proper) : (grow ended fresh tokens (ends, below)).2.Proper := by
  induction tokens generalizing fresh ends below with
  | nil => exact h
  | cons t more ih =>
      by_cases hmore : more ≠ [] ∨ ended = true
      · rw [grow_cons _ _ _ hmore]
        refine proper_changeFrom (proper_place h) fun rest hrest hproper => ?_
        obtain ⟨-, id, values, ends', below', beside, rfl⟩ := from?_eq_some hrest
        exact ⟨hproper.1, hproper.2.1, ih hproper.2.2.1, hproper.2.2.2⟩
      · obtain ⟨rfl, rfl⟩ : more = [] ∧ ended = false := by simpa using hmore
        exact h

end Slots

namespace Tree

variable {σ : Type} {tree : Tree} {parent : Option NodeId} {level : Nat} {values : List Token}
  {ends : Int} {below beside : Slots}

def inserted (fault : Option Fault) (last : σ) (id : NodeId) (tree : Tree) :
    EStateM.Result Fault (Tree × σ) NodeId :=
  match fault with
  | none => .ok id (tree, last)
  | some fault => .error fault (tree, last)

theorem insertFrom_nil (fault : Option Fault) (last : σ)
    (h : tree.Holds parent (.slot level values ends below beside)) :
    ∃ tree', insertFrom fault last level [] tree = inserted fault last level tree' ∧
      tree.Replaces tree' parent (.slot level values ends below beside)
        (.slot level values (if fault.isNone then ends + 1 else ends) below beside) := by
  cases fault with
  | none =>
      let count : Node → Node := fun node => { node with lineEnds := node.lineEnds + 1 }
      have hrun := run_update (locate_of_get? h.spells.1) count
      refine ⟨setAt level count tree, ?_, Replaces.changed h rfl⟩
      rw [insertFrom, endLine, EStateM.run_bind, hrun]
      rfl
  | some fault => exact ⟨tree, rfl, Replaces.refl h⟩

theorem insertFrom_cons {fault : Option Fault} {last : σ} {t : Token} {s : σ}
    {more : List (Token × σ)} (h : more ≠ [] ∨ fault = none) {id : NodeId} {tree' : Tree}
    (hrun : (insertBelow level t (more.head?.map Prod.fst)).run tree = .ok id tree') :
    insertFrom fault last level ((t, s) :: more) tree = insertFrom fault last id more tree' := by
  rw [insertFrom, hrun]
  rintro f rfl rfl
  simp at h

/-- Inserting tokens below a node changes the line ends of the node and the chain below it as
`Slots.grow` says, and never fails by itself. -/
theorem insertFrom_eq (fault : Option Fault) (last : σ) (tokens : List (Token × σ))
    (h : tree.Holds parent (.slot level values ends below beside)) (hproper : below.Proper) :
    ∃ (id : NodeId) (tree' : Tree),
      insertFrom fault last level tokens tree = inserted fault last id tree' ∧
      tree.Replaces tree' parent (.slot level values ends below beside)
        ((Slots.slot level values ends below beside).mapBelow
          (Slots.grow fault.isNone tree.size (tokens.map Prod.fst))) := by
  induction tokens generalizing tree parent level values ends below beside with
  | nil =>
      obtain ⟨tree', hrun, hreplaces⟩ := insertFrom_nil fault last h
      exact ⟨level, tree', hrun, hreplaces⟩
  | cons token more ih =>
      obtain ⟨t, s⟩ := token
      by_cases hmore : more ≠ [] ∨ fault = none
      · obtain ⟨id, mid, rest, hplaced⟩ :=
          exists_placed h hproper t (more.head?.map Prod.fst)
        have hmid := hplaced.replaces.toHolds
        obtain ⟨-, id', values', ends', below', beside', rfl⟩ := Slots.from?_eq_some hplaced.found
        obtain rfl : id = id' := Int.ofNat.inj (Option.some.inj hplaced.first.symm)
        have hproper' := Slots.proper_from? (Slots.proper_place hproper) hplaced.found
        obtain ⟨end', tree', hrun, hreplaces⟩ :=
          ih (hmid.below.from? hplaced.found) hproper'.2.2.1
        refine ⟨end', tree', (insertFrom_cons hmore hplaced.run).trans hrun, ?_⟩
        have hnext : (more.head?.map Prod.fst).map Token.word =
            (more.map Prod.fst).head?.map Token.word := by cases more <;> rfl
        have hmore' : more.map Prod.fst ≠ [] ∨ fault.isNone = true := by
          simpa using hmore
        rw [Slots.mapBelow, List.map_cons, Slots.grow_cons _ _ _ hmore', ← hnext]
        rw [hplaced.size_eq] at hreplaces
        refine hplaced.replaces.trans (Replaces.lift_below hmid ?_ ?_)
        · exact Replaces.changeFrom hmid.below (Slots.first_mapBelow _) hplaced.found hreplaces
        · exact Slots.first_changeFrom (Slots.first_mapBelow _) _
      · obtain ⟨rfl, hfault⟩ : more = [] ∧ fault ≠ none := by simpa using hmore
        obtain ⟨fault, rfl⟩ := Option.ne_none_iff_exists'.mp hfault
        exact ⟨level, tree, rfl, Replaces.refl h⟩

theorem insertFeed_eq (h : tree.Comprises ends below) (feed : Feed σ) :
    ∃ (id : NodeId) (tree' : Tree),
      insertFeed feed tree = inserted feed.fault feed.last id tree' ∧
      tree'.Comprises
        (Slots.grow feed.fault.isNone tree.size (feed.tokens.map Prod.fst) (ends, below)).1
        (Slots.grow feed.fault.isNone tree.size (feed.tokens.map Prod.fst) (ends, below)).2 := by
  obtain ⟨id, tree', hrun, hreplaces⟩ :=
    insertFrom_eq feed.fault feed.last feed.tokens h.holds h.proper
  exact ⟨id, tree', hrun, h.replaces hreplaces (Slots.proper_grow h.proper)⟩

theorem run_insertTokens (h : tree.Comprises ends below) (tokens : List Token) :
    ∃ (id : NodeId) (tree' : Tree), (insertTokens tokens).run tree = .ok id tree' ∧
      tree'.Comprises (Slots.grow true tree.size tokens (ends, below)).1
        (Slots.grow true tree.size tokens (ends, below)).2 := by
  obtain ⟨id, tree', hrun, hcomprises⟩ :=
    insertFeed_eq h { tokens := tokens.map (·, ()), fault := none, last := () }
  refine ⟨id, tree', ?_, by simpa [Function.comp_def] using hcomprises⟩
  change Step.mapState Prod.fst (insertFeed _ tree) = _
  rw [hrun]
  rfl

end Tree

end LogMining
