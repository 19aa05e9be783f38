import LogMining.Proofs.Sharing.Stable

/-!
# Inserting a line again

A line that a tree carries is only counted when it is inserted: each of its words is found in a node, where
it counts once more, and the line ends at the last of these nodes. `Tree.Recounts` says that this is all
that happens to the tree.
-/

namespace LogMining

namespace Tree

/-- From the first tree to the second one, each node of a path has counted one of its values once more, one
line more ends at `last`, and nothing else has changed. -/
structure Recounts (tree tree' : Tree) (path : List (NodeId × String)) (last : NodeId) : Prop where
  size_eq : tree'.size = tree.size
  passed : ∀ (n : Nat) word, ((n : Int), word) ∈ path → ∃ node before t after,
    tree.get? n = some node ∧ node.values = before ++ t :: after ∧ t.word = word ∧
      tree'.get? n = some { node with
        values := before ++ { t with occurs := t.occurs + 1 } :: after
        lineEnds := node.lineEnds + if (n : Int) = last then 1 else 0 }
  kept : ∀ n : Nat, (n : Int) ∉ path.map Prod.fst →
    tree'.get? n = (tree.get? n).map fun node =>
      { node with lineEnds := node.lineEnds + if (n : Int) = last then 1 else 0 }

theorem exists_countWord {word : String} {values : List Token} (h : word ∈ values.map Token.word) :
    ∃ before t after, values = before ++ t :: after ∧ t.word = word ∧
      countWord word values = before ++ { t with occurs := t.occurs + 1 } :: after := by
  induction values with
  | nil => cases h
  | cons t values ih =>
      rw [countWord]
      split
      · next hword => exact ⟨[], t, values, rfl, hword, rfl⟩
      · next hword =>
        rw [List.map_cons, List.mem_cons] at h
        obtain ⟨before, u, after, rfl, hu, hcount⟩ := ih (h.resolve_left (Ne.symm hword))
        exact ⟨t :: before, u, after, rfl, hu, by rw [hcount, List.cons_append]⟩

variable {σ : Type} {tree tree' : Tree} {parent : Option NodeId} {slots below beside : Slots}
  {level id : Nat} {values : List Token} {ends : Int} {last : NodeId} {word : String}
  {words : List String} {path : List (NodeId × String)} {node : Node}

theorem recounts_nil (tree : Tree) (n : Nat) :
    tree.Recounts (setAt n (fun node => { node with lineEnds := node.lineEnds + 1 }) tree) [] n where
  size_eq := size_setAt ..
  passed _ _ h := by cases h
  kept m _ := by
    rw [get?_setAt]
    by_cases hm : n = m
    · subst hm
      simp
    · have hne : ¬(m : Int) = n := fun heq => hm (Int.ofNat.inj heq).symm
      simp [hm, hne]

theorem Recounts.cons (hnode : tree.get? id = some node) (hword : word ∈ node.values.map Token.word)
    (hid : (id : Int) ∉ path.map Prod.fst)
    (h : Recounts (setAt id (fun node => { node with values := countWord word node.values }) tree)
      tree' path last) : tree.Recounts tree' (((id : Int), word) :: path) last where
  size_eq := h.size_eq.trans (size_setAt ..)
  passed n w hmem := by
    rcases List.mem_cons.mp hmem with heq | hmem
    · rw [Prod.mk.injEq] at heq
      obtain ⟨hn, rfl⟩ := heq
      obtain rfl : n = id := Int.ofNat.inj hn
      obtain ⟨before, t, after, hvalues, ht, hcount⟩ := exists_countWord hword
      refine ⟨node, before, t, after, hnode, hvalues, ht, ?_⟩
      rw [h.kept n hid, get?_setAt, if_pos rfl, hnode, Option.map_some, Option.map_some, hcount]
    · have hne : id ≠ n := fun heq => hid (heq ▸ List.mem_map_of_mem (f := Prod.fst) hmem)
      obtain ⟨node', before, t, after, hnode', hvalues, ht, hnext⟩ := h.passed n w hmem
      rw [get?_setAt, if_neg hne] at hnode'
      exact ⟨node', before, t, after, hnode', hvalues, ht, hnext⟩
  kept n hn := by
    rw [List.map_cons, List.mem_cons, not_or] at hn
    have hne : ¬id = n := fun heq => hn.1 (heq ▸ rfl)
    rw [h.kept n hn.2, get?_setAt, if_neg hne]

end Tree

namespace Slots

variable {slots : Slots} {word : String} {words : List String}

theorem Carries.exists_slot (h : slots.Carries (word :: words)) :
    ∃ id values ends below beside,
      slots.from? (holdsWord word) = some (slot id values ends below beside) ∧
      slots.route (word :: words) = (id : Int) :: below.route words ∧ below.Carries words := by
  rw [Carries, route] at h
  cases hrest : slots.from? (holdsWord word) with
  | none =>
      rw [hrest] at h
      cases h
  | some rest =>
      obtain ⟨-, id, values, ends, below, beside, rfl⟩ := from?_eq_some hrest
      rw [hrest] at h
      refine ⟨id, values, ends, below, beside, rfl, ?_, Nat.succ.inj h⟩
      rw [route, hrest]

end Slots

namespace Tree

variable {σ : Type} {tree : Tree} {parent : Option NodeId} {below beside : Slots} {level : Nat}
  {values : List Token} {ends : Int}

theorem insertBelow_of_from? (h : tree.Holds parent (.slot level values ends below beside))
    (hproper : below.Proper) {t : Token} (next : Option Token) {id : Nat} {values' : List Token}
    {ends' : Int} {below' beside' : Slots}
    (hrest : below.from? (Slots.holdsWord t.word) = some (.slot id values' ends' below' beside')) :
    (insertBelow level t next).run tree = .ok (id : Int)
      (setAt id (fun node => { node with values := countWord t.word node.values }) tree) := by
  have hplace := placement_of_mem (next.map Token.word) h.below hproper hrest rfl
  have hrun := run_update (locate_of_get? (h.below.from? hrest).spells.1)
    fun node => { node with values := countWord t.word node.values }
  simp only [insertBelow, EStateM.run_bind, Step.run_query, locate_of_get? h.spells.1, hplace, hrun]
  rfl

/-- Inserting a line that is carried counts it along its route. -/
theorem insertFrom_again (last : σ) (tokens : List (Token × σ))
    (h : tree.Holds parent (.slot level values ends below beside)) (hproper : below.Proper)
    (hcarries : below.Carries ((tokens.map Prod.fst).map Token.word)) :
    let words := (tokens.map Prod.fst).map Token.word
    ∃ id tree', insertFrom none last level tokens tree = .ok id (tree', last) ∧
      ((level : Int) :: below.route words).getLast? = some id ∧
      tree.Recounts tree' ((below.route words).zip words) id := by
  induction tokens generalizing tree parent level values ends below beside with
  | nil =>
      let count : Node → Node := fun node => { node with lineEnds := node.lineEnds + 1 }
      have hrun := run_update (locate_of_get? h.spells.1) count
      refine ⟨level, setAt level count tree, ?_, by simp, by simpa using recounts_nil tree level⟩
      rw [insertFrom, endLine, EStateM.run_bind, hrun]
      rfl
  | cons token more ih =>
      obtain ⟨t, s⟩ := token
      obtain ⟨id, values', ends', below', beside', hrest, hroute, hcarries'⟩ :=
        Slots.Carries.exists_slot hcarries
      have hslot := h.below.from? hrest
      have hholds := (Slots.holdsWord_slot ..).mp (Slots.from?_eq_some hrest).1
      let count : Node → Node := fun node => { node with values := countWord t.word node.values }
      have hcounted : tree.Replaces (setAt id count tree) (some (level : Int))
          (.slot id values' ends' below' beside')
          (.slot id (countWord t.word values') ends' below' beside') := Replaces.changed hslot rfl
      obtain ⟨last', tree', hrun, hlast, hrecounts⟩ := ih hcounted.toHolds
        (Slots.proper_from? hproper hrest).2.2.1 hcarries'
      refine ⟨last', tree', ?_, ?_, ?_⟩
      · rw [insertFrom_cons (.inr rfl) (insertBelow_of_from? h hproper _ hrest)]
        exact hrun
      · rw [List.map_cons, List.map_cons, hroute, List.getLast?_cons_cons]
        exact hlast
      · rw [List.map_cons, List.map_cons, hroute, List.zip_cons_cons]
        refine Recounts.cons hslot.spells.1 hholds ?_ hrecounts
        intro hmem
        obtain ⟨p, hp, heq⟩ := List.mem_map.mp hmem
        obtain ⟨n, hn, hid⟩ := Slots.mem_ids_of_mem_route (List.of_mem_zip hp).1
        obtain rfl : n = id := Int.ofNat.inj (hid.symm.trans heq)
        exact (Slots.nodup_ids_slot.mp hslot.nodup).1 hn

/-- A line that is carried comes to the end of its route when it is inserted again, and is only counted. -/
theorem run_insertTokens_again (h : tree.Comprises ends below) (tokens : List Token)
    (hcarries : below.Carries (tokens.map Token.word)) :
    ∃ id tree', (insertTokens tokens).run tree = .ok id tree' ∧
      (root :: below.route (tokens.map Token.word)).getLast? = some id ∧
      tree.Recounts tree' ((below.route (tokens.map Token.word)).zip (tokens.map Token.word)) id := by
  have htokens : (tokens.map (·, ())).map Prod.fst = tokens := by simp [Function.comp_def]
  have hinsert := insertFrom_again () (tokens.map (·, ())) h.holds h.proper
    (by rw [htokens]; exact hcarries)
  dsimp only at hinsert
  rw [htokens] at hinsert
  obtain ⟨id, tree', hrun, hlast, hrecounts⟩ := hinsert
  refine ⟨id, tree', ?_, hlast, hrecounts⟩
  rw [run_insertTokens_eq]
  exact congrArg (Step.mapState Prod.fst) hrun

end Tree

end LogMining
