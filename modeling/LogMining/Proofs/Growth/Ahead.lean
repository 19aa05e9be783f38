import LogMining.Proofs.Growth.Line

/-!
# Reading one token ahead

A token is placed when the one that follows it is known. What becomes of the tree depends on the tokens
alone and not on the source from which they come: a source that hands out its tokens one by one does what
a finished list of them does. If it fails, the last token that has come out is still waiting to be placed,
and no line has ended.
-/

namespace LogMining.Tree

variable {σ : Type} {tree : Tree} {level : NodeId} {fault : Option Fault} {last s : σ} {t : Token}
  {more : List (Token × σ)}

theorem insertFrom_of_known (h : more ≠ [] ∨ fault = none) :
    insertFrom fault last level ((t, s) :: more) tree =
      match (insertBelow level t (more.head?.map Prod.fst)).run tree with
      | .ok id tree => insertFrom fault last id more tree
      | .error fault tree => .error fault (tree, (more.head?.map Prod.snd).getD last) := by
  cases more with
  | cons next more => rfl
  | nil =>
      cases fault with
      | none => rfl
      | some fault => simp at h

theorem mapState_insertFrom (fault : Option Fault) (last : σ) (level : NodeId)
    (tokens : List (Token × σ)) (tree : Tree) :
    Step.mapState Prod.fst (insertFrom fault last level tokens tree) =
      Step.mapState Prod.fst (insertFrom fault () level ((tokens.map Prod.fst).map (·, ())) tree) := by
  induction tokens generalizing level tree with
  | nil =>
      cases fault with
      | none =>
          rw [insertFrom, List.map_nil, List.map_nil, insertFrom]
          cases (endLine level).run tree <;> rfl
      | some fault => rfl
  | cons token more ih =>
      obtain ⟨t, s⟩ := token
      by_cases hknown : more ≠ [] ∨ fault = none
      · have hhead : more.head?.map Prod.fst =
            ((more.map Prod.fst).map (·, ())).head?.map Prod.fst := by
          cases more <;> rfl
        rw [List.map_cons, List.map_cons, insertFrom_of_known hknown,
          insertFrom_of_known (by simpa using hknown), hhead]
        cases (insertBelow level t _).run tree with
        | ok id mid => exact ih id mid
        | error fault mid => rfl
      · obtain ⟨rfl, hfault⟩ : more = [] ∧ fault ≠ none := by simpa using hknown
        obtain ⟨fault, rfl⟩ := Option.ne_none_iff_exists'.mp hfault
        rfl

theorem mapState_insertFeed {feed : Feed σ} (h : feed.fault = none) (tree : Tree) :
    Step.mapState Prod.fst (insertFeed feed tree) =
      (insertTokens (feed.tokens.map Prod.fst)).run tree := by
  rw [insertFeed, mapState_insertFrom, h]
  rfl

/-- Places tokens one below the other, each with the token that follows it. The last one is not placed, since
nothing follows it yet. -/
def placeAhead (level : NodeId) : List Token → Step Tree Unit
  | t :: next :: more => do
    let id ← insertBelow level t (some next)
    placeAhead id (next :: more)
  | _ => pure ()

/-- What a source hands out until it fails is placed as far as the last token but one. -/
theorem state_insertFrom_of_fault (fault : Fault) (last : σ) (level : NodeId)
    (tokens : List (Token × σ)) (tree : Tree) :
    (Step.state (insertFrom (some fault) last level tokens tree)).1 =
      Step.state ((placeAhead level (tokens.map Prod.fst)).run tree) := by
  induction tokens generalizing level tree with
  | nil => rfl
  | cons token more ih =>
      obtain ⟨t, s⟩ := token
      cases more with
      | nil => rfl
      | cons token more =>
          rw [insertFrom_of_known (.inl (by simp)), List.map_cons, List.map_cons, placeAhead,
            EStateM.run_bind]
          cases hrun : (insertBelow level t (some token.1)).run tree with
          | ok id mid =>
              simp only [List.head?_cons, Option.map_some, hrun]
              exact ih id mid
          | error fault mid =>
              simp only [List.head?_cons, Option.map_some, hrun]
              rfl

theorem lineEndsAt_setAt (change : Node → Node) (h : ∀ node, (change node).lineEnds = node.lineEnds)
    (n : Nat) (tree : Tree) : (setAt n change tree).lineEndsAt = tree.lineEndsAt := by
  funext m
  rw [lineEndsAt, lineEndsAt, get?_setAt]
  split
  · cases tree.get? m with
    | none => rfl
    | some node => exact h node
  · rfl

theorem lineEndsAt_update {change : Node → Node} (h : ∀ node, (change node).lineEnds = node.lineEnds)
    (id : NodeId) (tree : Tree) :
    (Step.state ((update id change).run tree)).lineEndsAt = tree.lineEndsAt := by
  rw [update, EStateM.run_bind, Step.run_query]
  cases tree.locate id with
  | error fault => rfl
  | ok found => exact lineEndsAt_setAt change h found.1 tree

theorem lineEndsAt_create (node : Node) (h : node.lineEnds = 0) (tree : Tree) :
    lineEndsAt ⟨tree.nodes.push (some node)⟩ = tree.lineEndsAt := by
  funext m
  rw [lineEndsAt, lineEndsAt, get?_push]
  split
  · next hm =>
    rw [get?_eq_none_of_size_le (Nat.le_of_eq hm.symm)]
    exact h
  · rfl

theorem lineEndsAt_insertBelow (level : NodeId) (t : Token) (next : Option Token) (tree : Tree) :
    (Step.state ((insertBelow level t next).run tree)).lineEndsAt = tree.lineEndsAt := by
  -- no node has its line ends changed, however far the step gets
  have hupdate := fun (change : Node → Node) (h : ∀ node, (change node).lineEnds = node.lineEnds)
    (id : NodeId) (tree : Tree) => lineEndsAt_update h id tree
  rw [insertBelow, EStateM.run_bind, Step.run_query]
  cases tree.locate level with
  | error fault => rfl
  | ok found =>
      dsimp only
      rw [EStateM.run_bind, Step.run_query]
      cases tree.placement found.2.child t.word (next.map Token.word) with
      | error fault => rfl
      | ok place =>
          cases place with
          | counted id =>
              have hcount := hupdate (fun node => { node with values := countWord t.word node.values })
                (fun _ => rfl) id tree
              dsimp only
              rw [EStateM.run_bind]
              split
              · next hrun => rwa [hrun] at hcount
              · next hrun => rwa [hrun] at hcount
          | joined id =>
              have hjoin := hupdate
                (fun node => { node with values := node.values ++ [{ t with occurs := 1 }] })
                (fun _ => rfl) id tree
              dsimp only
              rw [EStateM.run_bind]
              split
              · next hrun => rwa [hrun] at hjoin
              · next hrun => rwa [hrun] at hjoin
          | opened last =>
              have hcreate := lineEndsAt_create { values := [t], parent := some level } rfl tree
              dsimp only
              rw [EStateM.run_bind, run_create]
              cases last with
              | none =>
                  have hlink := lineEndsAt_setAt
                    (fun node => { node with child := some (tree.size : Int) })
                    (fun _ => rfl) found.1 ⟨tree.nodes.push (some { values := [t], parent := some level })⟩
                  exact hlink.trans hcreate
              | some last =>
                  have hlink := hupdate (fun node => { node with sibling := some (tree.size : Int) })
                    (fun _ => rfl) last ⟨tree.nodes.push (some { values := [t], parent := some level })⟩
                  dsimp only
                  rw [EStateM.run_bind]
                  split
                  · next hrun => rw [hrun] at hlink; exact hlink.trans hcreate
                  · next hrun => rw [hrun] at hlink; exact hlink.trans hcreate

theorem lineEndsAt_placeAhead (level : NodeId) (tokens : List Token) (tree : Tree) :
    (Step.state ((placeAhead level tokens).run tree)).lineEndsAt = tree.lineEndsAt := by
  induction tokens generalizing level tree with
  | nil => rfl
  | cons t more ih =>
      cases more with
      | nil => rfl
      | cons next more =>
          have hplace := lineEndsAt_insertBelow level t (some next) tree
          rw [placeAhead, EStateM.run_bind]
          cases hrun : (insertBelow level t (some next)).run tree with
          | ok id mid =>
              rw [hrun] at hplace
              exact (ih id mid).trans hplace
          | error fault mid =>
              rw [hrun] at hplace
              exact hplace

end LogMining.Tree
