import LogMining.Proofs.Refine.Merge
import LogMining.Proofs.Refine.Pass
import LogMining.Proofs.Refine.Relink

/-!
# Splitting a slot

What the values of a slot have in common is moved to slots of its own: the common front stays in the
slot, what remains of the values comes below it, and the common back is a slot behind that, which takes
over what was below. `Slots.disjoined` is the chain afterwards, and a pass that splits a node
makes this change and no other.
-/

namespace LogMining

namespace Token

/-- Values whose words have become parts of words: known shapes have been replaced and equal words
merged. -/
def settled (values : List Token) : List Token :=
  mergeDuplicates (values.map fun t => { t with subword := true }.shaped)

def behindFront (front : Int) (values : List Token) : List Token :=
  if 0 < front then values.map (Token.cut (Text.dropSigned front)) else values

def beforeBack (back : Int) (values : List Token) : List Token :=
  if 0 < back then values.map (Token.cut (Token.dropLast back)) else values

/-- What is to be split off values, if anything is. -/
def affixes? : List Token → Option Affixes
  | t :: u :: more =>
    if t.subword then none
    else
      let a := Affixes.ofChars t.word.toList ((u :: more).map fun v => v.word.toList)
      if a.front = 0 ∧ a.back = 0 then none else some a
  | _ => none

theorem behindFront_ne_nil (front : Int) {values : List Token} (h : values ≠ []) :
    behindFront front values ≠ [] := by
  rw [behindFront]
  split
  · simpa using h
  · exact h

theorem beforeBack_ne_nil (back : Int) {values : List Token} (h : values ≠ []) :
    beforeBack back values ≠ [] := by
  rw [beforeBack]
  split
  · simpa using h
  · exact h

theorem settled_ne_nil {values : List Token} (h : values ≠ []) : settled values ≠ [] :=
  mergeDuplicates_ne_nil (by simpa using h)

theorem nodup_settled (values : List Token) : ((settled values).map Token.word).Nodup :=
  nodup_mergeDuplicates _

end Token

namespace Slots

/-- The chain below what remains of values: the slot of the back, if there is one, with what was there
before below it. -/
def withBack (fresh : Nat) (back : Int) (values : List Token) (below : Slots) : Slots :=
  match values with
  | [] => below
  | t :: _ => if 0 < back then slot fresh [Token.ofPart (Token.takeLast back) t.word] 0 below nil else below

/-- The slot with front and back split off its values. Slots that are added are numbered from
`fresh`. -/
def disjoined (fresh : Nat) (front back : Int) : Slots → Slots
  | slot id (t :: more) lineEnds below beside =>
    let rest := Token.behindFront front (t :: more)
    if 0 < front then
      slot id [Token.ofPart (Text.takeSigned front) t.word] lineEnds
        (slot fresh (Token.settled (Token.beforeBack back rest)) 0
          (withBack (fresh + 1) back rest below) nil)
        beside
    else
      slot id (Token.settled (Token.beforeBack back rest)) lineEnds (withBack fresh back rest below)
        beside
  | slots => slots

/-- The slot with what its values have in common split off. -/
def factored (fresh : Nat) : Slots → Slots
  | slot id values lineEnds below beside =>
    match Token.affixes? values with
    | none => slot id values lineEnds below beside
    | some a => (slot id values lineEnds below beside).disjoined fresh a.front a.back
  | nil => nil

theorem proper_withBack {fresh : Nat} {back : Int} {values : List Token} {below : Slots}
    (h : below.Proper) : (withBack fresh back values below).Proper := by
  rcases values with _ | ⟨t, more⟩
  · exact h
  · rw [withBack]
    split
    · simp [h]
    · exact h

theorem proper_disjoined {fresh : Nat} {front back : Int} {slots : Slots} (h : slots.Proper) :
    (slots.disjoined fresh front back).Proper := by
  rcases slots with _ | ⟨id, _ | ⟨t, more⟩, ends, below, beside⟩
  · exact h
  · exact h
  · have hne := Token.settled_ne_nil (Token.beforeBack_ne_nil back
      (Token.behindFront_ne_nil front (List.cons_ne_nil t more)))
    rw [disjoined]
    split
    · simp only [proper_slot]
      exact ⟨by simp, by simp,
        ⟨hne, Token.nodup_settled _, proper_withBack h.2.2.1, trivial⟩, h.2.2.2⟩
    · exact ⟨hne, Token.nodup_settled _, proper_withBack h.2.2.1, h.2.2.2⟩

theorem proper_factored {fresh : Nat} {slots : Slots} (h : slots.Proper) :
    (slots.factored fresh).Proper := by
  cases slots with
  | nil => trivial
  | slot id values ends below beside =>
      rw [factored]
      split
      · exact h
      · exact proper_disjoined h

end Slots

namespace Tree

variable {tree : Tree} {parent : Option NodeId} {id : Nat} {t : Token} {values more : List Token}
  {ends : Int} {below beside : Slots}

theorem run_splitFront (h : tree.Holds parent (.slot id (t :: more) ends below beside))
    (front : Int) :
    ∃ tree', (splitFront id front).run tree = .ok (tree.size : Int) tree' ∧
      tree.Replaces tree' parent (.slot id (t :: more) ends below beside)
        (.slot id [Token.ofPart (Text.takeSigned front) t.word] ends
          (.slot tree.size ((t :: more).map (Token.cut (Text.dropSigned front))) 0 below .nil)
          beside) ∧
      tree'.size = tree.size + 1 := by
  let change : Node → Node := fun node =>
    { node with values := [Token.ofPart (Text.takeSigned front) t.word] }
  have hfront : tree.Replaces (setAt id change tree) parent (.slot id (t :: more) ends below beside)
      (.slot id [Token.ofPart (Text.takeSigned front) t.word] ends below beside) :=
    Replaces.changed h rfl
  obtain ⟨spliced, hrun, hspliced, hsize⟩ := run_splice hfront.toHolds (t :: more)
  rw [size_setAt] at hrun hspliced hsize
  have hrest := hspliced.toHolds.below
  have hcut : spliced.Replaces
      (setAt tree.size (Node.cut (Text.dropSigned front)) spliced) (some (id : Int))
      (.slot tree.size (t :: more) 0 below .nil)
      (.slot tree.size ((t :: more).map (Token.cut (Text.dropSigned front))) 0 below .nil) :=
    Replaces.changed hrest rfl
  refine ⟨_, ?_, hfront.trans (hspliced.trans (Replaces.lift_below hspliced.toHolds hcut rfl)),
    (size_setAt ..).trans hsize⟩
  simp only [splitFront, EStateM.run_bind, Step.run_query, locate_of_get? h.spells.1,
    Node.firstWord, EStateM.run_modify]
  rw [show (setAt id (fun node => { node with
    values := [Token.ofPart (Text.takeSigned front) t.word] }) tree) = setAt id change tree from rfl]
  rw [hrun]
  simp only [run_update (locate_of_get? hrest.spells.1)]
  rfl

theorem run_splitBack (h : tree.Holds parent (.slot id (t :: more) ends below beside))
    (back : Int) :
    ∃ tree', (splitBack id back).run tree = .ok () tree' ∧
      tree.Replaces tree' parent (.slot id (t :: more) ends below beside)
        (.slot id ((t :: more).map (Token.cut (Token.dropLast back))) ends
          (.slot tree.size [Token.ofPart (Token.takeLast back) t.word] 0 below .nil) beside) := by
  obtain ⟨spliced, hrun, hspliced, -⟩ :=
    run_splice h [Token.ofPart (Token.takeLast back) t.word]
  refine ⟨setAt id (Node.cut (Token.dropLast back)) spliced, ?_,
    hspliced.trans (Replaces.changed hspliced.toHolds rfl)⟩
  simp only [splitBack, EStateM.run_bind, Step.run_query, locate_of_get? h.spells.1,
    Node.firstWord]
  rw [hrun]
  rfl

def settle (id : NodeId) (back : Int) : Step Tree Unit := do
  let (n, _) ← Step.query (·.locate id)
  if 0 < back then splitBack id back
  modify (setAt n Node.settled)

theorem disjoin_eq (id : NodeId) (front back : Int) :
    disjoin id front back = do
      let rest ← if 0 < front then splitFront id front else pure id
      settle rest back
      return rest := by
  by_cases hback : 0 < back
  · simp only [disjoin, settle, bind_assoc, if_pos hback]
  · simp only [disjoin, settle, bind_assoc, if_neg hback]

theorem run_settle (h : tree.Holds parent (.slot id values ends below beside)) (hne : values ≠ [])
    (back : Int) :
    ∃ tree', (settle id back).run tree = .ok () tree' ∧
      tree.Replaces tree' parent (.slot id values ends below beside)
        (.slot id (Token.settled (Token.beforeBack back values)) ends
          (Slots.withBack tree.size back values below) beside) := by
  obtain ⟨t, more, rfl⟩ := List.exists_cons_of_ne_nil hne
  by_cases hback : 0 < back
  · obtain ⟨split, hrun, hsplit⟩ := run_splitBack h back
    refine ⟨setAt id Node.settled split, ?_, ?_⟩
    · simp only [settle, EStateM.run_bind, Step.run_query, locate_of_get? h.spells.1, if_pos hback]
      rw [hrun]
      rfl
    · rw [Token.beforeBack, if_pos hback, Slots.withBack, if_pos hback]
      exact hsplit.trans (Replaces.changed hsplit.toHolds rfl)
  · refine ⟨setAt id Node.settled tree, ?_, ?_⟩
    · simp only [settle, EStateM.run_bind, Step.run_query, locate_of_get? h.spells.1, if_neg hback]
      rfl
    · rw [Token.beforeBack, if_neg hback, Slots.withBack, if_neg hback]
      exact Replaces.changed h rfl

/-- Splitting a node splits its slot. What remains of the values is in the node itself unless there is a
front. -/
theorem run_disjoin (h : tree.Holds parent (.slot id values ends below beside)) (hne : values ≠ [])
    (front back : Int) :
    ∃ tree', (disjoin id front back).run tree = .ok (if 0 < front then (tree.size : Int) else id) tree' ∧
      tree.Replaces tree' parent (.slot id values ends below beside)
        ((Slots.slot id values ends below beside).disjoined tree.size front back) := by
  obtain ⟨t, more, rfl⟩ := List.exists_cons_of_ne_nil hne
  by_cases hfront : 0 < front
  · obtain ⟨split, hrun, hsplit, hsize⟩ := run_splitFront h front
    obtain ⟨tree', hrun', hsettle⟩ := run_settle hsplit.toHolds.below (by simp) back
    refine ⟨tree', ?_, ?_⟩
    · simp only [disjoin_eq, if_pos hfront, EStateM.run_bind, hrun, hrun']
      rfl
    · rw [Slots.disjoined, if_pos hfront]
      simp only [Token.behindFront, if_pos hfront]
      rw [hsize] at hsettle
      exact hsplit.trans (Replaces.lift_below hsplit.toHolds hsettle rfl)
  · obtain ⟨tree', hrun, hsettle⟩ := run_settle h hne back
    refine ⟨tree', ?_, ?_⟩
    · simp only [disjoin_eq, if_neg hfront, EStateM.run_bind, EStateM.run_pure, hrun]
    · rw [Slots.disjoined, if_neg hfront]
      simp only [Token.behindFront, if_neg hfront]
      exact hsettle

end Tree

namespace Pass

variable {parent : Option NodeId} {id : Nat} {values : List Token} {ends : Int}
  {below beside : Slots}

theorem affixes?_eq (node : Node) : node.affixes? = .ok (Token.affixes? node.values) := by
  unfold Node.affixes? Token.affixes?
  rcases node.values with _ | ⟨t, _ | ⟨u, more⟩⟩
  · rfl
  · rfl
  · simp only [List.map_cons, Affixes.ofWords]
    split
    · rfl
    · simp [bind, Except.bind, pure, Except.pure, Function.comp_def]

theorem run_factor {pass : Pass}
    (h : pass.tree.Holds parent (.slot id values ends below beside)) :
    ∃ pass', (factor id).run pass = .ok (Token.affixes? values).isSome pass' ∧
      pass.Replaces pass' parent (.slot id values ends below beside)
        ((Slots.slot id values ends below beside).factored pass.tree.size) := by
  cases haffixes : Token.affixes? values with
  | none =>
      refine ⟨pass, ?_, ?_⟩
      · simp only [factor, EStateM.run_bind, run_ask, Tree.node_of_get? h.spells.1, affixes?_eq,
          haffixes]
        rfl
      · simp only [Slots.factored, haffixes]
        exact Replaces.refl h
  | some a =>
      have hne : values ≠ [] := by
        rintro rfl
        cases haffixes
      obtain ⟨split, hrun, hsplit⟩ := Tree.run_disjoin h hne a.front a.back
      refine ⟨{ pass with
        tree := split
        notes := if pass.keepsNotes then pass.notes ++ a.notes values else pass.notes
        tally := { pass.tally with disjoined := pass.tally.disjoined + 1 } }, ?_, ?_⟩
      · simp only [factor, disjoin, EStateM.run_bind, run_ask, run_onTree, run_note, run_count,
          Tree.node_of_get? h.spells.1, affixes?_eq, haffixes]
        rw [hrun]
        rfl
      · simp only [Slots.factored, haffixes]
        exact ⟨hsplit, rfl⟩

end Pass

end LogMining
