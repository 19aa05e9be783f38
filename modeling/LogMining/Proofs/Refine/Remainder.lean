import LogMining.Proofs.Refine.Intact
import LogMining.Proofs.Refine.Meets

/-!
# What remains of a value that is split

Front and back are cut off every value of a slot that is split, also off those that are parts of words
already, since only the first value is asked whether it is one. The word of each value changes then: what
remains is shorter, and a placeholder that takes its place is another one than before.
-/

namespace LogMining

/-- What is left of a placeholder without its ends does not have the shape for which it stands. -/
theorem Shape.ofWord?_drop_take_placeholder (shape : Shape) {front back : Nat} (hpos : 0 < front + back)
    (hle : front + back ≤ shape.placeholder.toList.length) :
    ofWord? ((shape.placeholder.toList.take (shape.placeholder.toList.length - back)).drop front) ≠
      some shape := by
  have hall : ∀ shape ∈ ofTokens ++ ofLines, ∀ front < shape.placeholder.toList.length + 1,
      ∀ back < shape.placeholder.toList.length + 1, 0 < front + back →
        ofWord? ((shape.placeholder.toList.take (shape.placeholder.toList.length - back)).drop front) ≠
          some shape := by
    decide +kernel
  have hmem : shape ∈ ofTokens ++ ofLines := by cases shape <;> decide
  exact hall shape hmem front (by omega) back (by omega) hpos

namespace Token

variable {values : List Token} {a : Affixes} {t : Token}

/-- What becomes of a value of a slot from which the affixes are split off, before equal words are merged. -/
def remainder (a : Affixes) (t : Token) : Token := (middle a t).asPart

theorem settled_map_middle (a : Affixes) (values : List Token) :
    settled (values.map (middle a)) = mergeDuplicates (values.map (remainder a)) := by
  rw [settled, List.map_map]
  rfl

theorem remainder_word_ne (ha : affixes? values = some a) (ht : t ∈ values) :
    (remainder a t).word ≠ t.word := by
  obtain ⟨first, u, more, rfl, -⟩ := eq_of_affixes? ha
  have hle := front_add_back_le ha ht
  have hpos := pos_of_affixes? ha
  intro hword
  cases hshape : Shape.ofWord? (middle a t).word.toList with
  | none =>
      rw [remainder, asPart_of_none hshape] at hword
      have hlength := congrArg (fun word => word.toList.length) hword
      simp only [middle, cut, String.toList_ofList, List.length_drop, List.length_take] at hlength
      omega
  | some shape =>
      rw [remainder, asPart_of_some hshape] at hword
      simp only [middle, cut, String.toList_ofList, ← hword] at hshape hle
      exact shape.ofWord?_drop_take_placeholder (by omega) hle hshape

end Token

namespace Pass

variable {pass : Pass} {parent : Option NodeId} {id : Nat} {values : List Token} {ends : Int}
  {below beside : Slots} {a : Affixes}

/-- Splitting a node leaves what remains of its values, with equal words merged, in the node that is
returned. -/
theorem run_disjoin_of_affixes? (h : pass.tree.Holds parent (.slot id values ends below beside))
    (ha : Token.affixes? values = some a) :
    ∃ rest pass' node, (disjoin id a.front a.back).run pass = .ok rest pass' ∧
      pass'.tree.node rest = .ok node ∧
      node.values = Token.mergeDuplicates (values.map (Token.remainder a)) := by
  obtain ⟨first, u, more, rfl, -⟩ := Token.eq_of_affixes? ha
  obtain ⟨tree, hrun, hreplaces⟩ := Tree.run_disjoin h (List.cons_ne_nil first (u :: more)) a.front a.back
  have hslots := Slots.factored_of_affixes? ha pass.tree.size id ends below beside
  rw [Slots.factored, ha] at hslots
  dsimp only at hslots
  rw [hslots] at hreplaces
  have hdisjoin : ∀ rest, (Tree.disjoin id a.front a.back).run pass.tree = .ok rest tree →
      (disjoin id a.front a.back).run pass = .ok rest
        { pass with tree, tally := { pass.tally with disjoined := pass.tally.disjoined + 1 } } := by
    intro rest hrest
    rw [disjoin, EStateM.run_bind, run_onTree, hrest]
    rfl
  rw [← Token.settled_map_middle]
  by_cases hfront : 0 < a.front
  · rw [if_pos (Int.natCast_pos.mpr hfront)] at hrun
    simp only [if_pos hfront] at hreplaces
    exact ⟨_, _, _, hdisjoin _ hrun, Tree.node_of_get? hreplaces.spells.2.1.1, rfl⟩
  · rw [if_neg (by omega)] at hrun
    simp only [if_neg hfront] at hreplaces
    exact ⟨_, _, _, hdisjoin _ hrun, Tree.node_of_get? hreplaces.spells.1, rfl⟩

end Pass

end LogMining
