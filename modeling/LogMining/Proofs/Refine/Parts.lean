import LogMining.Proofs.Refine.Affixes
import LogMining.Proofs.Refine.Split

/-!
# A word and its parts

Where the values of a slot are split, each of their words is the common front, a middle of its own and
the common back, one after the other. So the words are told apart by their middles, and the chain that
`Slots.factored` makes of a slot holds the three parts in this order.
-/

namespace LogMining

namespace Token

def middle (a : Affixes) (t : Token) : Token :=
  t.cut fun word => (word.take (word.length - a.back)).drop a.front

def frontOf (a : Affixes) (word : String) : String := String.ofList (word.toList.take a.front)

def backOf (a : Affixes) (word : String) : String :=
  String.ofList (word.toList.drop (word.toList.length - a.back))

variable {a : Affixes} {first t : Token} {more : List Token}

theorem eq_of_affixes? {values : List Token} (h : affixes? values = some a) :
    ∃ t u more, values = t :: u :: more ∧
      a = Affixes.ofChars t.word.toList ((u :: more).map fun v => v.word.toList) := by
  rcases values with _ | ⟨t, _ | ⟨u, more⟩⟩
  · cases h
  · cases h
  · refine ⟨t, u, more, rfl, ?_⟩
    rw [affixes?] at h
    split at h
    · cases h
    · dsimp only at h
      split at h
      · cases h
      · exact (Option.some.inj h).symm

theorem pos_of_affixes? {values : List Token} (h : affixes? values = some a) :
    0 < a.front ∨ 0 < a.back := by
  rcases values with _ | ⟨t, _ | ⟨u, more⟩⟩
  · cases h
  · cases h
  · rw [affixes?] at h
    split at h
    · cases h
    · dsimp only at h
      split at h
      · cases h
      · next hpos =>
        cases h
        omega

theorem mem_toList_of_affixes? (h : affixes? (first :: more) = some a) (ht : t ∈ first :: more) :
    ∃ others, a = Affixes.ofChars first.word.toList others ∧
      t.word.toList ∈ first.word.toList :: others := by
  obtain ⟨first', u, rest, hvalues, ha⟩ := eq_of_affixes? h
  cases hvalues
  refine ⟨_, ha, ?_⟩
  rw [← List.map_cons (f := fun v : Token => v.word.toList)]
  exact List.mem_map_of_mem ht

theorem front_add_back_le (h : affixes? (first :: more) = some a) (ht : t ∈ first :: more) :
    a.front + a.back ≤ t.word.toList.length := by
  obtain ⟨others, rfl, hmem⟩ := mem_toList_of_affixes? h ht
  exact Affixes.front_add_back_ofChars_le hmem

/-- A word is its front, its middle and its back, and the front and the back are those of the first
word. -/
theorem word_eq (h : affixes? (first :: more) = some a) (ht : t ∈ first :: more) :
    t.word = frontOf a first.word ++ (middle a t).word ++ backOf a first.word := by
  obtain ⟨others, rfl, hmem⟩ := mem_toList_of_affixes? h ht
  rw [frontOf, backOf, middle, cut, ← String.ofList_append, ← String.ofList_append,
    ← Affixes.eq_append_of_ofChars hmem, String.ofList_toList]

theorem nodup_map_middle {values : List Token} (h : affixes? values = some a)
    (hnodup : (values.map Token.word).Nodup) :
    ((values.map (middle a)).map Token.word).Nodup := by
  obtain ⟨first, u, more, rfl, -⟩ := eq_of_affixes? h
  rw [List.map_map]
  refine (List.nodup_map_iff_inj_on hnodup.of_map).mpr ?_
  intro t ht v hv heq
  have hword : t.word = v.word := by
    rw [word_eq h ht, word_eq h hv]
    exact congrArg (fun m => frontOf a first.word ++ m ++ backOf a first.word) heq
  exact List.inj_on_of_nodup_map hnodup ht hv hword

theorem cut_back_cut_front (h : a.front + a.back ≤ t.word.toList.length) :
    (t.cut (Text.dropSigned a.front)).cut (dropLast a.back) = middle a t := by
  have hlength : ((t.word.toList.length - a.front : Nat) : Int) - a.back =
      (t.word.toList.length - a.front - a.back : Nat) := by omega
  simp only [cut, middle, String.toList_ofList, Text.dropSigned_natCast, dropLast,
    List.length_drop, hlength, Text.takeSigned_natCast, Token.mk.injEq, and_true]
  rw [List.drop_take]
  congr 2
  omega

theorem cut_eq_self {part : List Char → List Char} (h : part t.word.toList = t.word.toList) :
    t.cut part = t := by
  rw [cut, h, String.ofList_toList]

theorem behindFront_natCast (n : Nat) (values : List Token) :
    behindFront n values = values.map (Token.cut (Text.dropSigned n)) := by
  rw [behindFront]
  split
  · rfl
  · next hn =>
    obtain rfl : n = 0 := by omega
    symm
    apply List.map_id''
    intro t
    exact cut_eq_self (by rw [Text.dropSigned_natCast, List.drop_zero])

theorem beforeBack_natCast (n : Nat) (values : List Token) :
    beforeBack n values = values.map (Token.cut (Token.dropLast n)) := by
  rw [beforeBack]
  split
  · rfl
  · next hn =>
    obtain rfl : n = 0 := by omega
    symm
    apply List.map_id''
    intro t
    exact cut_eq_self (by simp [dropLast])

theorem beforeBack_behindFront (h : affixes? (first :: more) = some a) :
    beforeBack a.back (behindFront a.front (first :: more)) = (first :: more).map (middle a) := by
  rw [behindFront_natCast, beforeBack_natCast, List.map_map]
  apply List.map_congr_left
  intro t ht
  exact cut_back_cut_front (front_add_back_le h ht)

end Token

def Affixes.pieces (a : Affixes) : List Token → List (List Token)
  | [] => []
  | first :: more =>
    (if 0 < a.front then [[{ word := Token.frontOf a first.word, subword := true }]] else []) ++
      [Token.settled ((first :: more).map (Token.middle a))] ++
      if 0 < a.back then [[{ word := Token.backOf a first.word, subword := true }]] else []

namespace Token

/-- The values of the slots into which a slot with these values is split. There is only one unless something
is to be split off. -/
def pieces (values : List Token) : List (List Token) :=
  match affixes? values with
  | none => [values]
  | some a => a.pieces values

variable {values : List Token} {a : Affixes}

theorem pieces_of_none (h : affixes? values = none) : pieces values = [values] := by
  rw [pieces, h]

theorem pieces_of_some (h : affixes? values = some a) : pieces values = a.pieces values := by
  rw [pieces, h]

theorem two_le_length_pieces (h : affixes? values = some a) : 2 ≤ (a.pieces values).length := by
  obtain ⟨t, u, more, rfl, -⟩ := eq_of_affixes? h
  rcases pos_of_affixes? h with hpos | hpos
  · simp [Affixes.pieces, hpos]
  · simp [Affixes.pieces, hpos]

end Token

namespace Slots

variable {a : Affixes} {first : Token} {more : List Token}

/-- The slot of a front or a back that was cut off, with what was there before below it. -/
def part (id : Nat) (word : String) (below : Slots) : Slots :=
  slot id [{ word, subword := true }] 0 below nil

theorem withBack_behindFront (h : Token.affixes? (first :: more) = some a) (fresh : Nat)
    (below : Slots) :
    withBack fresh a.back (Token.behindFront a.front (first :: more)) below =
      if 0 < a.back then part fresh (Token.backOf a first.word) below else below := by
  have hle := Token.front_add_back_le h List.mem_cons_self
  have hlength : ((first.word.toList.length - a.front : Nat) : Int) - a.back =
      (first.word.toList.length - a.front - a.back : Nat) := by omega
  rw [Token.behindFront_natCast, List.map_cons, withBack]
  simp only [Int.natCast_pos]
  split
  · simp only [part, Token.ofPart, Token.takeLast, Token.cut, Token.backOf, String.toList_ofList,
      Text.dropSigned_natCast, List.length_drop, hlength, List.drop_drop]
    rw [show a.front + (first.word.toList.length - a.front - a.back) =
      first.word.toList.length - a.back by omega]
  · rfl

theorem factored_of_affixes? (h : Token.affixes? (first :: more) = some a) (fresh id : Nat)
    (ends : Int) (below beside : Slots) :
    (slot id (first :: more) ends below beside).factored fresh =
      let middles := Token.settled ((first :: more).map (Token.middle a))
      let back := fun n =>
        if 0 < a.back then part n (Token.backOf a first.word) below else below
      if 0 < a.front then
        slot id [{ word := Token.frontOf a first.word, subword := true }] ends
          (slot fresh middles 0 (back (fresh + 1)) nil) beside
      else slot id middles ends (back fresh) beside := by
  simp only [factored, h, disjoined, Token.beforeBack_behindFront h, withBack_behindFront h,
    Int.natCast_pos, Token.ofPart, Token.frontOf, Text.takeSigned_natCast]

/-- Slots one below the other, numbered from `fresh`, with the given values and what is below them. No line
ends at any of them. -/
def stack (fresh : Nat) : List (List Token) → Slots → Slots
  | [], below => below
  | values :: more, below => slot fresh values 0 (stack (fresh + 1) more below) nil

theorem exists_factored_eq (fresh id : Nat) (values : List Token) (ends : Int)
    (below beside : Slots) :
    ∃ head more, Token.pieces values = head :: more ∧
      (slot id values ends below beside).factored fresh =
        slot id head ends (stack fresh more below) beside := by
  cases ha : Token.affixes? values with
  | none => exact ⟨values, [], Token.pieces_of_none ha, by simp only [factored, ha]; rfl⟩
  | some a =>
      obtain ⟨t, u, more, rfl, -⟩ := Token.eq_of_affixes? ha
      rw [Token.pieces_of_some ha, factored_of_affixes? ha]
      by_cases hfront : 0 < a.front
      · by_cases hback : 0 < a.back
        · simp only [Affixes.pieces, if_pos hfront, if_pos hback]
          exact ⟨_, _, rfl, rfl⟩
        · simp only [Affixes.pieces, if_pos hfront, if_neg hback]
          exact ⟨_, _, rfl, rfl⟩
      · by_cases hback : 0 < a.back
        · simp only [Affixes.pieces, if_neg hfront, if_pos hback]
          exact ⟨_, _, rfl, rfl⟩
        · simp only [Affixes.pieces, if_neg hfront, if_neg hback]
          exact ⟨_, _, rfl, rfl⟩

/-- What is known of a slot that has been split. -/
theorem eq_stack_of_factored {fresh id : Nat} {values values' : List Token} {ends ends' : Int}
    {below below' beside : Slots}
    (h : (slot id values ends below beside).factored fresh = slot id values' ends' below' beside) :
    ∃ more, Token.pieces values = values' :: more ∧ ends' = ends ∧ below' = stack fresh more below := by
  obtain ⟨head, more, hpieces, hslot⟩ := exists_factored_eq fresh id values ends below beside
  have heq := hslot.symm.trans h
  rw [slot.injEq] at heq
  obtain ⟨-, rfl, rfl, rfl, -⟩ := heq
  exact ⟨more, hpieces, rfl, rfl⟩

end Slots

end LogMining
