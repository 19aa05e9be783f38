import LogMining.Refine.Affixes
import Mathlib.Order.MinMax

/-!
# Affixes are shared and apart

The front and the back that `Affixes.ofChars` finds are a front and a back of every one of the words,
and never overlap in any of them. The correction for fields only shortens what the words have in common.
-/

namespace LogMining

theorem sharedLength_le_right (left right : List Char) :
    sharedLength left right ≤ right.length := by
  fun_induction sharedLength left right with
  | case1 left d right ih => simpa using ih
  | case2 => simp
  | case3 => simp

theorem take_sharedLength (left right : List Char) :
    right.take (sharedLength left right) = left.take (sharedLength left right) := by
  fun_induction sharedLength left right with
  | case1 left d right ih => simpa using ih
  | case2 => simp
  | case3 => simp

theorem le_foldl_min_iff {α : Type} (f : α → Nat) (words : List α) (init n : Nat) :
    n ≤ words.foldl (fun m word => min m (f word)) init ↔
      n ≤ init ∧ ∀ word ∈ words, n ≤ f word := by
  induction words generalizing init with
  | nil => simp
  | cons word words ih =>
      rw [List.foldl_cons, ih, le_min_iff, List.forall_mem_cons, and_assoc]

theorem commonLength_le (base : List Char) (others : List (List Char)) :
    commonLength base others ≤ base.length ∧
      ∀ word ∈ others, commonLength base others ≤ sharedLength base word :=
  (le_foldl_min_iff (sharedLength base) others base.length _).mp le_rfl

theorem take_of_le_commonLength {base word : List Char} {others : List (List Char)} {n : Nat}
    (hn : n ≤ commonLength base others) (h : word ∈ base :: others) :
    word.take n = base.take n ∧ n ≤ word.length := by
  obtain ⟨hbase, hothers⟩ := commonLength_le base others
  rcases List.mem_cons.mp h with rfl | h
  · exact ⟨rfl, hn.trans hbase⟩
  · have hshared := hn.trans (hothers word h)
    refine ⟨?_, hshared.trans (sharedLength_le_right base word)⟩
    have htake := congrArg (List.take n) (take_sharedLength base word)
    rwa [List.take_take, List.take_take, min_eq_left hshared] at htake

namespace Affixes

theorem le_of_fieldCut? {back front : List Char} {a : Affixes}
    (h : fieldCut? back front = some a) : a.front ≤ front.length ∧ a.back ≤ back.length := by
  induction front with
  | nil => cases h
  | cons c before ih =>
      have hrest : fieldCut? back before = some a →
          a.front ≤ (c :: before).length ∧ a.back ≤ back.length := by
        intro h
        exact ⟨(ih h).1.trans (by simp), (ih h).2⟩
      rw [fieldCut?] at h
      split at h
      · next close _ =>
        split at h
        · next n hn =>
          cases h
          refine ⟨le_rfl, ?_⟩
          rw [endWith?, Option.map_eq_some_iff] at hn
          obtain ⟨i, hi, rfl⟩ := hn
          obtain ⟨hlt, -⟩ := List.findIdx?_eq_some_iff_getElem.mp hi
          exact hlt
        · exact hrest h
      · split at h
        · cases h
          exact ⟨le_rfl, le_rfl⟩
        · exact hrest h

theorem front_add_back_apart_le {a : Affixes} {shortest : Nat} (h : a.front ≤ shortest) :
    (a.apart shortest).front + (a.apart shortest).back ≤ shortest := by
  simp only [apart]
  omega

theorem getD_fieldCut?_le (left right : List Char) (front back : Nat) :
    ((fieldCut? (right.take back) (left.take front).reverse).getD { front, back }).front ≤ front ∧
      ((fieldCut? (right.take back) (left.take front).reverse).getD { front, back }).back ≤
        back := by
  cases h : fieldCut? (right.take back) (left.take front).reverse with
  | none => simp
  | some a =>
      obtain ⟨hfront, hback⟩ := le_of_fieldCut? h
      rw [List.length_reverse, List.length_take] at hfront
      rw [List.length_take] at hback
      exact ⟨hfront.trans (min_le_left _ _), hback.trans (min_le_left _ _)⟩

variable {base word : List Char} {others : List (List Char)}

theorem take_front_ofChars (h : word ∈ base :: others) :
    word.take (ofChars base others).front = base.take (ofChars base others).front := by
  have hfront : (ofChars base others).front ≤ commonLength base others :=
    (getD_fieldCut?_le ..).1
  exact (take_of_le_commonLength hfront h).1

theorem drop_back_ofChars (h : word ∈ base :: others) :
    word.drop (word.length - (ofChars base others).back) =
      base.drop (base.length - (ofChars base others).back) := by
  have hback : (ofChars base others).back ≤
      commonLength base.reverse (others.map List.reverse) :=
    (min_le_left _ _).trans (getD_fieldCut?_le ..).2
  have hmem : word.reverse ∈ base.reverse :: others.map List.reverse := by
    simpa using h
  have htake := (take_of_le_commonLength hback hmem).1
  rwa [List.take_reverse, List.take_reverse, List.reverse_inj] at htake

theorem front_add_back_ofChars_le (h : word ∈ base :: others) :
    (ofChars base others).front + (ofChars base others).back ≤ word.length := by
  have hshortest := (le_foldl_min_iff List.length others base.length _).mp le_rfl
  have hle : others.foldl (fun n word => min n word.length) base.length ≤ word.length := by
    rcases List.mem_cons.mp h with rfl | h
    · exact hshortest.1
    · exact hshortest.2 word h
  refine (front_add_back_apart_le ?_).trans hle
  have hfront := (getD_fieldCut?_le base base.reverse (commonLength base others)
    (commonLength base.reverse (others.map List.reverse))).1
  refine hfront.trans ((le_foldl_min_iff List.length others base.length _).mpr ⟨?_, ?_⟩)
  · exact (commonLength_le base others).1
  · intro other hother
    exact ((commonLength_le base others).2 other hother).trans (sharedLength_le_right base other)

theorem eq_append_of_ofChars (h : word ∈ base :: others) :
    word = base.take (ofChars base others).front ++
      (word.take (word.length - (ofChars base others).back)).drop (ofChars base others).front ++
      base.drop (base.length - (ofChars base others).back) := by
  have hle := front_add_back_ofChars_le h
  rw [← take_front_ofChars h, ← drop_back_ofChars h]
  have htake : word.take (ofChars base others).front =
      (word.take (word.length - (ofChars base others).back)).take (ofChars base others).front := by
    rw [List.take_take, Nat.min_eq_left (by omega)]
  rw [htake, List.take_append_drop, List.take_append_drop]

end Affixes

end LogMining
