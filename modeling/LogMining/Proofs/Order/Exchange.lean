import LogMining.Proofs.Order.Alike
import LogMining.Proofs.Order.Sorting
import Mathlib.Data.List.Induction

/-!
# Lines that may not be exchanged

If a word shares a follower with another word and is also followed by something else, the line that comes
first decides whether the two words share a slot, and later lines leave it at that. So lines that grow into
the same slots in any order are unambiguous.
-/

namespace LogMining.Slots

/-- In any two orders the lines grow into the same slots. -/
def OrderFree (lines : List (List String)) : Prop :=
  ∀ first second, first.Perm lines → second.Perm lines →
    ∃ p q, Grown first p ∧ Grown second q ∧ p.1 = q.1 ∧ Alike p.2 q.2

variable {lines : List (List String)} {p q : Int × Slots} {left right : String}

theorem Grown.exists_insert {line : List String} (h : Grown (lines ++ [line]) p) :
    ∃ tokens fresh p', tokens.map Token.word = line ∧ (∀ t ∈ tokens, t.occurs = 1) ∧
      Grown lines p' ∧ p = grow true fresh tokens p' := by
  generalize hall : lines ++ [line] = all at h
  cases h with
  | empty => simp at hall
  | @insert lines' p' tokens fresh hone h =>
      obtain ⟨rfl, hline⟩ := List.append_inj' hall rfl
      exact ⟨tokens, fresh, p', (List.singleton_inj.mp hline).symm, hone, h, rfl⟩

theorem together_grow (fresh : Nat) (tokens : List Token)
    (hleft : left ∈ p.2.members.flatMap Member.words)
    (hright : right ∈ p.2.members.flatMap Member.words) :
    Together (grow true fresh tokens p).2.members left right ↔
      Together p.2.members left right := by
  obtain ⟨ends, below⟩ := p
  cases tokens with
  | nil => rw [grow_nil]
  | cons t more =>
      obtain ⟨fresh', -, henters⟩ := enters_grow fresh ends below t more
      exact henters.together_iff hleft hright

theorem Grown.exists_first {more : List (List String)} (h : Grown (lines ++ more) p) :
    ∃ q, Grown lines q ∧
      ∀ left ∈ q.2.members.flatMap Member.words, ∀ right ∈ q.2.members.flatMap Member.words,
        Together p.2.members left right ↔ Together q.2.members left right := by
  induction more using List.reverseRecOn generalizing p with
  | nil =>
      rw [List.append_nil] at h
      exact ⟨p, h, fun _ _ _ _ => Iff.rfl⟩
  | append_singleton more line ih =>
      rw [← List.append_assoc] at h
      obtain ⟨tokens, fresh, p', -, -, hp', rfl⟩ := h.exists_insert
      obtain ⟨q, hq, hiff⟩ := ih hp'
      have hsub : ∀ w ∈ q.2.members.flatMap Member.words, w ∈ p'.2.members.flatMap Member.words := by
        intro w hw
        obtain ⟨rest, hrest⟩ := (hq.splits.mem_iff w).mp hw
        exact (hp'.splits.mem_iff w).mpr ⟨rest, List.mem_append_left _ hrest⟩
      refine ⟨q, hq, ?_⟩
      intro left hleft right hright
      rw [together_grow fresh tokens (hsub left hleft) (hsub right hright)]
      exact hiff left hleft right hright

theorem Grown.together_two {rest rest' : List String} (hne : left ≠ right)
    (h : Grown [left :: rest, right :: rest'] p) :
    Together p.2.members left right ↔ rest'.head?.isSome ∧ rest.head? = rest'.head? := by
  have hlast : Grown ([left :: rest] ++ [right :: rest']) p := h
  obtain ⟨tokens, fresh, ⟨ends, below⟩, hline, -, hbefore, rfl⟩ := hlast.exists_insert
  obtain ⟨t, more, rfl, rfl, rfl⟩ := List.map_eq_cons_iff.mp hline
  obtain ⟨fresh', -, henters⟩ := enters_grow fresh ends below t more
  have hsplits := hbefore.splits
  have hmem : ∀ w, w ∈ below.members.flatMap Member.words ↔ w = left := by
    intro w
    rw [hsplits.mem_iff]
    simp
  have hfollows : ∀ w other, Follows [left :: rest] w other → other = rest.head? := by
    rintro w other ⟨rest'', hrest, rfl⟩
    obtain ⟨-, rfl⟩ : w = left ∧ rest'' = rest := by simpa using hrest
    rfl
  rw [List.head?_map]
  rcases henters.together_new (by rw [hmem]; exact hne.symm) with
    ⟨m, hm, hnext, hlead, hiff⟩ | ⟨hlead, hnot⟩
  · -- the second word joins the slot of the first one
    obtain ⟨next, hnext'⟩ := Option.isSome_iff_exists.mp hnext
    obtain ⟨w, hw, hfollow⟩ := hsplits.follows_of_firstWord? hm (hlead.trans hnext')
    have hword : w = left := (hmem w).mp (List.mem_flatMap_of_mem hm hw)
    refine iff_of_true ?_ ⟨hnext, ?_⟩
    · rw [hiff left ((hmem left).mpr rfl), ← hword]
      exact hw
    · rw [hnext', ← hfollows w _ hfollow]
  · -- the second word opens a slot
    refine iff_of_false (hnot left ((hmem left).mpr rfl)) ?_
    rintro ⟨hnext, hhead⟩
    obtain ⟨next, hnext'⟩ := Option.isSome_iff_exists.mp hnext
    obtain ⟨m, hm, -⟩ := List.mem_flatMap.mp ((hmem left).mpr rfl)
    apply hlead m hm hnext
    rw [hnext']
    apply hsplits.firstWord?_of_follows hm
    intro w _ other hother
    rw [hfollows w other hother, hhead, hnext']

theorem Alike.together {slots slots' : Slots} (h : Alike slots slots')
    (htogether : Together slots.members left right) : Together slots'.members left right := by
  obtain ⟨m, hm, hleft, hright⟩ := htogether
  obtain ⟨m', hm', halike⟩ := h.exists_member m hm
  exact ⟨m', hm', halike.perm_words.subset hleft, halike.perm_words.subset hright⟩

theorem exists_perm_three {α : Type} [DecidableEq α] {list : List α} {x y z : α} (hx : x ∈ list)
    (hy : y ∈ list) (hz : z ∈ list) (hxy : x ≠ y) (hxz : x ≠ z) (hyz : y ≠ z) :
    ∃ more, list.Perm (x :: y :: z :: more) := by
  have hy' : y ∈ list.erase x := (List.mem_erase_of_ne hxy.symm).mpr hy
  have hz' : z ∈ (list.erase x).erase y :=
    (List.mem_erase_of_ne hyz.symm).mpr ((List.mem_erase_of_ne hxz.symm).mpr hz)
  have htail := (List.perm_cons_erase hy').trans ((List.perm_cons_erase hz').cons y)
  exact ⟨_, (List.perm_cons_erase hx).trans (htail.cons x)⟩

theorem exists_perm_filterMap {α β : Type} {f : α → Option β} {list : List α} {found : List β}
    (h : found.Perm (list.filterMap f)) :
    ∃ list' : List α, list'.Perm list ∧ list'.filterMap f = found := by
  induction list generalizing found with
  | nil => exact ⟨[], List.Perm.refl _, h.eq_nil.symm⟩
  | cons a list ih =>
      cases hf : f a with
      | none =>
          rw [List.filterMap_cons_none hf] at h
          obtain ⟨list', hperm, hlist'⟩ := ih h
          exact ⟨a :: list', hperm.cons a, by rw [List.filterMap_cons_none hf, hlist']⟩
      | some b =>
          rw [List.filterMap_cons_some hf] at h
          obtain ⟨before, after, rfl⟩ := List.append_of_mem (h.symm.subset List.mem_cons_self)
          obtain ⟨list', hperm, hlist'⟩ := ih (List.perm_middle.symm.trans h).cons_inv
          obtain ⟨before', after', rfl, hbefore, hafter⟩ := List.filterMap_eq_append_iff.mp hlist'
          refine ⟨before' ++ a :: after', List.perm_middle.trans (hperm.cons a), ?_⟩
          rw [List.filterMap_append, List.filterMap_cons_some hf, hbefore, hafter]

/-- Whether the first of two lines is followed like the second one decides for good whether their words
share a slot. -/
theorem not_alike_of_exchange {rest rest' rest'' : List String} {more more' : List (List String)}
    (hne : left ≠ right) (hnext : rest'.head?.isSome) (hsame : rest.head? = rest'.head?)
    (hother : rest''.head? ≠ rest'.head?)
    (hp : Grown ([left :: rest, right :: rest'] ++ more) p)
    (hq : Grown ([left :: rest'', right :: rest'] ++ more') q) : ¬Alike p.2 q.2 := by
  intro halike
  have hmem : ∀ {rest : List String} {p}, Grown [left :: rest, right :: rest'] p →
      left ∈ p.2.members.flatMap Member.words ∧ right ∈ p.2.members.flatMap Member.words := by
    intro rest p hgrown
    rw [hgrown.splits.mem_iff, hgrown.splits.mem_iff]
    exact ⟨⟨rest, by simp⟩, ⟨rest', by simp⟩⟩
  obtain ⟨p', hp', hiff⟩ := hp.exists_first
  obtain ⟨q', hq', hiff'⟩ := hq.exists_first
  have htogether : Together p.2.members left right :=
    (hiff left (hmem hp').1 right (hmem hp').2).mpr ((hp'.together_two hne).mpr ⟨hnext, hsame⟩)
  have htogether' : Together q'.2.members left right :=
    (hiff' left (hmem hq').1 right (hmem hq').2).mp (halike.together htogether)
  exact hother ((hq'.together_two hne).mp htogether').2

namespace OrderFree

variable (h : OrderFree lines)

include h

theorem settled : Settled lines := by
  rintro left right next hne ⟨rest, hline, hnext⟩ ⟨rest', hline', hnext'⟩ _ ⟨rest'', hline'', rfl⟩
  by_contra hother
  obtain ⟨more, hlines⟩ := exists_perm_three hline hline' hline'' (by simp [hne])
    (by rintro ⟨⟩; exact hother hnext) (by simp [hne.symm])
  obtain ⟨p, q, hp, hq, -, halike⟩ := h
    ([left :: rest, right :: rest'] ++ (left :: rest'') :: more)
    ([left :: rest'', right :: rest'] ++ (left :: rest) :: more) hlines.symm
    (((List.reverse_perm [left :: rest, right :: rest', left :: rest'']).append_right more).trans
      hlines.symm)
  exact not_alike_of_exchange hne (by simp [hnext']) (hnext.trans hnext'.symm)
    (fun heq => hother (heq.trans hnext')) hp hq halike

/-- If the order does not matter, it does not matter for what remains of the lines in one class. -/
theorem through {words : List String} (hclass : IsClass lines words) :
    OrderFree (Slots.through words lines) := by
  intro first second hfirst hsecond
  obtain ⟨word, hword, hwords⟩ := hclass
  obtain ⟨first', hfirst', hfirsts⟩ :
      ∃ first', first'.Perm lines ∧ Slots.through words first' = first :=
    exists_perm_filterMap hfirst
  obtain ⟨second', hsecond', hseconds⟩ :
      ∃ second', second'.Perm lines ∧ Slots.through words second' = second :=
    exists_perm_filterMap hsecond
  obtain ⟨p, q, hp, hq, -, halike⟩ := h first' second' hfirst' hsecond'
  -- the slot with the words of the class, and its like
  obtain ⟨rest, hrest⟩ := ((hwords word).mp hword).1
  obtain ⟨m, hm, hmem⟩ :=
    List.mem_flatMap.mp ((hp.splits.mem_iff word).mpr ⟨rest, hfirst'.symm.subset hrest⟩)
  obtain ⟨m', hm', halike'⟩ := halike.exists_member m hm
  have hmember : ∀ v, v ∈ m.words ↔ v ∈ words := by
    intro v
    rw [hp.splits.mem_words_iff (hp.sorts h.settled hfirst'.subset) hm hmem, hwords]
    exact and_congr_left' (exists_congr fun rest => hfirst'.mem_iff)
  have hmember' : ∀ v, v ∈ m'.words ↔ v ∈ words := by
    intro v
    rw [← hmember, halike'.perm_words.mem_iff]
  have hgrown := (hp.splits.grown m hm).2
  have hgrown' := (hq.splits.grown m' hm').2
  rw [through_congr fun v _ _ => hmember v, hfirsts] at hgrown
  rw [through_congr fun v _ _ => hmember' v, hseconds] at hgrown'
  exact ⟨m.inside, m'.inside, hgrown, hgrown', halike'.ends, halike'.below⟩

theorem unambiguous {n : Nat} (hlength : ∀ line ∈ lines, line.length ≤ n) : Unambiguous lines := by
  induction n generalizing lines with
  | zero =>
      refine .intro h.settled ?_
      rintro words ⟨word, hword, hwords⟩
      obtain ⟨⟨rest, hrest⟩, -⟩ := (hwords word).mp hword
      simpa using hlength _ hrest
  | succ n ih =>
      refine .intro h.settled fun words hclass => ih (h.through hclass) ?_
      intro rest hrest
      obtain ⟨word, -, hline⟩ := mem_through_iff.mp hrest
      simpa using hlength _ hline

end OrderFree

end LogMining.Slots
