import LogMining.Proofs.Growth.Lines
import LogMining.Proofs.Reading.Words

/-!
# Refining keeps what a tree describes

`Slots.Keeps` relates a chain to one that can be read as the same texts and as no others. A sweep through
slots leaves such a chain: a slot that is joined with the next one describes the same texts as before, and
a slot that is split reads as its front, what remains of its values and its back without a gap between
them. The induction is over the slots that are still to be visited, since the slots of a split are visited
too.
-/

namespace LogMining

namespace Slots

variable {id : Nat} {values values' : List Token} {ends ends' : Int}
  {below below' beside beside' : Slots}

/-- The texts of the first chain can be read off the second one, and every path through the second one can
be read as a text of the first one. -/
structure Keeps (slots slots' : Slots) : Prop where
  nil_iff : slots = nil ↔ slots' = nil
  covered : ∀ text, slots.Describes text → ∃ words, slots'.Along words ∧ Reads words text
  sound : ∀ words, slots'.Along words → ∃ text, slots.Describes text ∧ Reads words text

theorem keeps_nil : Keeps nil nil where
  nil_iff := Iff.rfl
  covered text h := absurd h (not_describes_nil text)
  sound _ h := absurd h id

theorem Keeps.covered_after (h : Keeps below below') {gap text : String}
    (hgap : gap = "" ∨ gap = " ") (htext : below.After gap text) :
    ∃ words, below'.Down words ∧ ReadsAfter words text := by
  rcases htext with ⟨hnil, rfl⟩ | ⟨rest, hrest, rfl⟩
  · exact ⟨[], .inl ⟨h.nil_iff.mp hnil, rfl⟩, .nil⟩
  · obtain ⟨words, hwords, hreads⟩ := h.covered rest hrest
    exact ⟨words, .inr hwords, hreads.after hwords.ne_nil hgap⟩

theorem Keeps.sound_after (h : Keeps below below') {gap : String} {words : List String}
    (hgap : gap = "" ∨ gap = " ") (hwords : below'.Down words) :
    ∃ text, below.After gap text ∧ ReadsAfter words text := by
  rcases hwords with ⟨hnil, rfl⟩ | hwords
  · exact ⟨"", .inl ⟨h.nil_iff.mpr hnil, rfl⟩, .nil⟩
  · obtain ⟨text, htext, hreads⟩ := h.sound words hwords
    exact ⟨gap ++ text, .inr ⟨text, htext, rfl⟩, hreads.after hwords.ne_nil hgap⟩

theorem Keeps.of_paths
    (hcovered : ∀ t ∈ values, ∀ rest, below.After " " rest →
      ∃ v ∈ values', ∃ words, below'.Down words ∧ Reads (v.word :: words) (t.word ++ rest))
    (hsound : ∀ v ∈ values', ∀ words, below'.Down words →
      ∃ t ∈ values, ∃ rest, below.After " " rest ∧ Reads (v.word :: words) (t.word ++ rest))
    (hbeside : Keeps beside beside') :
    Keeps (slot id values ends below beside) (slot id values' ends' below' beside') where
  nil_iff := by simp
  covered text h := by
    rcases describes_slot.mp h with ⟨t, ht, rest, hrest, rfl⟩ | h
    · obtain ⟨v, hv, words, hwords, hreads⟩ := hcovered t ht rest hrest
      exact ⟨v.word :: words, .inl ⟨v, hv, words, rfl, hwords⟩, hreads⟩
    · obtain ⟨words, hwords, hreads⟩ := hbeside.covered text h
      exact ⟨words, .inr hwords, hreads⟩
  sound words h := by
    rcases along_slot.mp h with ⟨v, hv, rest, rfl, hrest⟩ | h
    · obtain ⟨t, ht, text, htext, hreads⟩ := hsound v hv rest hrest
      exact ⟨_, describes_slot.mpr (.inl ⟨t, ht, text, htext, rfl⟩), hreads⟩
    · obtain ⟨text, htext, hreads⟩ := hbeside.sound words h
      exact ⟨text, describes_slot.mpr (.inr htext), hreads⟩

theorem Keeps.unsplit (hbelow : Keeps below below') (hbeside : Keeps beside beside') :
    Keeps (slot id values ends below beside) (slot id values ends' below' beside') := by
  apply Keeps.of_paths
  · intro t ht rest hrest
    obtain ⟨words, hwords, hreads⟩ := hbelow.covered_after (.inr rfl) hrest
    exact ⟨t, ht, words, hwords, .cons (readsAs_self t.word) hreads⟩
  · intro t ht words hwords
    obtain ⟨rest, hrest, hreads⟩ := hbelow.sound_after (.inr rfl) hwords
    exact ⟨t, ht, rest, hrest, .cons (readsAs_self t.word) hreads⟩
  · exact hbeside

theorem describes_of_joint? {t : Token} (h : joint? values below = some (t, ends', below'))
    (text : String) :
    (slot id values ends below beside).Describes text ↔
      (slot id [t] ends' below' beside).Describes text := by
  obtain ⟨t', u, cid, rfl, rfl, -, -, rfl⟩ := joint?_eq_some h
  have hafter : ∀ rest, (slot cid [u] ends' below' nil).After " " rest ↔
      ∃ more, below'.After " " more ∧ rest = " " ++ (u.word ++ more) := by
    intro rest
    constructor
    · rintro (⟨hnil, -⟩ | ⟨text, htext, rfl⟩)
      · cases hnil
      · rcases describes_slot.mp htext with ⟨v, hv, more, hmore, rfl⟩ | hnil
        · rw [List.mem_singleton] at hv
          exact ⟨more, hmore, hv ▸ rfl⟩
        · exact absurd hnil (not_describes_nil _)
    · rintro ⟨more, hmore, rfl⟩
      exact .inr ⟨_, describes_slot.mpr (.inl ⟨u, by simp, more, hmore, rfl⟩), rfl⟩
  rw [describes_slot, describes_slot]
  refine or_congr_left ?_
  constructor
  · rintro ⟨v, hv, rest, hrest, rfl⟩
    obtain ⟨more, hmore, rfl⟩ := (hafter rest).mp hrest
    rw [List.mem_singleton] at hv
    refine ⟨_, List.mem_singleton_self _, more, hmore, ?_⟩
    rw [hv, String.append_assoc, String.append_assoc]
  · rintro ⟨v, hv, more, hmore, rfl⟩
    rw [List.mem_singleton] at hv
    refine ⟨t', List.mem_singleton_self _, _, (hafter _).mpr ⟨more, hmore, rfl⟩, ?_⟩
    rw [hv, String.append_assoc, String.append_assoc]

theorem Prepared.describes_iff {isChoice : Bool}
    (h : Prepared isChoice values ends below values' ends' below') (text : String) :
    (slot id values ends below beside).Describes text ↔
      (slot id values' ends' below' beside).Describes text := by
  cases h with
  | choice => rfl
  | only h =>
      induction h with
      | done h => rfl
      | step h rest ih => exact (describes_of_joint? h text).trans ih

theorem after_back (a : Affixes) (word text : String) (n : Nat) (below : Slots) :
    (if 0 < a.back then part n (Token.backOf a word) below else below).After
        (if 0 < a.back then "" else " ") text ↔
      ∃ rest, below.After " " rest ∧ text = Token.backOf a word ++ rest := by
  by_cases hback : 0 < a.back
  · rw [if_pos hback, if_pos hback]
    constructor
    · rintro (⟨hnil, -⟩ | ⟨text, htext, rfl⟩)
      · cases hnil
      · rcases describes_slot.mp htext with ⟨v, hv, rest, hrest, rfl⟩ | hnil
        · rw [List.mem_singleton] at hv
          exact ⟨rest, hrest, by rw [hv, String.empty_append]⟩
        · exact absurd hnil (not_describes_nil _)
    · rintro ⟨rest, hrest, rfl⟩
      refine .inr ⟨_, describes_slot.mpr (.inl ⟨_, List.mem_singleton_self _, rest, hrest, rfl⟩), ?_⟩
      rw [String.empty_append]
  · have hempty : Token.backOf a word = "" := by
      rw [Token.backOf, show a.back = 0 by omega]
      simp
    rw [if_neg hback, if_neg hback, hempty]
    simp

section Split

variable {a : Affixes} {first : Token} {more : List Token} {n : Nat} {rear : Slots}

theorem gap_cases (a : Affixes) :
    (if 0 < a.back then "" else " ") = "" ∨ (if 0 < a.back then "" else " ") = " " := by
  split
  · exact .inl rfl
  · exact .inr rfl

/-- The middle of a word and what follows it can be read behind the front of the word. -/
theorem middle_covered
    (hrear : Keeps (if 0 < a.back then part n (Token.backOf a first.word) below else below) rear)
    {t : Token} (ht : t ∈ first :: more) {rest : String} (hrest : below.After " " rest) :
    ∃ r ∈ Token.settled ((first :: more).map (Token.middle a)), ∃ words, rear.Down words ∧
      ReadsAs r.word (Token.middle a t).word ∧
      ReadsAfter words (Token.backOf a first.word ++ rest) := by
  obtain ⟨r, hr, hreads⟩ := Token.exists_settled (List.mem_map_of_mem (f := Token.middle a) ht)
  have hafter := (after_back a first.word _ n below).mpr ⟨rest, hrest, rfl⟩
  obtain ⟨words, hwords, hreads'⟩ := hrear.covered_after (gap_cases a) hafter
  exact ⟨r, hr, words, hwords, hreads, hreads'⟩

/-- What remains of the values and what follows it can be read as the middle of a word and what follows
the word. -/
theorem middle_sound
    (hrear : Keeps (if 0 < a.back then part n (Token.backOf a first.word) below else below) rear)
    {r : Token} (hr : r ∈ Token.settled ((first :: more).map (Token.middle a)))
    {words : List String} (hwords : rear.Down words) :
    ∃ t ∈ first :: more, ∃ rest, below.After " " rest ∧
      ReadsAs r.word (Token.middle a t).word ∧
      ReadsAfter words (Token.backOf a first.word ++ rest) := by
  obtain ⟨m, hm, hreads⟩ := Token.exists_of_mem_settled hr
  obtain ⟨t, ht, rfl⟩ := List.mem_map.mp hm
  obtain ⟨text, htext, hreads'⟩ := hrear.sound_after (gap_cases a) hwords
  obtain ⟨rest, hrest, rfl⟩ := (after_back a first.word text n below).mp htext
  exact ⟨t, ht, rest, hrest, hreads, hreads'⟩

theorem Keeps.split_front (h : Token.affixes? (first :: more) = some a)
    (hrear : Keeps (if 0 < a.back then part n (Token.backOf a first.word) below else below) rear)
    (hbeside : Keeps beside beside') (m : Nat) :
    Keeps (slot id (first :: more) ends below beside)
      (slot id [{ word := Token.frontOf a first.word, subword := true }] ends'
        (slot m (Token.settled ((first :: more).map (Token.middle a))) 0 rear nil) beside') := by
  have hread : ∀ (t r : Token), t ∈ first :: more → ∀ words rest,
      ReadsAs r.word (Token.middle a t).word →
      ReadsAfter words (Token.backOf a first.word ++ rest) →
      Reads (Token.frontOf a first.word :: r.word :: words) (t.word ++ rest) := by
    intro t r ht words rest hmiddle hback
    have hrest := ReadsAfter.cons (.inl rfl) hmiddle hback
    have hword := Reads.cons (readsAs_self (Token.frontOf a first.word)) hrest
    rw [Token.word_eq h ht]
    simpa only [String.empty_append, String.append_assoc] using hword
  apply Keeps.of_paths
  · intro t ht rest hrest
    obtain ⟨r, hr, words, hwords, hmiddle, hback⟩ := middle_covered hrear ht hrest
    refine ⟨_, List.mem_singleton_self _, r.word :: words, ?_, hread t r ht _ _ hmiddle hback⟩
    exact .inr (.inl ⟨r, hr, words, rfl, hwords⟩)
  · intro v hv words hwords
    rw [List.mem_singleton] at hv
    rcases hwords with ⟨hnil, -⟩ | hwords
    · cases hnil
    · rcases along_slot.mp hwords with ⟨r, hr, words, rfl, hdown⟩ | hnil
      · obtain ⟨t, ht, rest, hrest, hmiddle, hback⟩ := middle_sound hrear hr hdown
        exact ⟨t, ht, rest, hrest, hv ▸ hread t r ht _ _ hmiddle hback⟩
      · exact absurd hnil not_false
  · exact hbeside

theorem Keeps.split_back (h : Token.affixes? (first :: more) = some a) (hfront : a.front = 0)
    (hrear : Keeps (if 0 < a.back then part n (Token.backOf a first.word) below else below) rear)
    (hbeside : Keeps beside beside') :
    Keeps (slot id (first :: more) ends below beside)
      (slot id (Token.settled ((first :: more).map (Token.middle a))) ends' rear beside') := by
  have hempty : Token.frontOf a first.word = "" := by
    rw [Token.frontOf, hfront]
    simp
  have hread : ∀ (t r : Token), t ∈ first :: more → ∀ words rest,
      ReadsAs r.word (Token.middle a t).word →
      ReadsAfter words (Token.backOf a first.word ++ rest) →
      Reads (r.word :: words) (t.word ++ rest) := by
    intro t r ht words rest hmiddle hback
    have hword := Reads.cons hmiddle hback
    rw [Token.word_eq h ht, hempty]
    simpa only [String.empty_append, String.append_assoc] using hword
  apply Keeps.of_paths
  · intro t ht rest hrest
    obtain ⟨r, hr, words, hwords, hmiddle, hback⟩ := middle_covered hrear ht hrest
    exact ⟨r, hr, words, hwords, hread t r ht _ _ hmiddle hback⟩
  · intro r hr words hwords
    obtain ⟨t, ht, rest, hrest, hmiddle, hback⟩ := middle_sound hrear hr hwords
    exact ⟨t, ht, rest, hrest, hread t r ht _ _ hmiddle hback⟩
  · exact hbeside

end Split

theorem sweeps_of_inert {slots : Slots} (hjoint : ∀ below, joint? values below = none)
    (haffixes : Token.affixes? values = none)
    (h : Sweeps false (slot id values ends below nil) slots) :
    ∃ below', slots = slot id values ends below' nil ∧ Sweeps below.hasChoice below below' := by
  obtain ⟨fresh, values', values'', ends', ends'', below', below'', swept, beside', hprepared,
    hfactored, hbelow, hbeside, rfl⟩ := exists_of_sweeps_slot h
  cases hbeside
  cases hprepared with
  | only hjoined =>
      cases hjoined with
      | step hstep _ =>
          rw [hjoint] at hstep
          cases hstep
      | done _ =>
          simp only [factored, haffixes] at hfactored
          cases hfactored
          exact ⟨swept, rfl, hbelow⟩

theorem Prepared.keeps {isChoice : Bool} {slots : Slots}
    (h : Prepared isChoice values ends below values' ends' below')
    (hkeeps : Keeps (slot id values' ends' below' beside) slots) :
    Keeps (slot id values ends below beside) slots where
  nil_iff := by simpa using hkeeps.nil_iff
  covered text htext := hkeeps.covered text ((h.describes_iff text).mp htext)
  sound words hwords := by
    obtain ⟨text, htext, hreads⟩ := hkeeps.sound words hwords
    exact ⟨text, (h.describes_iff text).mpr htext, hreads⟩

section Swept

variable {n : Nat} (ih : ∀ {isChoice : Bool} {slots slots' : Slots}, slots.weight ≤ n →
  Sweeps isChoice slots slots' → slots.Proper → Keeps slots slots')

include ih

theorem keeps_of_split {fresh : Nat} {a : Affixes} {below'' swept : Slots}
    (haffixes : Token.affixes? values = some a) (hnodup : (values.map Token.word).Nodup)
    (hproper : below.Proper) (hn : Token.weight values + below.weight ≤ n + 1)
    (hfactored : (slot id values ends below beside).factored fresh =
      slot id values' ends' below'' beside)
    (hbelow : Sweeps below''.hasChoice below'' swept) (hbeside : Keeps beside beside') :
    Keeps (slot id values ends below beside) (slot id values' ends' swept beside') := by
  have hthree := Token.weight_of_affixes? haffixes
  obtain ⟨first, u, more, rfl, -⟩ := Token.eq_of_affixes? haffixes
  have hmiddle := Token.nodup_map_middle haffixes hnodup
  -- what remains of the values is left alone, so the sweep goes on behind it
  have hrear : ∀ m rear, Sweeps
      (if 0 < a.back then part m (Token.backOf a first.word) below else below).hasChoice
      (if 0 < a.back then part m (Token.backOf a first.word) below else below) rear →
      Keeps (if 0 < a.back then part m (Token.backOf a first.word) below else below) rear := by
    intro m rear hrear
    refine ih ?_ hrear ?_
    · split
      · simp only [part, weight, Token.weight]
        omega
      · omega
    · split
      · simpa [part] using hproper
      · exact hproper
  rw [factored_of_affixes? haffixes] at hfactored
  dsimp only at hfactored
  split at hfactored
  · cases hfactored
    obtain ⟨rear, rfl, hsweeps⟩ :=
      sweeps_of_inert (Token.joint?_settled hmiddle (by simp)) (Token.affixes?_settled _) hbelow
    exact Keeps.split_front haffixes (hrear _ _ hsweeps) hbeside _
  · next hfront =>
    cases hfactored
    exact Keeps.split_back haffixes (by omega) (hrear _ _ hbelow) hbeside

/-- A slot of a sweep keeps what it describes if the sweep keeps what lighter chains describe. -/
theorem keeps_of_sweeps_slot {isChoice : Bool} {slots' : Slots}
    (hn : (slot id values ends below beside).weight ≤ n + 1)
    (h : Sweeps isChoice (slot id values ends below beside) slots')
    (hproper : (slot id values ends below beside).Proper) :
    Keeps (slot id values ends below beside) slots' := by
  obtain ⟨fresh, values', values'', ends', ends'', below', below'', swept, beside', hprepared,
    hfactored, hbelow, hbeside, rfl⟩ := exists_of_sweeps_slot h
  rw [weight] at hn
  have hpos := Token.weight_pos values
  have hweight := hprepared.weight_le
  obtain ⟨-, hnodup, hproper', hproperBeside⟩ := hprepared.proper hproper
  have hkeepsBeside := ih (show beside.weight ≤ n by omega) hbeside hproperBeside
  apply hprepared.keeps
  cases haffixes : Token.affixes? values' with
  | none =>
      simp only [factored, haffixes] at hfactored
      cases hfactored
      have hpos' := Token.weight_pos values'
      exact (ih (show below'.weight ≤ n by omega) hbelow hproper').unsplit hkeepsBeside
  | some a =>
      exact keeps_of_split ih haffixes hnodup hproper' (by omega) hfactored hbelow hkeepsBeside

end Swept

theorem keeps_of_sweeps {n : Nat} {isChoice : Bool} {slots slots' : Slots} (hn : slots.weight ≤ n)
    (h : Sweeps isChoice slots slots') (hproper : slots.Proper) : Keeps slots slots' := by
  induction n generalizing isChoice slots slots' with
  | zero =>
      cases slots with
      | nil =>
          cases h
          exact keeps_nil
      | slot id values ends below beside =>
          have hpos := Token.weight_pos values
          rw [weight] at hn
          omega
  | succ n ih =>
      cases slots with
      | nil =>
          cases h
          exact keeps_nil
      | slot id values ends below beside => exact keeps_of_sweeps_slot ih hn h hproper

end Slots

namespace Tree

variable {tree tree' : Tree} {ends ends' : Int} {below below' : Slots}

theorem chooses_root_iff (h : tree.Comprises ends below) {words : List String} :
    tree.Chooses root words ↔ below.Down words :=
  chooses_iff h.holds

theorem exists_reads_of_keeps (h : tree.Comprises ends below) (h' : tree'.Comprises ends' below')
    (hkeeps : Slots.Keeps below below') {words : List String} (hwords : tree.Chooses root words) :
    ∃ words', tree'.Chooses root words' ∧ Reads words' (pathText words) := by
  rcases (chooses_root_iff h).mp hwords with ⟨hnil, rfl⟩ | hwords
  · exact ⟨[], (chooses_root_iff h').mpr (.inl ⟨hkeeps.nil_iff.mp hnil, rfl⟩), .nil⟩
  · obtain ⟨words', hwords', hreads⟩ := hkeeps.covered _ ⟨words, hwords, rfl⟩
    exact ⟨words', (chooses_root_iff h').mpr (.inr hwords'), hreads⟩

theorem exists_of_reads_of_keeps (h : tree.Comprises ends below)
    (h' : tree'.Comprises ends' below') (hkeeps : Slots.Keeps below below') {words' : List String}
    (hwords' : tree'.Chooses root words') :
    ∃ words, tree.Chooses root words ∧ Reads words' (pathText words) := by
  rcases (chooses_root_iff h').mp hwords' with ⟨hnil, rfl⟩ | hwords'
  · exact ⟨[], (chooses_root_iff h).mpr (.inl ⟨hkeeps.nil_iff.mpr hnil, rfl⟩), .nil⟩
  · obtain ⟨text, ⟨words, hwords, rfl⟩, hreads⟩ := hkeeps.sound words' hwords'
    exact ⟨words, (chooses_root_iff h).mpr (.inr hwords), hreads⟩

theorem keeps_of_sweep {pass : Pass} (h : pass.tree.Comprises ends below) :
    ∃ below', (Step.state (Pass.sweep.run pass)).tree.Comprises ends below' ∧
      Slots.Keeps below below' := by
  by_cases hreports : pass.progress.Reports
  · obtain ⟨below', pass', hsweeps, hrun, htree, -⟩ := Pass.run_sweep h hreports
    rw [hrun]
    exact ⟨below', htree, Slots.keeps_of_sweeps (Nat.le_refl _) hsweeps h.proper⟩
  · have hkeeps : Slots.Keeps below below := by
      refine ⟨Iff.rfl, ?_, ?_⟩
      · rintro text ⟨words, hwords, rfl⟩
        exact ⟨words, hwords, reads_pathText words⟩
      · intro words hwords
        exact ⟨pathText words, ⟨words, hwords, rfl⟩, reads_pathText words⟩
    rcases Pass.run_sweep_of_not h hreports with hrun | ⟨progress, hrun⟩
    · rw [hrun]
      exact ⟨below, h, hkeeps⟩
    · rw [hrun]
      exact ⟨below, h, hkeeps⟩

/-- Refining a tree that has grown from any lines keeps the texts that it describes: each text of a path
can be read off the refined tree, and every path of the refined tree can be read as one of the texts. It
ends well if reports go through. -/
theorem texts_kept_by_sweep (lines : List (List Token)) (pass : Pass) :
    ∃ tree, (insertLines lines).run empty = .ok () tree ∧
      (pass.progress.Reports → Step.answer (Pass.sweep.run { pass with tree }) = .ok ()) ∧
      (∀ words, tree.Chooses root words →
        ∃ words', (Step.state (Pass.sweep.run { pass with tree })).tree.Chooses root words' ∧
          Reads words' (" ".intercalate words)) ∧
      ∀ words', (Step.state (Pass.sweep.run { pass with tree })).tree.Chooses root words' →
        ∃ words, tree.Chooses root words ∧ Reads words' (" ".intercalate words) := by
  obtain ⟨tree, ends, below, hrun, htree, -⟩ := run_insertLines_empty lines
  let start : Pass := { pass with tree }
  have hstart : start.tree.Comprises ends below := htree
  obtain ⟨below', htree', hkeeps⟩ := keeps_of_sweep hstart
  refine ⟨tree, hrun, ?_, ?_, ?_⟩
  · intro hreports
    obtain ⟨_, pass', -, hsweep, -⟩ := Pass.run_sweep hstart hreports
    rw [hsweep]
    rfl
  · intro words hwords
    exact exists_reads_of_keeps htree htree' hkeeps hwords
  · intro words' hwords'
    exact exists_of_reads_of_keeps htree htree' hkeeps hwords'

end Tree

end LogMining
