import LogMining.Proofs.Reading.Rows
import LogMining.Proofs.Text.Words
import LogMining.Proofs.Token.Intact

/-!
# Reading a row of a dump

The text of a row can be read back piece by piece: the number of the level ends at the letter, the word begins
behind as many spaces as the level says and ends at the first blank, and what is then left tells the tags
apart by their second and third character. So a word is not mistaken for a tag, whatever it looks like.
-/

namespace LogMining

namespace Text

theorem isDigit_of_mem_toString {n : Nat} {c : Char} (h : c ∈ (toString (n : Int)).toList) :
    c.isDigit = true := by
  rw [show toString (n : Int) = n.repr from rfl, Nat.toList_repr] at h
  exact Nat.isDigit_of_mem_toDigits (by decide) (by decide) h

theorem exists_digit (n : Nat) :
    ∃ c digits, (toString (n : Int)).toList = c :: digits ∧ c.isDigit = true := by
  have hne : (toString (n : Int)).toList ≠ [] := by
    rw [show toString (n : Int) = n.repr from rfl, Nat.toList_repr]
    exact Nat.toDigits_ne_nil
  obtain ⟨c, digits, hdigits⟩ := List.exists_cons_of_ne_nil hne
  exact ⟨c, digits, hdigits, isDigit_of_mem_toString (hdigits ▸ List.mem_cons_self)⟩

theorem toString_natCast_inj {n m : Nat} (h : toString (n : Int) = toString (m : Int)) : n = m := by
  have hdigits : Nat.toDigits 10 n = Nat.toDigits 10 m := by
    rw [← Nat.toList_repr, ← Nat.toList_repr]
    exact congrArg String.toList h
  rw [← Nat.ofDigitChars_ten_toDigits (n := n), hdigits, Nat.ofDigitChars_ten_toDigits]

theorem toString_inj {n m : Int} (h : toString n = toString m) : n = m := by
  have hsign : ∀ k l : Nat, toString (k : Int) ≠ "-" ++ toString (l : Int) := by
    intro k l heq
    obtain ⟨c, digits, hdigits, hc⟩ := exists_digit k
    rw [heq, String.toList_append] at hdigits
    obtain rfl : '-' = c := (List.cons.inj hdigits).1
    exact absurd hc (by decide)
  match n, m with
  | .ofNat n, .ofNat m => exact congrArg Int.ofNat (toString_natCast_inj h)
  | .ofNat n, .negSucc m => exact absurd h (hsign n (m + 1))
  | .negSucc n, .ofNat m => exact absurd h.symm (hsign m (n + 1))
  | .negSucc n, .negSucc m =>
      have hdigits : toString ((n + 1 : Nat) : Int) = toString ((m + 1 : Nat) : Int) :=
        (String.append_right_inj "-").mp h
      exact congrArg Int.negSucc (Nat.succ.inj (toString_natCast_inj hdigits))

end Text

namespace Token

def partTag (t : Token) : String := if t.subword then " \x7bsubword\x7d" else ""

def countTag (t : Token) : String := if 1 < t.occurs then " \x7b" ++ toString t.occurs ++ "\x7d" else ""

theorem format_eq (t : Token) : t.format = t.word ++ t.partTag ++ t.countTag := rfl

end Token

namespace Render

theorem endsTag_inj {n n' : Int} (h : (endsTag n).toList = (endsTag n').toList) : n = n' := by
  rw [String.toList_inj, endsTag, endsTag] at h
  split at h <;> split at h
  · next hn hn' => rw [hn, hn']
  · simp at h
  · simp at h
  · rw [String.append_left_inj, String.append_right_inj] at h
    exact Text.toString_inj h

/-- What stands behind the word of a row. -/
def tags (t : Token) (n : Int) : List Char :=
  t.partTag.toList ++ (t.countTag.toList ++ (endsTag n).toList)

variable {t t' : Token} {n n' : Int}

theorem head?_tags (t : Token) (n : Int) : ∀ c ∈ (tags t n).head?, c = ' ' := by
  rw [tags, Token.partTag, Token.countTag, endsTag]
  split <;> split <;> split <;> simp

theorem second_eq_brace_iff (t : Token) (n : Int) :
    (t.countTag.toList ++ (endsTag n).toList)[1]? = some '\x7b' ↔ 1 < t.occurs := by
  rw [Token.countTag, endsTag]
  split
  · next h => simp [h]
  · next h => split <;> simp [h]

/-- The tag of a part of a word is told by its third character, which is a digit or `n` in the others. -/
theorem third_eq_s_iff (t : Token) (n : Int) : (tags t n)[2]? = some 's' ↔ t.subword = true := by
  rw [tags, Token.partTag]
  split
  · next h => simp [h]
  · next h =>
    refine iff_of_false ?_ h
    rw [Token.countTag, endsTag]
    split
    · obtain ⟨m, hm⟩ := Int.eq_ofNat_of_zero_le (show 0 ≤ t.occurs by omega)
      obtain ⟨c, digits, hdigits, hc⟩ := Text.exists_digit m
      rw [hm, String.toList_append, String.toList_append, hdigits]
      have hne : c ≠ 's' := fun hs => absurd (hs ▸ hc) (by decide)
      simpa using hne
    · split <;> simp

theorem countTag_inj (hseen : 1 ≤ t.occurs) (hseen' : 1 ≤ t'.occurs)
    (h : t.countTag.toList ++ (endsTag n).toList = t'.countTag.toList ++ (endsTag n').toList) :
    t.occurs = t'.occurs ∧ n = n' := by
  have hcounted : 1 < t.occurs ↔ 1 < t'.occurs := by
    rw [← second_eq_brace_iff t n, h, second_eq_brace_iff]
  by_cases hmany : 1 < t.occurs
  · obtain ⟨m, hm⟩ := Int.eq_ofNat_of_zero_le (show 0 ≤ t.occurs by omega)
    obtain ⟨m', hm'⟩ := Int.eq_ofNat_of_zero_le (show 0 ≤ t'.occurs by omega)
    rw [Token.countTag, Token.countTag, if_pos hmany, if_pos (hcounted.mp hmany), hm, hm'] at h
    simp only [String.toList_append, List.append_assoc, List.append_cancel_left_eq] at h
    obtain ⟨hdigits, hrest⟩ := Text.append_inj_of_run (p := Char.isDigit)
      (fun c hc => Text.isDigit_of_mem_toString hc) (fun c hc => Text.isDigit_of_mem_toString hc)
      (by simp) (by simp) h
    rw [List.append_cancel_left_eq] at hrest
    have hcount := Text.toString_natCast_inj (String.toList_inj.mp hdigits)
    exact ⟨by rw [hm, hm', hcount], endsTag_inj hrest⟩
  · have hmany' := mt hcounted.mpr hmany
    rw [Token.countTag, Token.countTag, if_neg hmany, if_neg hmany'] at h
    exact ⟨by omega, endsTag_inj h⟩

theorem tags_inj (hseen : 1 ≤ t.occurs) (hseen' : 1 ≤ t'.occurs) (h : tags t n = tags t' n') :
    t.subword = t'.subword ∧ t.occurs = t'.occurs ∧ n = n' := by
  have hpart : t.subword = t'.subword := by
    rw [Bool.eq_iff_iff, ← third_eq_s_iff t n, h, third_eq_s_iff]
  rw [tags, tags, Token.partTag, Token.partTag, hpart, List.append_cancel_left_eq] at h
  exact ⟨hpart, countTag_inj hseen hseen' h⟩

end Render

namespace Row

theorem toList_text (r : Row) :
    r.text.toList = List.replicate (2 - (toString (r.level : Int)).length) ' ' ++
      ((toString (r.level : Int)).toList ++ (r.letter :: ':' :: (List.replicate (3 * r.level) ' ' ++
        (r.token.word.toList ++ Render.tags r.token r.lineEnds)))) := by
  simp [text, Render.indent, Render.atLeastTwo, Token.format_eq, Render.tags]

theorem isDigit_letter (r : Row) : r.letter.isDigit = false := by
  rw [letter]
  split <;> rfl

/-- The word of a genuine token ends where the tags begin. -/
theorem word_inj {t t' : Token} {n n' : Int} (ht : t.Genuine) (ht' : t'.Genuine)
    (h : t.word.toList ++ Render.tags t n = t'.word.toList ++ Render.tags t' n') :
    t = t' ∧ n = n' := by
  have hblank : ∀ (t : Token) (n : Int), ∀ c ∈ (Render.tags t n).head?, Text.isInk c = false := by
    intro t n c hc
    rw [Render.head?_tags t n c hc]
    decide
  obtain ⟨hword, htags⟩ := Text.append_inj_of_run ht.isInk ht'.isInk (hblank t n) (hblank t' n') h
  rw [String.toList_inj] at hword
  obtain ⟨hsubword, hoccurs, hends⟩ := Render.tags_inj ht.seen ht'.seen htags
  have hspecial : t.special = t'.special := by
    rw [Bool.eq_iff_iff, ht.special_iff, ht'.special_iff, hword]
  refine ⟨?_, hends⟩
  cases t
  cases t'
  rw [Token.mk.injEq]
  exact ⟨hword, hoccurs, hsubword, hspecial⟩

theorem text_inj {r r' : Row} (ht : r.token.Genuine) (ht' : r'.token.Genuine) (h : r.text = r'.text) :
    r = r' := by
  rw [← String.toList_inj, toList_text, toList_text] at h
  have hmargin : ∀ (r : Row) (rest : List Char),
      ∀ c ∈ ((toString (r.level : Int)).toList ++ rest).head?, (c == ' ') = false := by
    intro r rest c hc
    obtain ⟨d, digits, hdigits, hd⟩ := Text.exists_digit r.level
    rw [hdigits] at hc
    cases hc
    exact beq_false_of_ne fun hs => absurd (hs ▸ hd) (by decide)
  obtain ⟨-, h⟩ := Text.append_inj_of_run (p := (· == ' ')) (by simp) (by simp) (hmargin r _)
    (hmargin r' _) h
  obtain ⟨hlevel, h⟩ := Text.append_inj_of_run (p := Char.isDigit)
    (fun c hc => Text.isDigit_of_mem_toString hc) (fun c hc => Text.isDigit_of_mem_toString hc)
    (by simp [isDigit_letter]) (by simp [isDigit_letter]) h
  replace hlevel := Text.toString_natCast_inj (String.toList_inj.mp hlevel)
  obtain ⟨hletter, h⟩ := List.cons.inj h
  rw [hlevel] at h
  have hfirst : r.isFirst = r'.isFirst := by
    rw [letter, letter] at hletter
    cases hr : r.isFirst <;> cases hr' : r'.isFirst <;> simp_all
  obtain ⟨htoken, hends⟩ := word_inj ht ht' (List.append_cancel_left (List.cons.inj h).2)
  exact Row.ext hlevel hfirst htoken hends

theorem eq_of_map_text {rows rows' : List Row} (h : ∀ r ∈ rows, r.token.Genuine)
    (h' : ∀ r ∈ rows', r.token.Genuine) (htexts : rows.map text = rows'.map text) : rows = rows' := by
  induction rows generalizing rows' with
  | nil => exact (List.map_eq_nil_iff.mp htexts.symm).symm
  | cons r rows ih =>
      cases rows' with
      | nil => cases htexts
      | cons r' rows' =>
          obtain ⟨hr, hrows⟩ := List.forall_mem_cons.mp h
          obtain ⟨hr', hrows'⟩ := List.forall_mem_cons.mp h'
          obtain ⟨htext, htexts⟩ := List.cons.inj htexts
          rw [text_inj hr hr' htext, ih hrows hrows' htexts]

end Row

end LogMining
