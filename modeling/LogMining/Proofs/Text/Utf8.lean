import LogMining.Text.Utf8

/-!
# Line feeds and the decoder

A byte below `0x80` continues no character. So a line feed ends whatever character is open before it, and
what comes after the line feed is decoded as if nothing had come before. On the other hand no sequence of
several bytes decodes to a line feed, since overlong forms are ruled out at their second byte.
-/

namespace LogMining.Text.Utf8

namespace Opened

/-- The byte that comes next is no byte of its own, and the number of the character will be above those of
control characters such as the line feed. -/
structure Sound (o : Opened) : Prop where
  low_le : 0x80 ≤ o.low
  bits_le : 0x10 ≤ o.bits * 64 + (o.low - 0x80)

theorem sound_of_opened? {b : Nat} {o : Opened} (h : opened? b = some o) : o.Sound := by
  unfold opened? at h
  repeat' split at h
  all_goals simp only [Option.some.injEq, reduceCtorEq] at h
  all_goals
    subst h
    exact ⟨by dsimp only; omega, by dsimp only; omega⟩

end Opened

theorem ofNat_ne_lineFeed {n : Nat} (h : n ≠ 0x0A) : Char.ofNat n ≠ '\n' := by
  intro heq
  have hnumber := congrArg Char.toNat heq
  by_cases hvalid : n.isValidChar
  · rw [Char.ofNat, dif_pos hvalid] at hnumber
    exact h hnumber
  · rw [Char.ofNat, dif_neg hvalid] at hnumber
    cases hnumber

namespace Decoder

/-- The open character of a decoder is one that the bytes so far can have opened. -/
def Sound (d : Decoder) : Prop := ∀ o, d.current = some o → o.Sound

theorem sound_start (done : List Char) (b : Nat) : (start done b).Sound := by
  intro o ho
  unfold start at ho
  split at ho
  · cases ho
  · split at ho
    · next o' hopened =>
      cases ho
      exact Opened.sound_of_opened? hopened
    · cases ho

theorem sound_goOn {o : Opened} (h : o.Sound) (done : List Char) {b : Nat} (hb : o.low ≤ b) :
    (goOn done o b).Sound := by
  have hlow := h.low_le
  have hbits := h.bits_le
  intro o' ho'
  unfold goOn at ho'
  dsimp only at ho'
  split at ho'
  · cases ho'
  · obtain rfl := Option.some.inj ho'
    exact ⟨by dsimp only; omega, by dsimp only; omega⟩

theorem Sound.feed {d : Decoder} (h : d.Sound) (b : UInt8) : (d.feed b).Sound := by
  unfold Decoder.feed
  split
  · exact sound_start d.done b.toNat
  · next o ho =>
    split
    · next hb => exact sound_goOn (h o ho) d.done hb.1
    · exact sound_start _ b.toNat

theorem Sound.foldl {d : Decoder} (h : d.Sound) (bytes : List UInt8) :
    (bytes.foldl Decoder.feed d).Sound := by
  induction bytes generalizing d with
  | nil => exact h
  | cons b bytes ih => exact ih (h.feed b)

theorem sound_empty : ({} : Decoder).Sound := fun _ ho => by cases ho

def behind (before : List Char) (d : Decoder) : Decoder := { d with done := d.done ++ before }

theorem start_append (done before : List Char) (b : Nat) :
    start (done ++ before) b = (start done b).behind before := by
  unfold start
  split
  · rfl
  · cases opened? b <;> rfl

theorem feed_behind (before : List Char) (d : Decoder) (b : UInt8) :
    (d.behind before).feed b = (d.feed b).behind before := by
  unfold feed behind
  dsimp only
  split
  · exact start_append d.done before b.toNat
  · next o ho =>
    split
    · unfold goOn
      dsimp only
      split <;> rfl
    · exact start_append (replacement :: d.done) before b.toNat

theorem foldl_feed_behind (before : List Char) (d : Decoder) (bytes : List UInt8) :
    bytes.foldl feed (d.behind before) = (bytes.foldl feed d).behind before := by
  induction bytes generalizing d with
  | nil => rfl
  | cons b bytes ih => rw [List.foldl_cons, feed_behind, ih, List.foldl_cons]

theorem finish_behind (before : List Char) (d : Decoder) :
    (d.behind before).finish = before.reverse ++ d.finish := by
  unfold finish behind
  dsimp only
  split
  · rw [List.reverse_append]
  · rw [List.reverse_cons, List.reverse_cons, List.reverse_append, List.append_assoc]

theorem feed_lineFeed {d : Decoder} (h : d.Sound) :
    d.feed 0x0A = behind ('\n' :: d.finish.reverse) {} := by
  unfold feed finish
  split
  · rw [List.reverse_reverse]
    rfl
  · next o ho =>
    have hlow := (h o ho).low_le
    have hbyte : ¬(o.low ≤ (0x0A : UInt8).toNat ∧ (0x0A : UInt8).toNat ≤ o.high) := by
      rintro ⟨hle, -⟩
      exact absurd (Nat.le_trans hlow hle) (by decide)
    rw [if_neg hbyte, List.reverse_reverse]
    rfl

def Unbroken (d : Decoder) : Prop := '\n' ∉ d.done

theorem unbroken_start {done : List Char} (h : '\n' ∉ done) {b : Nat} (hb : b ≠ 0x0A) :
    (start done b).Unbroken := by
  unfold start
  split
  · exact List.not_mem_cons_of_ne_of_not_mem (ofNat_ne_lineFeed hb).symm h
  · split
    · exact h
    · exact List.not_mem_cons_of_ne_of_not_mem (by decide) h

theorem Unbroken.feed {d : Decoder} (h : d.Unbroken) (hsound : d.Sound) {b : UInt8} (hb : b ≠ 0x0A) :
    (d.feed b).Unbroken := by
  have htoNat : b.toNat ≠ 0x0A := fun heq => hb (UInt8.toNat_inj.mp heq)
  unfold Decoder.feed
  split
  · exact unbroken_start h htoNat
  · next o ho =>
    split
    · next hrange =>
      have hbits := (hsound o ho).bits_le
      unfold goOn
      dsimp only
      split
      · exact List.not_mem_cons_of_ne_of_not_mem (ofNat_ne_lineFeed (by omega)).symm h
      · exact h
    · exact unbroken_start (List.not_mem_cons_of_ne_of_not_mem (by decide) h) htoNat

theorem Unbroken.foldl {d : Decoder} (h : d.Unbroken) (hsound : d.Sound) {bytes : List UInt8}
    (hbytes : 0x0A ∉ bytes) : (bytes.foldl Decoder.feed d).Unbroken := by
  induction bytes generalizing d with
  | nil => exact h
  | cons b bytes ih =>
      rw [List.mem_cons, not_or] at hbytes
      exact ih (h.feed hsound (Ne.symm hbytes.1)) (hsound.feed b) hbytes.2

theorem Unbroken.finish {d : Decoder} (h : d.Unbroken) : '\n' ∉ d.finish := by
  unfold Decoder.finish
  split
  · rwa [List.mem_reverse]
  · rw [List.mem_reverse]
    exact List.not_mem_cons_of_ne_of_not_mem (by decide) h

end Decoder

/-- What comes before a line feed and what comes after it are decoded independently. -/
theorem decode_append_lineFeed (before after : List UInt8) :
    decode (before ++ 0x0A :: after) = decode before ++ '\n' :: decode after := by
  have hsound : (before.foldl Decoder.feed {}).Sound := Decoder.sound_empty.foldl before
  rw [decode, List.foldl_append, List.foldl_cons, Decoder.feed_lineFeed hsound,
    Decoder.foldl_feed_behind, Decoder.finish_behind, List.reverse_cons, List.reverse_reverse,
    List.append_assoc]
  rfl

theorem lineFeed_not_mem_decode {bytes : List UInt8} (h : 0x0A ∉ bytes) : '\n' ∉ decode bytes := by
  have hempty : ({} : Decoder).Unbroken := List.not_mem_nil
  exact (hempty.foldl Decoder.sound_empty h).finish

end LogMining.Text.Utf8
