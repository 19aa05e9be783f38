import LogMining.Proofs.Text.Utf8
import LogMining.Proofs.Text.Words
import LogMining.Text.Lines

/-!
# Lines of bytes and lines of text

A stream hands out its content piece by piece, each up to and with the next line feed. It may be a stream of
bytes, whose pieces are decoded one by one, or one of characters. Both are read into the same lines: a line
feed is a byte of its own wherever it stands in the bytes, so decoding never reaches across it.
-/

namespace LogMining.Text

section Separated

variable {α : Type} [DecidableEq α] {sep : α} {l before : List α}

/-- The pieces that a stream with the given content hands out. Each of them ends with a separator, except for
the last one if the content does not. -/
def streamed (sep : α) : List α → List (List α)
  | [] => []
  | a :: l => if a = sep then [a] :: streamed sep l else consPiece a (streamed sep l)

@[elab_as_elim]
theorem separator_induction (sep : α) {motive : List α → Prop}
    (last : ∀ l, sep ∉ l → motive l)
    (step : ∀ before after, sep ∉ before → motive after → motive (before ++ sep :: after))
    (l : List α) : motive l := by
  by_cases h : sep ∈ l
  · obtain ⟨before, after, hl, hbefore⟩ := List.eq_append_cons_of_mem h
    have hlt : after.length < l.length := by
      rw [hl, List.length_append, List.length_cons]
      omega
    exact hl ▸ step before after hbefore (separator_induction sep last step after)
  · exact last l h
termination_by l.length

theorem separated_of_not_mem (h : sep ∉ l) : separated sep l = [l] := by
  simpa using separated_append h (separated_nil sep)

theorem separated_of_first (h : sep ∉ before) (after : List α) :
    separated sep (before ++ sep :: after) = before :: separated sep after := by
  rw [separated_append_cons, separated_of_not_mem h]
  rfl

theorem streamed_of_not_mem (h : sep ∉ l) : streamed sep l = if l = [] then [] else [l] := by
  induction l with
  | nil => rfl
  | cons a l ih =>
      rw [List.mem_cons, not_or] at h
      rw [streamed, if_neg (Ne.symm h.1), ih h.2, if_neg (List.cons_ne_nil a l)]
      split
      · next hl => rw [hl, consPiece]
      · rfl

theorem streamed_of_first (h : sep ∉ before) (after : List α) :
    streamed sep (before ++ sep :: after) = (before ++ [sep]) :: streamed sep after := by
  induction before with
  | nil => exact if_pos rfl
  | cons a before ih =>
      rw [List.mem_cons, not_or] at h
      rw [List.cons_append, streamed, if_neg (Ne.symm h.1), ih h.2]
      rfl

theorem separated_eq_splitOn (sep : α) (l : List α) : separated sep l = l.splitOn sep := by
  induction l using separator_induction sep with
  | last l h => rw [separated_of_not_mem h, List.splitOn_eq_singleton h]
  | step before after h ih =>
      rw [separated_of_first h, ih, List.splitOn_append_cons_self_of_not_mem h]

end Separated

namespace Lines

def withoutFeed (line : List Char) : List Char :=
  if line.getLast? = some '\n' then line.dropLast else line

def read (length : Int) (pieces : List (List Char)) : List String := trim length (pieces.map withoutFeed)

theorem withoutFeed_of_not_mem {line : List Char} (h : '\n' ∉ line) : withoutFeed line = line :=
  if_neg fun hlast => h (List.mem_of_getLast? hlast)

theorem withoutFeed_append (line : List Char) : withoutFeed (line ++ ['\n']) = line := by
  rw [withoutFeed, if_pos List.getLast?_concat, List.dropLast_concat]

theorem trim_cons (length : Int) (line : List Char) (lines : List (List Char)) :
    trim length (line :: lines) = trim length [line] ++ trim length lines := by
  rw [trim, trim, trim, ← List.map_append, ← List.filter_append, ← List.map_append]
  rfl

theorem trim_nil_line (length : Int) : trim length [[]] = [] := by
  simp [trim, takeSigned]

/-- Whether a piece of a stream is read with the separator at its end or without it makes no difference, as
long as the separator, and nothing else, is read as a line feed. -/
theorem read_map_streamed {α : Type} [DecidableEq α] {sep : α} {decoded : List α → List Char}
    (hnil : decoded [] = []) (hsep : ∀ before, decoded (before ++ [sep]) = decoded before ++ ['\n'])
    (hrest : ∀ piece, sep ∉ piece → '\n' ∉ decoded piece) (length : Int) (l : List α) :
    read length ((streamed sep l).map decoded) = trim length ((separated sep l).map decoded) := by
  induction l using separator_induction sep with
  | last l h =>
      rw [streamed_of_not_mem h, separated_of_not_mem h]
      split
      · next hl =>
        rw [hl, List.map_singleton, hnil, trim_nil_line]
        rfl
      · rw [read, List.map_singleton, List.map_singleton, withoutFeed_of_not_mem (hrest l h)]
  | step before after h ih =>
      rw [streamed_of_first h, separated_of_first h, List.map_cons, List.map_cons, trim_cons, ← ih, read,
        List.map_cons, trim_cons, hsep, withoutFeed_append]
      rfl

/-- Decoding the lines of some bytes gives the lines of the decoded text. -/
theorem map_decode_separated (bytes : List UInt8) :
    (separated 0x0A bytes).map Utf8.decode = separated '\n' (Utf8.decode bytes) := by
  induction bytes using separator_induction (0x0A : UInt8) with
  | last bytes h =>
      rw [separated_of_not_mem h, separated_of_not_mem (Utf8.lineFeed_not_mem_decode h)]
      rfl
  | step before after h ih =>
      rw [separated_of_first h, Utf8.decode_append_lineFeed,
        separated_of_first (Utf8.lineFeed_not_mem_decode h), List.map_cons, ih]

/-- A stream of bytes whose pieces are decoded one by one and the stream of the decoded text are read into the
same lines. These are the pieces of the text between line feeds, each cut to its first characters, without
those that are empty then. -/
theorem ofBytes_eq_ofText (length : Nat) (bytes : List UInt8) :
    let text := Utf8.decode bytes
    ofBytes length bytes = read length ((streamed 0x0A bytes).map Utf8.decode) ∧
      ofText length (String.ofList text) = read length (streamed '\n' text) ∧
      ofBytes length bytes = ofText length (String.ofList text) ∧
      ofText length (String.ofList text) =
        (((text.splitOn '\n').map (List.take length)).filter (· ≠ [])).map String.ofList := by
  intro text
  have hlast : ∀ before, Utf8.decode (before ++ [0x0A]) = Utf8.decode before ++ ['\n'] := fun before =>
    Utf8.decode_append_lineFeed before []
  have hbytes := read_map_streamed Utf8.decode_nil hlast
    (fun _ h => Utf8.lineFeed_not_mem_decode h) length bytes
  have htext : read length ((streamed '\n' text).map id) = trim length ((separated '\n' text).map id) :=
    read_map_streamed rfl (fun _ => rfl) (fun _ h => h) length text
  rw [List.map_id, List.map_id] at htext
  have hofText : ofText length (String.ofList text) = trim length (separated '\n' text) := by
    rw [ofText, String.toList_ofList]
  refine ⟨hbytes.symm, hofText.trans htext.symm, ?_, ?_⟩
  · rw [ofBytes, map_decode_separated, hofText]
  · have htake : takeSigned (α := Char) length = List.take length := funext fun line =>
      takeSigned_natCast length line
    rw [hofText, separated_eq_splitOn, trim, htake]
    refine congrArg (List.map String.ofList) (List.filter_congr fun line _ => ?_)
    cases line <;> rfl

/-- A sequence of bytes that breaks off before a line feed does not take in the line feed. -/
example : ofBytes 3 [0x61, 0xE2, 0x82, 0x0A, 0x0A, 0xC3, 0xA9, 0xF0] = ["a\ufffd", "é\ufffd"] := by decide +kernel

end Lines

end LogMining.Text
