import LogMining.Text.Cut
import LogMining.Text.Pieces

/-!
# Marked-up text

The labels of a tree outline are marked up: a tag in square brackets opens a style, and a tag that
begins with a slash closes one. A backslash before a tag makes it ordinary text. `escape` writes any
text so that no tag of its own takes effect.

Writing and reading look at the text in the same pieces: a run of backslashes together with the
character or the tag that follows it.
-/

namespace LogMining.Console.Markup

open Text

/-- The parts of a marked-up text. Each begins with a run of backslashes, which may be empty. -/
inductive Piece where
  /-- Backslashes and a character that is neither a backslash nor the beginning of a tag. -/
  | char (slashes : Nat) (c : Char)
  /-- Backslashes and a tag, of which the text between the brackets is kept. -/
  | tag (slashes : Nat) (inner : List Char)
  /-- Backslashes at the end of the text. -/
  | slashes (n : Nat)
deriving DecidableEq, Repr

def isTagStart (c : Char) : Bool := c.isLower || c == '#' || c == '/' || c == '@'

def isTagInner (c : Char) : Bool := c != '[' && c != ']'

def tag? : List Char → Option (List Char × List Char)
  | [] => none
  | c :: rest =>
    if isTagStart c then
      match rest.dropWhile isTagInner with
      | ']' :: left => some (c :: rest.takeWhile isTagInner, left)
      | _ => none
    else none

theorem length_of_tag? {text inner left : List Char} (h : tag? text = some (inner, left)) :
    left.length ≤ text.length := by
  cases text with
  | nil => simp [tag?] at h
  | cons c rest =>
    simp only [tag?] at h
    split at h
    · split at h
      · next hd =>
        simp only [Option.some.injEq, Prod.mk.injEq] at h
        rw [← h.2]
        exact Nat.le_succ_of_le (length_of_dropWhile hd)
      · simp at h
    · simp at h

/-- Decides on the piece that begins with `n` backslashes and goes on with a text that begins with
none. -/
def pieceAfter (n : Nat) (text : List Char) :
    Piece × { left : List Char // left.length ≤ text.length - 1 } :=
  match text with
  | [] => (.slashes n, ⟨[], Nat.zero_le _⟩)
  | c :: rest =>
    if c = '[' then
      match h : tag? rest with
      | some (inner, left) => (.tag n inner, ⟨left, length_of_tag? h⟩)
      | none => takeOne (.char n c) rest
    else takeOne (.char n c) rest

def firstPiece : Cutter Piece := fun c rest =>
  let first := pieceAfter ((c :: rest).takeWhile (· == '\\')).length
    ((c :: rest).dropWhile (· == '\\'))
  (first.1, ⟨first.2.1, by
    have hleft := first.2.2
    have hdrop := (List.dropWhile_sublist (p := (· == '\\')) (l := c :: rest)).length_le
    simp only [List.length_cons] at hdrop
    omega⟩)

def slashText (n : Nat) : List Char := List.replicate n '\\'

def tagText (inner : List Char) : List Char := '[' :: (inner ++ [']'])

def Piece.escaped : Piece → List Char
  | .char n c => slashText n ++ [c]
  | .tag n inner => slashText (2 * n + 1) ++ tagText inner
  | .slashes 1 => slashText 2
  | .slashes n => slashText n

/-- Writes a text so that none of it is taken for a tag. A single backslash at the end is doubled,
lest it escape what is written after it. -/
def escape (text : String) : String :=
  String.ofList ((pieces firstPiece text.toList).flatMap Piece.escaped)

end LogMining.Console.Markup
