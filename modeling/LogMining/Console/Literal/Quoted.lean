import LogMining.Console.CharacterName
import LogMining.Text.Scan

/-!
# Quoted texts

A text is quoted with one or three quotation marks at either end. Letters before the first mark tell
whether characters or bytes are meant, and whether backslashes stand for themselves. Everywhere else
a backslash begins an escape, which can ask for a character by its code or its name.
-/

namespace LogMining.Console.Literal

open Text

inductive QuotedKind where
  | characters
  | bytes
deriving DecidableEq, Repr

/-- What letters before the first quotation mark mean: of what the text is made, and whether
backslashes stand for themselves. -/
def quotedForm? (letters : List Char) : Option (QuotedKind × Bool) :=
  match String.ofList (letters.map Char.toLower) with
  | "" | "u" => some (.characters, false)
  | "r" => some (.characters, true)
  | "b" => some (.bytes, false)
  | "br" | "rb" => some (.bytes, true)
  | _ => none

def hexNumber? (n : Nat) (text : List Char) : Option Nat :=
  let digits := text.take n
  if digits.length = n && digits.all (isDigitOf 16) then some (numberTo 16 digits) else none

def beginsNamed : List Char → Bool
  | '\x7b' :: rest =>
    rest.contains '\x7d' && isCharacterName (rest.takeWhile (· != '\x7d'))
  | _ => false

def isEscape (kind : QuotedKind) (c : Char) (text : List Char) : Bool :=
  match kind, c with
  | _, 'x' => (hexNumber? 2 text).isSome
  | .characters, 'u' => (hexNumber? 4 text).isSome
  | .characters, 'U' => (hexNumber? 8 text).any (· ≤ 0x10FFFF)
  | .characters, 'N' => beginsNamed text
  | _, _ => true

def hasEscapes (kind : QuotedKind) : List Char → Bool
  | [] => true
  | '\\' :: c :: rest => isEscape kind c rest && hasEscapes kind rest
  | _ :: rest => hasEscapes kind rest

/-- The part of a text before the closing mark, and what follows the mark. A mark after a backslash
closes nothing. -/
def beforeMark? (mark : List Char) : List Char → Option (List Char × List Char)
  | [] => none
  | c :: rest =>
    if mark.isPrefixOf (c :: rest) then some ([], (c :: rest).drop mark.length)
    else if c = '\\' then
      match rest with
      | [] => none
      | d :: rest => (beforeMark? mark rest).map fun (part, left) => (c :: d :: part, left)
    else (beforeMark? mark rest).map fun (part, left) => (c :: part, left)

def openingMark : Scan (List Char) := fun
  | '"' :: '"' :: '"' :: rest => some (['"', '"', '"'], rest)
  | '\'' :: '\'' :: '\'' :: rest => some (['\'', '\'', '\''], rest)
  | '"' :: rest => some (['"'], rest)
  | '\'' :: rest => some (['\''], rest)
  | _ => none

def quoted : Scan QuotedKind := do
  let letters ← fun text => some (text.takeWhile Char.isAlpha, text.dropWhile Char.isAlpha)
  let some (kind, isRaw) := quotedForm? letters | failure
  let mark ← openingMark
  let part ← beforeMark? mark
  guard (kind = .characters || part.all (·.toNat < 0x80))
  guard (isRaw || hasEscapes kind part)
  return kind

end LogMining.Console.Literal
