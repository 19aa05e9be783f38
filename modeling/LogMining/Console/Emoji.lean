import LogMining.Console.Case
import LogMining.Console.Emoji.Table
import LogMining.Text.Blank
import LogMining.Text.Cut
import LogMining.Text.Pieces

/-!
# Emoji codes

A name between two colons is a code for an emoji. Capital letters make no difference, and an ending
of the name can ask for one of two variants of the emoji. A code whose name is not known stays as it
is, and its second colon begins no other code.
-/

namespace LogMining.Console

open Text

def skinTones : List (String × Char) :=
  [("light", '🏻'), ("medium-light", '🏼'), ("medium", '🏽'), ("medium-dark", '🏾'), ("dark", '🏿')]

/-- The mark of a tone stands behind the first character, in place of what selects a variant there. -/
def withTone (mark : Char) : List Char → List Char
  | c :: '\ufe0f' :: rest => c :: mark :: rest
  | c :: rest => c :: mark :: rest
  | [] => []

def inSkinTones (name emoji : String) : List (String × String) :=
  skinTones.map fun (tone, mark) =>
    (name ++ "_" ++ tone ++ "_skin_tone", String.ofList (withTone mark emoji.toList))

def namedEmoji : List (String × String) :=
  (emojiTable.splitOn ",").flatMap fun entry =>
    match (entry.trimAscii.toString.splitOn " ").reverse with
    | emoji :: names =>
      match names.reverse with
      | "*" :: name :: others => inSkinTones name emoji ++ (name :: others).map (·, emoji)
      | names => names.map (·, emoji)
    | [] => []

/-- The endings of names that ask for a variant, with the character that selects it. -/
def variantEndings : List (List Char × Char) :=
  [("-text".toList, '\ufe0e'), ("-emoji".toList, '\ufe0f')]

def emoji? (inside : List Char) : Option (List Char) :=
  let (name, variant) :=
    match variantEndings.find? fun ending => ending.1.isSuffixOf inside with
    | some ending => (inside.take (inside.length - ending.1.length), [ending.2])
    | none => (inside, [])
  (namedEmoji.lookup (String.ofList (lower name))).map fun emoji => emoji.toList ++ variant

def isCodeInner (c : Char) : Bool := c != ':' && isInk c

def firstDecoded : Cutter (List Char) := fun c rest =>
  if c = ':' then
    match h : rest.dropWhile isCodeInner with
    | ':' :: left =>
      let inside := rest.takeWhile isCodeInner
      ((emoji? inside).getD (':' :: (inside ++ [':'])), ⟨left, length_of_dropWhile h⟩)
    | _ => takeOne [c] rest
  else takeOne [c] rest

def withEmoji (text : List Char) : List Char := (pieces firstDecoded text).flatten

end LogMining.Console
