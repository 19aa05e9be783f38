import LogMining.Fault

/-!
# What words have in common

The words of a slot often begin and end alike, and only the middle varies. `Affixes.ofWords` finds
the lengths of the common front and the common back. Both are corrected so that a field is not cut
within its value: a front that reaches into a delimited value ends at the opening delimiter, and one
that runs on past an equals sign or a colon ends right after it. The two never overlap.
-/

namespace LogMining

/-- The lengths of the front and the back that several words share. -/
structure Affixes where
  front : Nat
  back : Nat
deriving DecidableEq, Repr

def sharedLength : List Char → List Char → Nat
  | c :: left, d :: right => if c = d then sharedLength left right + 1 else 0
  | _, _ => 0

def commonLength (base : List Char) (others : List (List Char)) : Nat :=
  others.foldl (fun n word => min n (sharedLength base word)) base.length

namespace Affixes

def closer? : Char → Option Char
  | '"' => some '"'
  | '\'' => some '\''
  | '[' => some ']'
  | '(' => some ')'
  | '<' => some '>'
  | _ => none

def isSeparator (c : Char) : Bool := c == '=' || c == ':'

/-- The length of the shortest end of a word that begins with the given character, where the end is
within the back of the word. The back is given last character first. -/
def endWith? (c : Char) (back : List Char) : Option Nat :=
  (back.findIdx? (· == c)).map (· + 1)

/-- The affixes if the front, which is given last character first, reaches to or past the last place
where a field begins that must not be cut, and `none` if there is no such place. -/
def fieldCut? (back : List Char) : List Char → Option Affixes
  | [] => none
  | c :: before =>
    match closer? c with
    | some close =>
      match endWith? close back with
      | some n => some { front := before.length + 1, back := n }
      | none => fieldCut? back before
    | none =>
      if isSeparator c then some { front := before.length + 1, back := back.length }
      else fieldCut? back before

/-- The affixes with the back shortened so that they do not overlap in a word of the given length. -/
def apart (shortest : Nat) (a : Affixes) : Affixes :=
  { a with back := min a.back (shortest - a.front) }

def ofChars (base : List Char) (others : List (List Char)) : Affixes :=
  let front := commonLength base others
  let back := commonLength base.reverse (others.map List.reverse)
  let shortest := others.foldl (fun n word => min n word.length) base.length
  let cut := fieldCut? (base.reverse.take back) (base.take front).reverse
  (cut.getD { front, back }).apart shortest

/-- The lengths of the front and the back that all the words share. There must be a word. -/
def ofWords : List String → Except Fault Affixes
  | [] => .error .noValue
  | base :: others => .ok (ofChars base.toList (others.map String.toList))

end Affixes

end LogMining
