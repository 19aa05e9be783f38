import LogMining.Console.Literal.Number

/-!
# Words of literals

Three words are values by themselves, and one denotes a set. The letters of the latter can also be
written in the other forms that Unicode has for them: wide, raised, lowered, or as they are used in
mathematics.
-/

namespace LogMining.Console.Literal

open Text

def valueWords : List String := ["True", "False", "None"]

def setWord : List Char := ['s', 'e', 't']

/-- The other forms of the letters of `setWord`, by their code points. -/
def letterForms : List (Char × List Nat) :=
  [('s',
      [0x017F, 0x02E2, 0x209B, 0xFF53, 0x1D42C, 0x1D460, 0x1D494, 0x1D4C8, 0x1D4FC, 0x1D530,
       0x1D564, 0x1D598, 0x1D5CC, 0x1D600, 0x1D634, 0x1D668, 0x1D69C]),
   ('e',
      [0x1D49, 0x2091, 0x212F, 0x2147, 0xFF45, 0x1D41E, 0x1D452, 0x1D486, 0x1D4EE, 0x1D522,
       0x1D556, 0x1D58A, 0x1D5BE, 0x1D5F2, 0x1D626, 0x1D65A, 0x1D68E]),
   ('t',
      [0x1D57, 0x209C, 0xFF54, 0x1D42D, 0x1D461, 0x1D495, 0x1D4C9, 0x1D4FD, 0x1D531, 0x1D565,
       0x1D599, 0x1D5CD, 0x1D601, 0x1D635, 0x1D669, 0x1D69D])]

def plainLetter (c : Char) : Char :=
  ((letterForms.find? (·.2.contains c.toNat)).map Prod.fst).getD c

def isSetWord (word : List Char) : Bool := word.map plainLetter == setWord

end LogMining.Console.Literal
