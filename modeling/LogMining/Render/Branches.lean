/-!
# Outlines

An outline has one label per node. It is drawn by the terminal, or listed row by row with the depth of each
node. While an outline is built, branches are added to it one by one. A branch is named by the way that leads
to it from the top, which is the number of the branch to take at each place on that way.
-/

namespace LogMining

/-- The branches at one place of an outline: the first one with its label and what is below it, and
those beside it. -/
inductive Branches where
  | none
  | branch (label : String) (below beside : Branches)
deriving DecidableEq, Repr

structure Outline where
  label : String
  branches : Branches
deriving DecidableEq, Repr

namespace Branches

/-- The depths and labels of branches, a branch before what is below it, followed by other rows. -/
def rowsOnto (depth : Nat) : Branches → List (Nat × String) → List (Nat × String)
  | none, rows => rows
  | branch label below beside, rows =>
    (depth, label) :: rowsOnto (depth + 1) below (rowsOnto depth beside rows)

def countAt : List Nat → Branches → Nat
  | _, none => 0
  | [], branch _ _ beside => countAt [] beside + 1
  | 0 :: way, branch _ below _ => countAt way below
  | (n + 1) :: way, branch _ _ beside => countAt (n :: way) beside

/-- Puts new branches after those that are right below the branch to which a way leads. -/
def insertAt (new : Branches) : List Nat → Branches → Branches
  | [], none => new
  | _ :: _, none => none
  | [], branch label below beside => branch label below (insertAt new [] beside)
  | 0 :: way, branch label below beside => branch label (insertAt new way below) beside
  | (n + 1) :: way, branch label below beside => branch label below (insertAt new (n :: way) beside)

/-- Adds a branch below the one to which a way leads, and returns the way to the new one. -/
def add (way : List Nat) (label : String) (branches : Branches) : List Nat × Branches :=
  (way ++ [countAt way branches], insertAt (.branch label none none) way branches)

end Branches

namespace Outline

def rows (o : Outline) : List (Nat × String) := (0, o.label) :: o.branches.rowsOnto 1 []

end Outline

end LogMining
