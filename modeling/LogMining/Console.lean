import LogMining.Console.Control
import LogMining.Console.Markup.Plain
import LogMining.Terminal

/-!
# The console

The terminal with which the program runs: it reads markup, shows emoji in place of their codes, fills lines up
where tabs stand, and draws outlines with guides that lead to the branches. It wraps no lines. The program has
to show its output somehow, so there has to be one such terminal; what is proved of the program is proved for
every terminal and depends on nothing in this directory.
-/

namespace LogMining.Console

def fork (isLast : Bool) : String := if isLast then "└── " else "├── "

def trunk (isLast : Bool) : String := if isLast then "    " else "│   "

/-- The labels of branches with the guides in front of them, followed by other lines. -/
def linesOnto (lead : String) : Branches → List (String × String) → List (String × String)
  | .none, lines => lines
  | .branch label below beside, lines =>
    let isLast := beside matches .none
    (lead ++ fork isLast, label) ::
      linesOnto (lead ++ trunk isLast) below (linesOnto lead beside lines)

def draw (outline : Outline) : Except Fault (List String) :=
  (("", outline.label) :: linesOnto "" outline.branches []).mapM fun (guide, label) => do
    return guide ++ (← Markup.plain label)

/-- The display of progress shows the label of a task with the units done, so it has to be read as markup. -/
def addTask (label : String) : Except Fault Unit := do
  let _ ← Markup.plain (label ++ ": 0")

def terminal : Terminal where
  escape := Markup.escape
  draw := draw
  addTask := addTask
  print text := .ok (displayLines text)
  echo := withoutControl

end LogMining.Console
