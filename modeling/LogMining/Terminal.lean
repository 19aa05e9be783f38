import LogMining.Fault
import LogMining.Render.Branches

/-!
# The terminal

Outlines are drawn, lines are printed and progress is displayed by a terminal. What it does with a text is not
the concern of mining: a terminal may wrap lines, put emoji in place of their codes, and take some texts for
markup that cannot be read. So it is a parameter of everything that is shown, and the defaults are those of a
terminal that shows every text as it stands.
-/

namespace LogMining

structure Terminal where
  /-- Writes a text in such a way that no part of it is taken for markup. -/
  escape (text : String) : String := text
  /-- The lines in which an outline is drawn whose labels are marked up. -/
  draw (outline : Outline) : Except Fault (List String) := .ok (outline.rows.map Prod.snd)
  /-- Puts a task on the display of progress, under a label that is marked up. -/
  addTask (label : String) : Except Fault Unit := .ok ()
  /-- The lines in which a text is printed that is not marked up. -/
  print (text : String) : Except Fault (List String) := .ok [text]
  /-- A line of a dump as it comes out. -/
  echo (line : String) : String := line

end LogMining
