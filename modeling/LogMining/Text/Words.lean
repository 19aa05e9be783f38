import LogMining.Text.Blank
import LogMining.Text.Lines

/-!
# Words

The words of a text are what stands between its blanks.
-/

namespace LogMining.Text

def words (text : List Char) : List (List Char) :=
  (separated ' ' (text.map fun c => if isBlank c then ' ' else c)).filter (!·.isEmpty)

end LogMining.Text
