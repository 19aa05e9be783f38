import LogMining.Analyze

/-!
# The command line

There are two commands. `analyze` prints the structure of a log, and `demo` demonstrates it.
-/

namespace LogMining

inductive Command where
  /-- Print the structure of a log, from a file or the standard input. -/
  | analyze (options : Options) (file : Option String)
  /-- Demonstrate on a file, or on the built-in sample. -/
  | demonstrate (file : Option String)

namespace Command

def usage : List String :=
  ["Usage: analyze [-i FILE] [-p] [-v] [--pretty] [--no-initial-tree] [-m]",
   "       demo [FILE]"]

/-- Reads the arguments of `analyze` after those that were read before. A later argument wins over
an earlier one. -/
def analyzeArgs (options : Options) (file : Option String) : List String → Option Command
  | [] => some (.analyze options file)
  | "-i" :: name :: rest => analyzeArgs options (some name) rest
  | "--input" :: name :: rest => analyzeArgs options (some name) rest
  | arg :: rest =>
    if arg = "-p" ∨ arg = "--report-progress" then
      analyzeArgs { options with reportProgress := true } file rest
    else if arg = "-v" ∨ arg = "--verbose" then
      analyzeArgs { options with verbose := true } file rest
    else if arg = "--pretty" then analyzeArgs { options with pretty := true } file rest
    else if arg = "--no-initial-tree" then
      analyzeArgs { options with initialTree := false } file rest
    else if arg = "-m" ∨ arg = "--measure" then
      analyzeArgs { options with measure := true } file rest
    else none

def ofArgs? : List String → Option Command
  | "analyze" :: args => analyzeArgs {} none args
  | ["demo"] => some (.demonstrate none)
  | ["demo", file] => some (.demonstrate (some file))
  | _ => none

end Command

end LogMining
