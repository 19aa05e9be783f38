import LogMining.Command
import LogMining.Console
import LogMining.Sample

/-!
# The program

Reads the input, runs the command and prints what it has to say.
-/

namespace LogMining.Program

def printLines (stream : IO.FS.Stream) (lines : List String) : IO Unit :=
  lines.forM stream.putStrLn

/-- Appends all that is left in a stream to the bytes read so far. -/
partial def readOnto (stream : IO.FS.Stream) (bytes : ByteArray) : IO ByteArray := do
  let more ← stream.read 65536
  if more.isEmpty then return bytes else readOnto stream (bytes ++ more)

def readInput (file : Option String) : IO (List UInt8) := do
  match file.filter (· != "-") with
  | some name => return (← IO.FS.readBinFile name).toList
  | none => return (← readOnto (← IO.getStdin) ByteArray.empty).toList

def run (args : List String) : IO UInt32 := do
  let stdout ← IO.getStdout
  let stderr ← IO.getStderr
  match Command.ofArgs? args with
  | none =>
    printLines stderr Command.usage
    return 2
  | some (.analyze options file) =>
    let outcome := analyze Console.terminal options (← readInput file)
    printLines stderr (outcome.notes.map Note.message)
    printLines stdout outcome.output
    printLines stderr outcome.errors
    return outcome.exitCode.toUInt32
  | some (.demonstrate file) =>
    let lines ← match file with
      | none => pure Sample.lines
      | some _ => Sample.linesOfBytes <$> readInput file
    match Sample.demonstrate lines with
    | .ok lines => printLines stdout lines; return 0
    | .error fault => printLines stderr [fault.message]; return 1

end LogMining.Program

def main (args : List String) : IO UInt32 := LogMining.Program.run args
