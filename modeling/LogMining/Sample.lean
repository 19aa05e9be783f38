import LogMining.Session
import LogMining.Text.Lines

/-!
# A demonstration

Shows the tree of a few log lines right after they were taken in and again when it has been refined.
A small sample is built in.
-/

namespace LogMining.Sample

def lines : List String :=
  ["Oct 11 22:14:15 host1 sshd[1201]: Accepted password for bob from 10.0.0.1 port 50122 ssh2",
   "Oct 11 22:14:17 host1 sshd[1202]: Accepted password for alice from 10.0.0.7 port 50123 ssh2",
   "Oct 11 22:15:02 host2 sshd[1203]: Connection closed by 192.168.1.20/24",
   "Oct 11 22:15:09 host2 sshd[1210]: Connection closed by 192.168.1.21/24",
   "2003-10-11T22:14:15.003Z kernel: link up after 0:00:12",
   "2003-10-11T22:14:16.003Z kernel: link up after 0:00:13"]

def linesOfBytes (bytes : List UInt8) : List String :=
  Text.Lines.ofText Text.Lines.defaultLength (String.ofList (Text.Utf8.decode bytes))

def rule : String := String.ofList (List.replicate 70 '=')

def heading (title : String) : List String := [rule, title, rule]

def titleBefore (s : Stats) : String :=
  "Tree after reading " ++ toString s.lines ++ " lines (" ++ toString s.nodes ++ " nodes)"

def titleAfter (s : Stats) : String :=
  "Refined tree (" ++ toString s.nodes ++ " nodes, " ++ toString s.squashed ++ " squashed, " ++
    toString s.disjoined ++ " prefix/suffix splits)"

def demonstration (lines : List String) : Step Session (List String) := do
  let _ ← Session.addLines lines
  let before := heading (titleBefore (← get).stats) ++ (← Session.dump)
  Session.refine
  let after := heading (titleAfter (← get).stats) ++ (← Session.dump)
  return before ++ "" :: after

def demonstrate (lines : List String) : Except Fault (List String) :=
  Step.answer ((demonstration lines).run {})

end LogMining.Sample
