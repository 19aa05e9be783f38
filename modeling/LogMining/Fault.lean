/-!
# What can go wrong

Text that fits no shape stays as it is, so reading a line never goes wrong because of the line
alone. What remains are the limits of the pending stack and of the progress display, requests for a
node or a task that is not there, and texts that the terminal does not take. Each of them is one
constructor of `Fault`, and `Fault.message` has the wording of all.
-/

namespace LogMining

/-- The reasons for which an operation stops short. -/
inductive Fault where
  /-- More tokens were set aside than the pending stack has room for. -/
  | overflow (capacity : Int)
  /-- The node that had this id has been deleted. -/
  | deleted (id : Int)
  /-- No node has this id. -/
  | unknownNode
  /-- A first value was asked for where there is none. -/
  | noValue
  /-- The progress display is to be refreshed every zero units. -/
  | zeroRefresh
  /-- The progress display has no such task, or the task was never given to the phase. -/
  | noTask (task : Option Nat)
  /-- The links of the tree lead round in a circle. -/
  | endless
  /-- The terminal does not take a text, for the reason that it gives. -/
  | refused (reason : String)
deriving DecidableEq, Repr

def Fault.message : Fault → String
  | .overflow capacity => "word stack too small (capacity " ++ toString capacity ++ ")"
  | .deleted id => "node " ++ toString id ++ " has been deleted"
  | .unknownNode => "list index out of range"
  | .noValue => "list index out of range"
  | .zeroRefresh => "integer modulo by zero"
  | .noTask none => "None"
  | .noTask (some task) => toString task
  | .endless => "the links of the tree run in a circle"
  | .refused reason => reason

end LogMining
