import LogMining.Shape.Basic
import LogMining.Shape.Date
import LogMining.Shape.Value

/-!
# Matching texts against shapes

`Shape.length?` tells how long the value of a shape is with which a text begins, `Shape.ofWord?`
which shape a whole word has. An address with a mask, such as `10.0.0.1/24`, is no value of one
shape but of three parts; `isMaskedAddress` recognizes it.
-/

namespace LogMining.Shape

def scan : Shape → Text.Scan Unit
  | integer => Text.Scan.integer
  | timeOfDay => Text.Scan.timeOfDay
  | duration => Text.Scan.duration
  | ipv4 => Text.Scan.ipv4
  | rfc3164 => Text.Scan.rfc3164
  | rfc5424 => Text.Scan.rfc5424

def length? (shape : Shape) (text : List Char) : Option Nat :=
  shape.scan.length? text

/-- How far behind `start` the value ends that begins there, and `0` if none does. A start outside
the text is moved to its nearer end, and the distance is still taken from the start as given. -/
def consumed (shape : Shape) (text : String) (start : Int) : Int :=
  let place := min start.toNat text.length
  match shape.length? (text.toList.drop place) with
  | some n => place + n - start
  | none => 0

def accepts (shape : Shape) (word : List Char) : Bool :=
  shape.length? word == some word.length

def ofWord? (word : List Char) : Option Shape :=
  ofTokens.find? (·.accepts word)

def isMaskedAddress (word : List Char) : Bool :=
  match ipv4.length? word with
  | none => false
  | some n =>
    match word.drop n with
    | '/' :: mask => integer.accepts mask
    | _ => false

end LogMining.Shape
