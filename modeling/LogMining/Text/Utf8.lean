/-!
# Decoding UTF-8

Bytes are read one after the other. A character of more than one byte is open until its last byte
has come; the byte at which it begins tells how many follow and in which range the first of those
lies, which rules out overlong forms, surrogates and numbers above U+10FFFF at the second byte
already. A byte that does not continue the open character ends it, and what was open becomes one
replacement character; the byte itself is then read afresh. So every longest beginning of a
character that is not completed is replaced as one, as the Unicode standard recommends.
-/

namespace LogMining.Text.Utf8

def replacement : Char := '\ufffd'

/-- A character of which some bytes are still to come. -/
structure Opened where
  /-- The bits of the character that have been read. -/
  bits : Nat
  /-- The number of bytes that follow the next one. -/
  further : Nat := 0
  /-- The least value the next byte may have. -/
  low : Nat := 0x80
  /-- The greatest value the next byte may have. -/
  high : Nat := 0xBF
deriving DecidableEq, Repr

/-- The character that a byte above `0x7F` opens, if it opens one. -/
def opened? (b : Nat) : Option Opened :=
  if 0xC2 ≤ b ∧ b ≤ 0xDF then some { bits := b - 0xC0 }
  else if b = 0xE0 then some { bits := 0x0, further := 1, low := 0xA0 }
  else if b = 0xED then some { bits := 0xD, further := 1, high := 0x9F }
  else if 0xE1 ≤ b ∧ b ≤ 0xEF then some { bits := b - 0xE0, further := 1 }
  else if b = 0xF0 then some { bits := 0, further := 2, low := 0x90 }
  else if b = 0xF4 then some { bits := 4, further := 2, high := 0x8F }
  else if 0xF1 ≤ b ∧ b ≤ 0xF3 then some { bits := b - 0xF0, further := 2 }
  else none

/-- The decoder between two bytes. -/
structure Decoder where
  /-- The characters that have been read, the last one first. -/
  done : List Char := []
  /-- The character that is open. -/
  current : Option Opened := none

namespace Decoder

def start (done : List Char) (b : Nat) : Decoder :=
  if b < 0x80 then { done := Char.ofNat b :: done }
  else
    match opened? b with
    | some o => { done, current := some o }
    | none => { done := replacement :: done }

def goOn (done : List Char) (o : Opened) (b : Nat) : Decoder :=
  let bits := o.bits * 64 + (b - 0x80)
  match o.further with
  | 0 => { done := Char.ofNat bits :: done }
  | n + 1 => { done, current := some { bits, further := n } }

def feed (d : Decoder) (b : UInt8) : Decoder :=
  match d.current with
  | none => start d.done b.toNat
  | some o =>
    if o.low ≤ b.toNat ∧ b.toNat ≤ o.high then goOn d.done o b.toNat
    else start (replacement :: d.done) b.toNat

def finish (d : Decoder) : List Char :=
  match d.current with
  | none => d.done.reverse
  | some _ => (replacement :: d.done).reverse

end Decoder

def decode (bytes : List UInt8) : List Char :=
  (bytes.foldl Decoder.feed {}).finish

@[simp] theorem decode_nil : decode [] = [] := rfl

end LogMining.Text.Utf8
