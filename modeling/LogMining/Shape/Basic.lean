/-!
# Shapes of values

A shape is a well-known form of value, such as a number or a time of day. In the mined templates a
value of a known shape is replaced by the placeholder of the shape, a word that begins and ends with
the marker. Four shapes are looked for in single words; the two dates contain blanks and are looked
for in the whole line.
-/

namespace LogMining

/-- The forms of value that are recognized. -/
inductive Shape where
  /-- A run of digits. -/
  | integer
  /-- Hour, minute and second, two digits each. -/
  | timeOfDay
  /-- Any number of hours, then minute and second. -/
  | duration
  /-- Four numbers up to 255 between dots. -/
  | ipv4
  /-- A date with the name of the month, as RFC 3164 has it. -/
  | rfc3164
  /-- A date in digits with a time zone, as RFC 5424 has it. -/
  | rfc5424
deriving DecidableEq, Repr

namespace Shape

def marker : Char := '%'

def placeholder : Shape → String
  | integer => "%posint%"
  | timeOfDay => "%time-24hr%"
  | duration => "%duration%"
  | ipv4 => "%ipv4%"
  | rfc3164 => "%date-rfc3164%"
  | rfc5424 => "%date-rfc5424%"

/-- The shapes of single words, in the order in which they are tried. Every time of day is also a
duration, so times come first. -/
def ofTokens : List Shape := [integer, timeOfDay, duration, ipv4]

def ofLines : List Shape := [rfc3164, rfc5424]

def placeholders : List String :=
  ((ofTokens ++ ofLines).map placeholder).mergeSort fun a b => decide (a ≤ b)

end Shape

end LogMining
