import EditionWatch.Span.Basic
import EditionWatch.Text.Blank
import EditionWatch.Text.Decimal

/-!
# Written spans

A span is written as numbers with units, such as `1h 30m`, and read as the sum of its parts.
Reading goes through the text character by character. Blanks may stand nearly anywhere, also
between the digits of a number; a number may have decimals if its unit divides them evenly
into whole nanoseconds, or whole seconds for an hour and longer. Writing splits a span into
years, months, days and the units of the clock, largest first, and leaves out zero parts.
-/

namespace EditionWatch.Span

/-- The units in which spans are written. -/
inductive Scale where
  | nanosecond
  | microsecond
  | millisecond
  | second
  | minute
  | hour
  | day
  | week
  | month
  | year
  deriving DecidableEq, Repr

/-- The accepted names of each unit. -/
def Scale.names : List (Scale × List String) :=
  [(.nanosecond, ["nanos", "nsec", "ns"]),
   (.microsecond, ["usec", "us", "µs"]),
   (.millisecond, ["millis", "msec", "ms"]),
   (.second, ["seconds", "second", "secs", "sec", "s"]),
   (.minute, ["minutes", "minute", "min", "mins", "m"]),
   (.hour, ["hours", "hour", "hr", "hrs", "h"]),
   (.day, ["days", "day", "d"]),
   (.week, ["weeks", "week", "wk", "wks", "w"]),
   (.month, ["months", "month", "M"]),
   (.year, ["years", "year", "yr", "yrs", "y"])]

/-- The unit that a name stands for. -/
def Scale.ofName (name : List Char) : Option Scale :=
  (names.find? fun entry => entry.2.any fun n => n.toList = name).map Prod.fst

/-- What one of a unit counts for: a number of nanoseconds, or a number of seconds from the
second on. A month is a twelfth of a year and a year has 365.25 days. -/
inductive Worth where
  /-- Nanoseconds in one of the unit. -/
  | nanoseconds (each : Nat)
  /-- Seconds in one of the unit. -/
  | seconds (each : Nat)

/-- What a whole number of the unit is counted in. -/
def Scale.whole : Scale → Worth
  | .nanosecond => .nanoseconds 1
  | .microsecond => .nanoseconds 1000
  | .millisecond => .nanoseconds 1000000
  | .second => .seconds 1
  | .minute => .seconds 60
  | .hour => .seconds 3600
  | .day => .seconds 86400
  | .week => .seconds 604800
  | .month => .seconds 2630016
  | .year => .seconds 31557600

/-- What decimals of the unit are counted in; a nanosecond has none. -/
def Scale.decimals : Scale → Option Worth
  | .nanosecond => none
  | .second => some (.nanoseconds 1000000000)
  | .minute => some (.nanoseconds 60000000000)
  | unit => some unit.whole

/-- A decimal fraction below one. -/
structure Decimals where
  /-- The digits as a number. -/
  numerator : Nat
  /-- Ten to the number of digits. -/
  denominator : Nat

/-- A number that must stay in 64 bits. -/
def word? (n : Nat) : Option Nat := if n < UInt64.size then some n else none

/-- `total` and so many nanoseconds more; both the nanoseconds beyond the second and the sum
have to stay in range. -/
def addNanoseconds? (total : Span) (n : Nat) : Option Span := do
  let _ ← word? (total.subsecond + n)
  ofNanoseconds? (total.nanoseconds + n)

/-- `total` and so many times the worth of a unit more. -/
def addWorth? (total : Span) (count : Nat) : Worth → Option Span
  | .nanoseconds each => do addNanoseconds? total (← word? (count * each))
  | .seconds each => do
    ofNanoseconds? (total.nanoseconds + (← word? (count * each)) * 1000000000)

/-- `total` and the decimals of a unit more; they must come out even. -/
def addDecimals? (total : Span) (d : Decimals) : Worth → Option Span
  | .nanoseconds each => do
    let n ← word? (d.numerator * each)
    if n % d.denominator = 0 then addNanoseconds? total (n / d.denominator) else none
  | .seconds each => do
    let n ← word? (d.numerator * each)
    if n % d.denominator = 0 then
      ofNanoseconds? (total.nanoseconds + n / d.denominator * 1000000000)
    else none

/-- `total` and one written item more: a whole number, perhaps decimals, and a unit's name. -/
def addItem? (total : Span) (count : Nat) (decimals : Option Decimals) (name : List Char) :
    Option Span := do
  let unit ← Scale.ofName name
  let total ← addWorth? total count unit.whole
  match decimals with
  | none => some total
  | some d => addDecimals? total d (← unit.decimals)

/-- How far the reading of a written span has come. -/
inductive Phase where
  /-- Nothing but blanks so far. -/
  | opening
  /-- Behind a whole item and a blank. -/
  | between (total : Span)
  /-- In the digits of a whole number. -/
  | whole (total : Span) (count : Nat)
  /-- In the decimals of a number. -/
  | decimals (total : Span) (count : Nat) (part : Decimals)
  /-- In the name of a unit, its letters last first. -/
  | unit (total : Span) (count : Nat) (part : Option Decimals) (letters : List Char)

/-- Whether a character may occur in the name of a unit. -/
def isUnitLetter (c : Char) : Bool := c.isAlpha || c = 'µ'

/-- Reads one character. -/
def Phase.step (phase : Phase) (c : Char) : Option Phase :=
  let digit := Decimal.digitValue c
  match phase with
  | .opening =>
    if c.isDigit then some (.whole zero digit)
    else if Blank.isBlank c then some .opening
    else none
  | .between total =>
    if c.isDigit then some (.whole total digit)
    else if Blank.isBlank c then some (.between total)
    else none
  | .whole total count =>
    if c.isDigit then (word? (10 * count + digit)).map (.whole total)
    else if Blank.isBlank c then some phase
    else if isUnitLetter c then some (.unit total count none [c])
    else if c = '.' then some (.decimals total count ⟨0, 1⟩)
    else none
  | .decimals total count part =>
    if c.isDigit then
      (word? (10 * part.denominator)).map fun denominator =>
        .decimals total count ⟨10 * part.numerator + digit, denominator⟩
    else if Blank.isBlank c then some phase
    else if isUnitLetter c && part.denominator ≠ 1 then some (.unit total count (some part) [c])
    else none
  | .unit total count part letters =>
    if c.isDigit then
      (addItem? total count part letters.reverse).map fun total => .whole total digit
    else if Blank.isBlank c then (addItem? total count part letters.reverse).map .between
    else if isUnitLetter c then some (.unit total count part (c :: letters))
    else none

/-- The span read when the text ends here; a number without a unit is refused. -/
def Phase.finish : Phase → Option Span
  | .between total => some total
  | .unit total count part letters => addItem? total count part letters.reverse
  | _ => none

/-- Reads the rest of a text. -/
def Phase.run : Phase → List Char → Option Span
  | phase, [] => phase.finish
  | phase, c :: rest =>
    match phase.step c with
    | none => none
    | some phase => phase.run rest

/-- Reads a written span; a single zero needs no unit. -/
def parse (text : List Char) : Option Span :=
  if text = ['0'] then some zero else Phase.opening.run text

/-- One written item, or nothing for a zero part; `plural` ends the name of several. -/
def item (count : Nat) (name plural : String) : List (List Char) :=
  if count = 0 then []
  else [Decimal.write count ++ name.toList ++ if 1 < count then plural.toList else []]

/-- The written items of a span, largest unit first. -/
def items (s : Span) : List (List Char) :=
  let inYear := s.seconds % 31557600
  let inMonth := inYear % 2630016
  let inDay := inMonth % 86400
  item (s.seconds / 31557600) "year" "s"
    ++ item (inYear / 2630016) "month" "s"
    ++ item (inMonth / 86400) "day" "s"
    ++ item (inDay / 3600) "h" ""
    ++ item (inDay % 3600 / 60) "m" ""
    ++ item (inDay % 60) "s" ""
    ++ item (s.subsecond / 1000000) "ms" ""
    ++ item (s.subsecond / 1000 % 1000) "us" ""
    ++ item (s.subsecond % 1000) "ns" ""

/-- The written form of a span. -/
def render (s : Span) : List Char :=
  match s.items with
  | [] => ['0', 's']
  | items => List.intercalate [' '] items

end EditionWatch.Span
