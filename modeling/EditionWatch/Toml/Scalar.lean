import EditionWatch.Text.Decimal
import EditionWatch.Toml.Value

/-!
# TOML numbers, truth values and moments

A scalar that is not a string is a run of characters without blanks. Underscores may part
the digits of a number but not begin or end it. Whole numbers must fit some 128-bit type and
numbers with a fraction must not round to infinity. Moments are dates and times of day with
all fields in range; the seconds may be left out.
-/

namespace EditionWatch.Toml.Scalar

/-- Whether a run of characters is digits with single underscores between them. -/
def isSeparated (isDigit : Char → Bool) : List Char → Bool
  | [] => false
  | [c] => isDigit c
  | c :: '_' :: rest => isDigit c && isSeparated isDigit rest
  | c :: rest => isDigit c && isSeparated isDigit rest

/-- The value of a digit in any base up to sixteen. -/
def digitValue (c : Char) : Nat :=
  if c.isDigit then Decimal.digitValue c else c.toLower.toNat - 'a'.toNat + 10

/-- The number that digits denote in a base; underscores do not count. -/
def ofDigits (base : Nat) (digits : List Char) : Nat :=
  (digits.filter (· ≠ '_')).foldl (fun n c => base * n + digitValue c) 0

/-- Whether a run of characters is a decimal number without superfluous zeros in front. -/
def isPlainDecimal (digits : List Char) : Bool :=
  isSeparated Char.isDigit digits && (digits.head? ≠ some '0' || digits.length = 1)

/-- Whether a character is a hexadecimal digit. -/
def isHexDigit (c : Char) : Bool :=
  c.isDigit || ('a' ≤ c && c ≤ 'f') || ('A' ≤ c && c ≤ 'F')

/-- The number that digits of a certain kind denote. -/
def based? (base : Nat) (isDigit : Char → Bool) (digits : List Char) : Option Int :=
  if isSeparated isDigit digits then some (ofDigits base digits) else none

/-- The number that decimal digits denote. -/
def decimal? (digits : List Char) : Option Int :=
  if isPlainDecimal digits then some (ofDigits 10 digits) else none

/-- Reads a whole number: a decimal one with an optional sign, or one with a base mark. -/
def integer? : List Char → Option Int
  | '0' :: 'x' :: digits => based? 16 isHexDigit digits
  | '0' :: 'o' :: digits => based? 8 (fun c => '0' ≤ c && c ≤ '7') digits
  | '0' :: 'b' :: digits => based? 2 (fun c => c = '0' || c = '1') digits
  | '+' :: digits => decimal? digits
  | '-' :: digits => (decimal? digits).map fun n => -n
  | digits => decimal? digits

/-- Whether a whole number fits a signed or an unsigned 128-bit type. -/
def isStorable (n : Int) : Bool := -Int.ofNat (1 <<< 127) ≤ n && n < Int.ofNat (1 <<< 128)

/-- A number without its sign. -/
def unsigned : List Char → List Char
  | '+' :: rest => rest
  | '-' :: rest => rest
  | rest => rest

/-- Whether `digits` times ten to the `exponent` rounds to a finite double: it lies below
the middle between the largest double and the next power of two. -/
def isFinite (digits : Nat) (exponent : Int) : Bool :=
  let size : Int := (Decimal.write digits).length + exponent
  if digits = 0 || size < 300 then true
  else if 400 < size then false
  else
    let limit : Nat := (1 <<< 1024) - (1 <<< 970)
    if 0 ≤ exponent then digits * Nat.pow 10 exponent.toNat < limit
    else digits < limit * Nat.pow 10 (-exponent).toNat

/-- The digits behind the point of a number, if it has one, and what follows. -/
def fraction? : List Char → Option (List Char × List Char)
  | '.' :: rest =>
    let digits := rest.takeWhile fun c => c.isDigit || c = '_'
    if isSeparated Char.isDigit digits then some (digits, rest.drop digits.length) else none
  | rest => some ([], rest)

/-- The exponent at the end of a number, zero if there is none. -/
def exponent? : List Char → Option Int
  | [] => some 0
  | mark :: rest =>
    let digits := unsigned rest
    if (mark = 'e' || mark = 'E') && isSeparated Char.isDigit digits then
      let n : Int := ofDigits 10 digits
      some (if rest.head? = some '-' then -n else n)
    else none

/-- Whether a run of characters is a finite number with a fraction or an exponent, or one of
the named numbers. -/
def isFloat (written : List Char) : Bool :=
  let body := unsigned written
  if body = ['i', 'n', 'f'] || body = ['n', 'a', 'n'] then true
  else
    let whole := body.takeWhile fun c => c.isDigit || c = '_'
    let rest := body.drop whole.length
    isPlainDecimal whole && !rest.isEmpty &&
      match fraction? rest with
      | none => false
      | some (digits, rest) =>
        match exponent? rest with
        | none => false
        | some exponent =>
          let places := (digits.filter (· ≠ '_')).length
          isFinite (ofDigits 10 (whole ++ digits)) (exponent - places)

/-- The number that a run of digits denotes, if it is one. -/
def number? (digits : List Char) : Option Nat :=
  if digits.all Char.isDigit then some (ofDigits 10 digits) else none

/-- Whether a year has a twenty-ninth of February. -/
def isLeap (year : Nat) : Bool := year % 4 = 0 && (year % 100 ≠ 0 || year % 400 = 0)

/-- The number of days of a month. -/
def daysIn (year month : Nat) : Nat :=
  if month = 2 then (if isLeap year then 29 else 28)
  else if month = 4 || month = 6 || month = 9 || month = 11 then 30
  else 31

/-- Reads a date and returns what follows it. -/
def date? : List Char → Option (List Char)
  | a :: b :: c :: d :: '-' :: e :: f :: '-' :: g :: h :: rest => do
    let year ← number? [a, b, c, d]
    let month ← number? [e, f]
    let day ← number? [g, h]
    if 1 ≤ month && month ≤ 12 && 1 ≤ day && day ≤ daysIn year month then some rest else none
  | _ => none

/-- Reads the seconds of a time of day, which may be missing, and returns what follows. -/
def seconds? : List Char → Option (List Char)
  | ':' :: a :: b :: rest => do
    let second ← number? [a, b]
    if 60 < second then none
    else
      match rest with
      | '.' :: rest =>
        let digits := rest.takeWhile Char.isDigit
        if digits.isEmpty then none else some (rest.drop digits.length)
      | rest => some rest
  | ':' :: _ => none
  | rest => some rest

/-- Reads a time of day and returns what follows it. -/
def time? : List Char → Option (List Char)
  | a :: b :: ':' :: c :: d :: rest => do
    let hour ← number? [a, b]
    let minute ← number? [c, d]
    if hour ≤ 23 && minute ≤ 59 then seconds? rest else none
  | _ => none

/-- Whether a run of characters is an offset from universal time, or nothing. -/
def isOffset : List Char → Bool
  | [] => true
  | ['Z'] => true
  | ['z'] => true
  | [sign, a, b, ':', c, d] =>
    (sign = '+' || sign = '-') &&
      match number? [a, b], number? [c, d] with
      | some hours, some minutes => hours ≤ 23 && minutes ≤ 59
      | _, _ => false
  | _ => false

/-- Whether a run of characters is a date, a time of day, or both. -/
def isMoment (written : List Char) : Bool :=
  match date? written with
  | some [] => true
  | some (separator :: rest) =>
    (separator = 'T' || separator = 't' || separator = ' ') &&
      match time? rest with
      | some offset => isOffset offset
      | none => false
  | none => time? written = some []

/-- Reads a scalar that is not a string. -/
def read (written : List Char) : Option Value :=
  if written = ['t', 'r', 'u', 'e'] then some (.boolean true)
  else if written = ['f', 'a', 'l', 's', 'e'] then some (.boolean false)
  else
    match integer? written with
    | some n => if isStorable n then some (.integer n) else none
    | none =>
      if isFloat written then some (.float written)
      else if isMoment written then some (.moment written)
      else none

/-- Whether a character may stand in a scalar that is not a string. -/
def isPart (c : Char) : Bool :=
  c.isAlphanum || c = '+' || c = '-' || c = '.' || c = '_' || c = ':'

/-- The scalar at the front of a text and what follows it. A single space belongs to it
where it parts a date from a time of day. -/
def split (text : List Char) : List Char × List Char :=
  let first := text.takeWhile isPart
  match date? first, text.drop first.length with
  | some [], ' ' :: c :: rest =>
    if c.isDigit then
      let second := (c :: rest).takeWhile isPart
      (first ++ ' ' :: second, (c :: rest).drop second.length)
    else (first, ' ' :: c :: rest)
  | _, rest => (first, rest)

end EditionWatch.Toml.Scalar
