/-!
# Decimal text of 64-bit naturals

Reading takes one optional plus sign and then digits alone, from the left; the first
character that cannot be accepted decides the fault. Writing gives the digits without
leading zeros, so reading accepts more texts than writing produces.
-/

namespace EditionWatch.Decimal

/-- The causes for which a text is refused as a 64-bit natural. -/
inductive Fault where
  /-- There was no character at all. -/
  | empty
  /-- A character other than a digit stood where a digit was due. -/
  | invalidDigit
  /-- The value left the 64-bit range at some digit. -/
  | tooLarge
  deriving DecidableEq, Repr

/-- The sentence that names the fault. -/
def Fault.message : Fault → String
  | .empty => "cannot parse integer from empty string"
  | .invalidDigit => "invalid digit found in string"
  | .tooLarge => "number too large to fit in target type"

/-- The value of an ASCII digit. -/
def digitValue (c : Char) : Nat := c.toNat - '0'.toNat

/-- Reads digits behind the value `acc`, one by one; at each character a missing digit is
noticed before an overflow. -/
def readDigits (acc : UInt64) : List Char → Except Fault UInt64
  | [] => .ok acc
  | c :: rest =>
    if c.isDigit then
      let value := 10 * acc.toNat + digitValue c
      if value < UInt64.size then readDigits (UInt64.ofNat value) rest else .error .tooLarge
    else .error .invalidDigit

/-- Reads a 64-bit natural: an optional plus sign, then at least one digit. -/
def read : List Char → Except Fault UInt64
  | [] => .error .empty
  | ['+'] => .error .invalidDigit
  | '+' :: digits => readDigits 0 digits
  | digits => readDigits 0 digits

/-- The decimal digits of a natural number, most significant first. -/
def write (n : Nat) : List Char := Nat.toDigits 10 n

/-- The decimal digits as text. -/
def text (n : Nat) : String := String.ofList (write n)

end EditionWatch.Decimal
