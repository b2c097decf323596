/-!
# z-base-32

Bytes written five bits a character, most significant bit first, over an alphabet chosen
to be read aloud. Reading works on the bytes of a text and is lenient about its length: a
last group that is short counts as filled up with zero bits, and bits beyond the last whole
byte are dropped.
-/

namespace EditionWatch.ZBase32

/-- The thirty-two characters in the order of their values. -/
def alphabet : List Char :=
  ['y', 'b', 'n', 'd', 'r', 'f', 'g', '8', 'e', 'j', 'k', 'm', 'c', 'p', 'q', 'x',
   'o', 't', '1', 'u', 'w', 'i', 's', 'z', 'a', '3', '4', '5', 'h', '7', '6', '9']

/-- The low `width` bits of a number, most significant first. -/
def bitsOf : Nat → Nat → List Bool
  | 0, _ => []
  | width + 1, n => n.testBit width :: bitsOf width n

/-- The number that a list of bits denotes, most significant first. -/
def ofBits (bits : List Bool) : Nat := bits.foldl (fun n b => 2 * n + b.toNat) 0

/-- Cuts `count` groups of `width` bits off a list, filled up with zero bits at its end. -/
def groups (width : Nat) : Nat → List Bool → List (List Bool)
  | 0, _ => []
  | count + 1, bits =>
    (bits.take width ++ List.replicate (width - bits.length) false)
      :: groups width count (bits.drop width)

/-- The character of a five-bit value. -/
def symbol (value : Nat) : Char := alphabet.getD value 'y'

/-- The five-bit value of a byte that is a character of the alphabet. -/
def valueOf (byte : UInt8) : Option Nat :=
  alphabet.findIdx? fun c => c.toNat = byte.toNat

/-- The text of a byte string: as many characters as it takes to hold every bit. -/
def encode (bytes : List UInt8) : List Char :=
  let bits := bytes.flatMap fun b => bitsOf 8 b.toNat
  (groups 5 ((8 * bytes.length + 4) / 5) bits).map fun g => symbol (ofBits g)

/-- The first byte of a text that is not in the alphabet. -/
structure Fault where
  /-- The offending byte. -/
  byte : UInt8
  /-- Its position in the text, counted in bytes from zero. -/
  index : Nat
  deriving DecidableEq, Repr

/-- The sentence that names the fault; the byte is shown as the character of that code. -/
def Fault.message (f : Fault) : String :=
  "Invalid z-base32 character " ++ String.singleton (Char.ofNat f.byte.toNat)
    ++ " at index " ++ toString f.index

/-- The values of the characters of a text whose first byte has position `index`. -/
def values (index : Nat) : List UInt8 → Except Fault (List Nat)
  | [] => .ok []
  | b :: rest =>
    match valueOf b with
    | none => .error ⟨b, index⟩
    | some v => (values (index + 1) rest).map (v :: ·)

/-- How many bytes a text of `count` characters stands for. -/
def decodedLength (count : Nat) : Nat := (5 * count + 3) / 8

/-- The bytes that a text stands for. -/
def decode (text : List UInt8) : Except Fault (List UInt8) :=
  (values 0 text).map fun vs =>
    (groups 8 (decodedLength vs.length) (vs.flatMap (bitsOf 5))).map fun g =>
      UInt8.ofNat (ofBits g)

/-- As many groups are made as asked for. -/
theorem length_groups (width count : Nat) (bits : List Bool) :
    (groups width count bits).length = count := by
  induction count generalizing bits with
  | zero => rfl
  | succ n ih => simp [groups, ih]

/-- Every five bits are written with a symbol, and those that are left with one more. -/
theorem length_encode (bytes : List UInt8) :
    (encode bytes).length = (8 * bytes.length + 4) / 5 := by
  simp [encode, length_groups]

end EditionWatch.ZBase32
