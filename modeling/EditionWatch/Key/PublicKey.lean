import EditionWatch.Text.ZBase32

/-!
# Public keys

An author is named by thirty-two bytes, written in z-base-32. A written key has fifty-two
characters; reading also takes fifty-one, because the last one carries a single bit.
-/

namespace EditionWatch

/-- The thirty-two bytes that name an author. -/
structure PublicKey where
  /-- The bytes in order. -/
  bytes : List UInt8
  /-- There are always thirty-two of them. -/
  length_bytes : bytes.length = 32
  deriving DecidableEq

namespace PublicKey

/-- Keys are ordered by their bytes, the first difference deciding. -/
instance : Ord PublicKey := ⟨fun a b => compare a.bytes b.bytes⟩

/-- The causes for which a text is refused as a public key. -/
inductive Fault where
  /-- Some byte of the text is not in the alphabet. -/
  | encoding (source : ZBase32.Fault)
  /-- The text stands for another number of bytes. -/
  | length (count : Nat)
  deriving DecidableEq, Repr

/-- The key that has these bytes, if there are thirty-two. -/
def ofBytes (bytes : List UInt8) : Except Fault PublicKey :=
  if h : bytes.length = 32 then .ok ⟨bytes, h⟩ else .error (.length bytes.length)

/-- The key whose bytes are all the same. -/
def uniform (byte : UInt8) : PublicKey := ⟨List.replicate 32 byte, List.length_replicate⟩

/-- Reads a key from its written form. -/
def parse (text : List Char) : Except Fault PublicKey :=
  match ZBase32.decode (text.flatMap String.utf8EncodeChar) with
  | .error source => .error (.encoding source)
  | .ok bytes => ofBytes bytes

/-- The written form of a key. -/
def render (key : PublicKey) : List Char := ZBase32.encode key.bytes

/-- The written form of a key as text. -/
def text (key : PublicKey) : String := String.ofList key.render

/-- The first ten characters of the written form, for diagnostics. -/
def short (key : PublicKey) : String := String.ofList (key.render.take 10)

/-- The diagnostic form of a key. -/
def debugText (key : PublicKey) : String := "PublicKeyBytes(" ++ key.text ++ ")"

/-- A key is written with 52 symbols. -/
theorem length_render (key : PublicKey) : key.render.length = 52 := by
  simp [render, ZBase32.length_encode, key.length_bytes]

end PublicKey

end EditionWatch
