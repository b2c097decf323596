import EditionWatch.Key.PublicKey
import Mathlib.Algebra.GroupWithZero.Nat

/-!
# What the reader of public keys takes

A text over the alphabet stands for the bits of its characters, five for each. A public key is
written by fifty-one or fifty-two characters whose bits begin with those of the key; a bit that is
missing counts as zero, and bits that are left over are dropped. Any other text is refused, for its
first byte that is not in the alphabet or else for the number of bytes it stands for. The text that
is written for a key is read as that key again.
-/

namespace EditionWatch

namespace ZBase32

/-- The bits of some bytes. -/
def bitsOfBytes (bytes : List UInt8) : List Bool := bytes.flatMap fun b => bitsOf 8 b.toNat

/-- The bits of a text over the alphabet. -/
def bitsOfText (text : List Char) : List Bool := text.flatMap fun c => bitsOf 5 (alphabet.idxOf c)

/-- The first `count` of some bits, with zeros for those that are missing. -/
def filled (count : Nat) (bits : List Bool) : List Bool :=
  bits.take count ++ List.replicate (count - bits.length) false

/-- Whether a byte is the code of a character of the alphabet. -/
def IsSymbol (byte : UInt8) : Prop := ∃ c ∈ alphabet, c.toNat = byte.toNat

instance : DecidablePred IsSymbol := fun byte =>
  decidable_of_iff ((alphabet.any fun c => decide (c.toNat = byte.toNat)) = true)
    (by simp [IsSymbol])

section Bits

variable {width n m : Nat} {bits : List Bool}

@[simp] theorem length_bitsOf (width n : Nat) : (bitsOf width n).length = width := by
  induction width with
  | zero => rfl
  | succ width ih => rw [bitsOf, List.length_cons, ih]

/-- The bits that are written depend on that many bits of the number only. -/
theorem bitsOf_congr (same : ∀ i < width, n.testBit i = m.testBit i) :
    bitsOf width n = bitsOf width m := by
  induction width with
  | zero => rfl
  | succ width ih =>
    rw [bitsOf, bitsOf, same width (by omega), ih fun i hi => same i (by omega)]

/-- Bits are read from the first to the last, after a start. -/
theorem foldl_bits (bits : List Bool) (start : Nat) :
    bits.foldl (fun n b => 2 * n + b.toNat) start = 2 ^ bits.length * start + ofBits bits := by
  induction bits generalizing start with
  | nil => simp [ofBits]
  | cons b bits ih =>
    rw [ofBits, List.foldl_cons, List.foldl_cons, ih, ih (2 * 0 + b.toNat), List.length_cons,
      Nat.pow_succ, Nat.mul_add, Nat.mul_add, ← Nat.mul_assoc]
    omega

/-- The first of several bits counts most. -/
theorem ofBits_cons (b : Bool) (bits : List Bool) :
    ofBits (b :: bits) = 2 ^ bits.length * b.toNat + ofBits bits := by
  rw [ofBits, List.foldl_cons, foldl_bits, Nat.mul_zero, Nat.zero_add]

/-- A number is below the power of two that has as many digits. -/
theorem ofBits_lt (bits : List Bool) : ofBits bits < 2 ^ bits.length := by
  induction bits with
  | nil => exact Nat.one_pos
  | cons b bits ih =>
    have hb := b.toNat_le
    have hmul := Nat.mul_le_mul_left (2 ^ bits.length) hb
    rw [ofBits_cons, List.length_cons, Nat.pow_succ]
    omega

/-- Bits of a number that are read again give what the number leaves at their width. -/
theorem ofBits_bitsOf (width n : Nat) : ofBits (bitsOf width n) = n % 2 ^ width := by
  induction width with
  | zero => simp [bitsOf, ofBits, Nat.mod_one]
  | succ width ih =>
    rw [bitsOf, ofBits_cons, length_bitsOf, ih, Nat.mod_pow_succ, Nat.toNat_testBit, Nat.add_comm]

/-- Bits are written back as they were read. -/
theorem bitsOf_ofBits (bits : List Bool) : bitsOf bits.length (ofBits bits) = bits := by
  induction bits with
  | nil => rfl
  | cons b bits ih =>
    have hlt := ofBits_lt bits
    rw [List.length_cons, bitsOf, ofBits_cons, Nat.testBit_two_pow_mul_add _ hlt,
      if_neg (Nat.lt_irrefl _), Nat.sub_self]
    have hlow : bitsOf bits.length (2 ^ bits.length * b.toNat + ofBits bits) =
        bitsOf bits.length (ofBits bits) :=
      bitsOf_congr fun i hi => by rw [Nat.testBit_two_pow_mul_add _ hlt, if_pos hi]
    rw [hlow, ih]
    cases b <;> rfl

end Bits

section Groups

variable {width count : Nat} {bits : List Bool}

@[simp] theorem length_filled (count : Nat) (bits : List Bool) :
    (filled count bits).length = count := by
  rw [filled, List.length_append, List.length_take, List.length_replicate]
  omega

/-- Bits that are as many as asked for need no filling. -/
theorem filled_of_length (h : bits.length = count) : filled count bits = bits := by
  rw [filled, ← h, List.take_length, Nat.sub_self, List.replicate_zero, List.append_nil]

/-- Of bits that are more than asked for, the first ones are taken. -/
theorem filled_append_of_length (h : bits.length = count) (rest : List Bool) :
    filled count (bits ++ rest) = bits := by
  rw [filled, List.take_left' h, List.length_append, Nat.sub_eq_zero_of_le (by omega),
    List.replicate_zero, List.append_nil]

/-- Bits may be filled in in two parts. -/
theorem filled_add (first second : Nat) (bits : List Bool) :
    filled (first + second) bits = filled first bits ++ filled second (bits.drop first) := by
  rcases Nat.le_total first bits.length with hle | hle
  · have hrest : first + second - bits.length = second - (bits.length - first) := by omega
    rw [filled, filled, filled, List.take_add, List.length_drop, Nat.sub_eq_zero_of_le hle, hrest]
    simp
  · have hrest : first + second - bits.length = (first - bits.length) + second := by omega
    rw [filled, filled, filled, List.drop_eq_nil_of_le hle, List.take_of_length_le hle,
      List.take_of_length_le (by omega), hrest, ← List.replicate_append_replicate]
    simp

/-- Zeros that are added at the end of some bits are those that were missing there. -/
theorem filled_filled {less more : Nat} (h : less ≤ more) (bits : List Bool) :
    filled less (filled more bits) = filled less bits := by
  obtain ⟨rest, rfl⟩ := Nat.exists_eq_add_of_le h
  rw [filled_add, filled_append_of_length (length_filled less bits)]

/-- The groups that are cut off some bits are these bits, filled up. -/
theorem flatten_groups (width count : Nat) (bits : List Bool) :
    (groups width count bits).flatten = filled (width * count) bits := by
  induction count generalizing bits with
  | zero => simp [groups, filled]
  | succ count ih =>
    rw [groups, List.flatten_cons, ih, Nat.mul_succ, Nat.add_comm, filled_add]
    rfl

/-- Every group has the width of the groups. -/
theorem length_of_mem_groups {g : List Bool} (h : g ∈ groups width count bits) :
    g.length = width := by
  induction count generalizing bits with
  | zero => exact absurd h List.not_mem_nil
  | succ count ih =>
    rcases List.mem_cons.mp h with rfl | h
    · exact length_filled width bits
    · exact ih h

/-- A number for each group, read bit by bit, is the groups again. -/
theorem flatMap_groups {α : Type} {value : List Bool → α} {spell : α → List Bool}
    (inverse : ∀ g : List Bool, g.length = width → spell (value g) = g) (count : Nat)
    (bits : List Bool) :
    ((groups width count bits).map value).flatMap spell = filled (width * count) bits := by
  rw [← flatten_groups, List.flatMap_def, List.map_map]
  congr 1
  refine (List.map_congr_left fun g hg => ?_).trans (List.map_id _)
  exact inverse g (length_of_mem_groups hg)

end Groups

section Symbols

variable {text before after : List Char} {c : Char}

/-- Each of the 32 values has a symbol of the alphabet. -/
theorem symbol_mem : ∀ value < 32, symbol value ∈ alphabet := by decide

/-- The symbol of a value stands at its place in the alphabet. -/
theorem idxOf_symbol : ∀ value < 32, alphabet.idxOf (symbol value) = value := by decide

/-- What holds of all characters of the alphabet is found out by going through them. -/
theorem forall_mem_alphabet {P : Char → Prop} [DecidablePred P]
    (h : (alphabet.all fun c => decide (P c)) = true) : ∀ c ∈ alphabet, P c := by
  simpa using h

/-- Every symbol takes one byte. -/
theorem utf8_of_mem : ∀ c ∈ alphabet, String.utf8EncodeChar c = [UInt8.ofNat c.toNat] :=
  forall_mem_alphabet (by decide)

/-- The value of a symbol is its place in the alphabet. -/
theorem valueOf_of_mem :
    ∀ c ∈ alphabet, valueOf (UInt8.ofNat c.toNat) = some (alphabet.idxOf c) :=
  forall_mem_alphabet (by decide)

/-- Every symbol is an ASCII character. -/
theorem toNat_lt_of_mem : ∀ c ∈ alphabet, c.toNat < 128 := forall_mem_alphabet (by decide)

/-- A byte of a symbol is one of ASCII. -/
theorem lt_of_isSymbol {byte : UInt8} (h : IsSymbol byte) : byte.toNat < 128 := by
  obtain ⟨c, hc, hcode⟩ := h
  rw [← hcode]
  exact toNat_lt_of_mem c hc

/-- Only symbols have a value. -/
theorem valueOf_eq_none_iff {byte : UInt8} : valueOf byte = none ↔ ¬IsSymbol byte := by
  simp [valueOf, IsSymbol, List.findIdx?_eq_none_iff]

/-- A character is in the alphabet if all bytes of its code are. -/
theorem mem_alphabet_of_bytes (h : ∀ b ∈ String.utf8EncodeChar c, IsSymbol b) : c ∈ alphabet := by
  revert h
  fun_cases String.utf8EncodeChar c with
  | case1 value hascii =>
    intro h
    obtain ⟨d, hd, hcode⟩ := h _ List.mem_cons_self
    rw [UInt8.toNat_ofNat_of_lt' (Nat.lt_of_le_of_lt hascii (by decide))] at hcode
    rwa [← Char.toNat_inj.mp hcode]
  -- a longer code begins with a byte above all those of the alphabet
  | case2 | case3 | case4 =>
    intro h
    have hlow := lt_of_isSymbol (h _ List.mem_cons_self)
    rw [UInt8.toNat_ofNat'] at hlow
    omega

/-- A text is over the alphabet unless one of its bytes is not, and then there is a first one. -/
theorem letters_or_alien (text : List Char) :
    (∀ c ∈ text, c ∈ alphabet) ∨
      ∃ before b after, text.flatMap String.utf8EncodeChar = before ++ b :: after ∧
        (∀ x ∈ before, IsSymbol x) ∧ ¬IsSymbol b := by
  cases hfind : (text.flatMap String.utf8EncodeChar).find? fun b => !decide (IsSymbol b) with
  | none =>
    refine .inl fun c hc => mem_alphabet_of_bytes fun b hb => ?_
    have hb' := List.find?_eq_none.mp hfind b (List.mem_flatMap.mpr ⟨c, hc, hb⟩)
    simpa using hb'
  | some b =>
    obtain ⟨halien, before, after, hform, hknown⟩ := List.find?_eq_some_iff_append.mp hfind
    exact .inr ⟨before, b, after, hform, by simpa using hknown, by simpa using halien⟩

/-- The characters of a text over the alphabet have their places in it as values. -/
theorem values_of_letters (letters : ∀ c ∈ text, c ∈ alphabet) (index : Nat) :
    values index (text.flatMap String.utf8EncodeChar) = .ok (text.map (alphabet.idxOf ·)) := by
  induction text generalizing index with
  | nil => rfl
  | cons c text ih =>
    have hc : c ∈ alphabet := letters c List.mem_cons_self
    rw [List.flatMap_cons, utf8_of_mem c hc, List.singleton_append, values, valueOf_of_mem c hc]
    simp only [ih (fun d hd => letters d (List.mem_cons_of_mem c hd))]
    rfl

/-- The first byte that is no symbol is reported with its place. -/
theorem values_of_alien {before after : List UInt8} {b : UInt8}
    (known : ∀ x ∈ before, IsSymbol x) (alien : ¬IsSymbol b) (index : Nat) :
    values index (before ++ b :: after) = .error ⟨b, index + before.length⟩ := by
  induction before generalizing index with
  | nil =>
    rw [List.nil_append, values, valueOf_eq_none_iff.mpr alien]
    rfl
  | cons x before ih =>
    obtain ⟨v, hv⟩ := Option.ne_none_iff_exists'.mp fun h =>
      valueOf_eq_none_iff.mp h (known x List.mem_cons_self)
    rw [List.cons_append, values, hv]
    simp only [ih (fun y hy => known y (List.mem_cons_of_mem x hy)), List.length_cons]
    rw [Nat.add_right_comm, Nat.add_assoc]
    rfl

end Symbols

section Texts

variable {text : List Char} {bytes other : List UInt8}

/-- Eight bits are written for each byte. -/
theorem length_bitsOfBytes (bytes : List UInt8) :
    (bitsOfBytes bytes).length = 8 * bytes.length := by
  induction bytes with
  | nil => rfl
  | cons b bytes ih =>
    rw [bitsOfBytes, List.flatMap_cons, List.length_append, length_bitsOf, List.length_cons]
    exact (congrArg (8 + ·) ih).trans (by omega)

/-- Bytes are told apart by their bits. -/
theorem bitsOfBytes_injective (h : bitsOfBytes bytes = bitsOfBytes other) : bytes = other := by
  have hlength : bytes.length = other.length := by
    have := congrArg List.length h
    rw [length_bitsOfBytes, length_bitsOfBytes] at this
    omega
  induction bytes generalizing other with
  | nil => exact (List.eq_nil_of_length_eq_zero hlength.symm).symm
  | cons b bytes ih =>
    cases other with
    | nil => exact absurd hlength (by simp)
    | cons x other =>
      obtain ⟨hhead, htail⟩ := List.append_inj h (by rw [length_bitsOf, length_bitsOf])
      have hvalue := congrArg ofBits hhead
      rw [ofBits_bitsOf, ofBits_bitsOf, Nat.mod_eq_of_lt b.toNat_lt,
        Nat.mod_eq_of_lt x.toNat_lt] at hvalue
      rw [UInt8.toNat_inj.mp hvalue, ih htail (Nat.succ.inj hlength)]

/-- What is decoded from a text over the alphabet has the bits of the text. -/
theorem decode_of_letters (letters : ∀ c ∈ text, c ∈ alphabet) :
    ∃ bytes, decode (text.flatMap String.utf8EncodeChar) = .ok bytes ∧
      bytes.length = decodedLength text.length ∧
      bitsOfBytes bytes = filled (8 * decodedLength text.length) (bitsOfText text) := by
  refine ⟨(groups 8 (decodedLength text.length) (bitsOfText text)).map fun g =>
    UInt8.ofNat (ofBits g), ?_, ?_, ?_⟩
  · rw [decode, values_of_letters letters]
    simp [Except.map, bitsOfText, List.flatMap_map]
  · rw [List.length_map, length_groups]
  · refine flatMap_groups (fun g hg => ?_) _ _
    have hlt := ofBits_lt g
    rw [hg] at hlt
    rw [UInt8.toNat_ofNat_of_lt' hlt, ← hg, bitsOf_ofBits]

/-- A text with a byte that is no symbol is refused at the first one. -/
theorem decode_of_alien {before after : List UInt8} {b : UInt8}
    (form : text.flatMap String.utf8EncodeChar = before ++ b :: after)
    (known : ∀ x ∈ before, IsSymbol x) (alien : ¬IsSymbol b) :
    decode (text.flatMap String.utf8EncodeChar) = .error ⟨b, before.length⟩ := by
  rw [decode, form, values_of_alien known alien, Nat.zero_add]
  rfl

/-- Nothing but symbols is written. -/
theorem encode_letters {c : Char} (h : c ∈ encode bytes) : c ∈ alphabet := by
  obtain ⟨g, hg, rfl⟩ := List.mem_map.mp h
  have hlt := ofBits_lt g
  rw [length_of_mem_groups hg] at hlt
  exact symbol_mem (ofBits g) hlt

/-- The bits of an encoded text are those of the bytes, filled up to a whole character. -/
theorem bitsOfText_encode (bytes : List UInt8) :
    bitsOfText (encode bytes) =
      filled (5 * ((8 * bytes.length + 4) / 5)) (bitsOfBytes bytes) := by
  refine flatMap_groups (fun g hg => ?_) _ _
  have hlt := ofBits_lt g
  rw [hg] at hlt
  rw [idxOf_symbol _ hlt, ← hg, bitsOf_ofBits]

end Texts

end ZBase32

namespace PublicKey

open ZBase32

/-- A text that writes this key. -/
structure Spells (text : List Char) (key : PublicKey) : Prop where
  /-- It has fifty-one or fifty-two characters. -/
  length : text.length = 51 ∨ text.length = 52
  /-- They are all in the alphabet. -/
  letters : ∀ c ∈ text, c ∈ alphabet
  /-- Their bits begin with those of the key, up to a missing one. -/
  bits : bitsOfBytes key.bytes = filled 256 (bitsOfText text)

/-- A text that writes no key, with the fault it is refused for. -/
inductive Misspells : List Char → Fault → Prop where
  /-- Some byte of the text is not in the alphabet; the first one is reported. -/
  | encoding {text : List Char} {before after : List UInt8} {b : UInt8}
      (form : text.flatMap String.utf8EncodeChar = before ++ b :: after)
      (known : ∀ x ∈ before, IsSymbol x) (alien : ¬IsSymbol b) :
      Misspells text (.encoding ⟨b, before.length⟩)
  /-- The text stands for another number of bytes. -/
  | length {text : List Char} (letters : ∀ c ∈ text, c ∈ alphabet)
      (other : decodedLength text.length ≠ 32) :
      Misspells text (.length (decodedLength text.length))

section Reading

variable {text : List Char} {key : PublicKey} {fault : Fault}

/-- Only texts of 51 or 52 symbols hold as many bytes as a key has. -/
theorem decodedLength_eq_iff {count : Nat} :
    decodedLength count = 32 ↔ count = 51 ∨ count = 52 := by
  unfold decodedLength
  omega

/-- A text that spells a key is read as it. -/
theorem parse_of_spells (h : Spells text key) : parse text = .ok key := by
  obtain ⟨bytes, hdecode, hlength, hbits⟩ := decode_of_letters h.letters
  have hbytes : bytes = key.bytes := by
    refine bitsOfBytes_injective ?_
    rw [hbits, h.bits, decodedLength_eq_iff.mpr h.length]
  rw [parse, hdecode, hbytes]
  exact dif_pos key.length_bytes

/-- A text that misspells a key is refused with its fault. -/
theorem parse_of_misspells (h : Misspells text fault) : parse text = .error fault := by
  cases h with
  | encoding form known alien =>
    rw [parse, decode_of_alien form known alien]
  | length letters other =>
    obtain ⟨bytes, hdecode, hlength, _⟩ := decode_of_letters letters
    rw [parse, hdecode, ← hlength]
    exact dif_neg (hlength ▸ other)

/-- Every text writes a key or is refused for one fault. -/
theorem spells_or_misspells (text : List Char) :
    (∃ key, Spells text key) ∨ ∃ fault, Misspells text fault := by
  obtain hletters | ⟨before, b, after, hform, hknown, halien⟩ := letters_or_alien text
  · by_cases hcount : decodedLength text.length = 32
    · obtain ⟨bytes, _, hlength, hbits⟩ := decode_of_letters hletters
      rw [hcount] at hlength hbits
      exact .inl ⟨⟨bytes, hlength⟩, decodedLength_eq_iff.mp hcount, hletters, hbits⟩
    · exact .inr ⟨_, .length hletters hcount⟩
  · exact .inr ⟨_, .encoding hform hknown halien⟩

/-- The text that is written for a key writes it. -/
theorem spells_render (key : PublicKey) : Spells key.render key where
  length := .inr key.length_render
  letters := fun _ hc => encode_letters hc
  bits := by
    have hlength : (bitsOfBytes key.bytes).length = 256 := by
      rw [length_bitsOfBytes, key.length_bytes]
    rw [render, bitsOfText_encode, key.length_bytes, filled_filled (by decide),
      filled_of_length hlength]

/-- No slash is written in a key, so a slash ends it. -/
theorem slash_notMem_render (key : PublicKey) : '/' ∉ key.render := fun h =>
  absurd (encode_letters h) (by decide)

end Reading

end PublicKey

end EditionWatch
