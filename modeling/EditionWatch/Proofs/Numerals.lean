import EditionWatch.Text.Decimal

/-!
# What the reader of edition numbers takes

A text is read as a 64-bit natural if it is one optional plus sign and then one or more digits
whose value fits. Any other text is refused by its first character that cannot be accepted: a
character other than a digit, or the digit at which the value leaves the range, whichever stands
first. The digits that are written for a number are read as that number again.
-/

namespace EditionWatch.Decimal

/-- The digits behind the sign of a text: a leading plus sign is left off if anything follows. -/
def unsigned : List Char → List Char
  | '+' :: c :: rest => c :: rest
  | text => text

/-- A text that writes this number: an optional plus sign, then one digit or more. -/
inductive Spells : List Char → UInt64 → Prop where
  /-- Digits alone. -/
  | plain {digits : List Char} {n : UInt64} (nonempty : digits ≠ [])
      (digital : ∀ c ∈ digits, c.isDigit = true)
      (value : Nat.ofDigitChars 10 digits 0 = n.toNat) : Spells digits n
  /-- Digits behind a plus sign. -/
  | signed {digits : List Char} {n : UInt64} (nonempty : digits ≠ [])
      (digital : ∀ c ∈ digits, c.isDigit = true)
      (value : Nat.ofDigitChars 10 digits 0 = n.toNat) : Spells ('+' :: digits) n

/-- A text that writes no number, with the fault of its first character that does not fit. -/
inductive Misspells : List Char → Fault → Prop where
  /-- There is no character. -/
  | empty : Misspells [] .empty
  /-- Behind digits whose value fits stands a character that is no digit. -/
  | invalidDigit {text before after : List Char} {c : Char}
      (form : unsigned text = before ++ c :: after)
      (digital : ∀ d ∈ before, d.isDigit = true)
      (fits : Nat.ofDigitChars 10 before 0 < UInt64.size)
      (alien : c.isDigit = false) : Misspells text .invalidDigit
  /-- Behind digits whose value fits stands a digit with which it does not. -/
  | tooLarge {text before after : List Char} {c : Char}
      (form : unsigned text = before ++ c :: after)
      (digital : ∀ d ∈ before ++ [c], d.isDigit = true)
      (fits : Nat.ofDigitChars 10 before 0 < UInt64.size)
      (exceeds : UInt64.size ≤ Nat.ofDigitChars 10 (before ++ [c]) 0) : Misspells text .tooLarge

section Digits

variable {text before after digits : List Char} {c : Char} {n : UInt64}

/-- More digits make no smaller number. -/
theorem le_ofDigitChars (digits : List Char) (start : Nat) :
    start ≤ Nat.ofDigitChars 10 digits start := by
  induction digits generalizing start with
  | nil => exact Nat.le_refl start
  | cons c rest ih =>
    rw [Nat.ofDigitChars_cons]
    have hstep := ih (10 * start + (c.toNat - '0'.toNat))
    omega

/-- Digits whose value fits are read, and reading goes on behind them with this value. -/
theorem readDigits_append (acc : UInt64) (digital : ∀ d ∈ before, d.isDigit = true)
    (fits : Nat.ofDigitChars 10 before acc.toNat < UInt64.size) (rest : List Char) :
    readDigits acc (before ++ rest) =
      readDigits (UInt64.ofNat (Nat.ofDigitChars 10 before acc.toNat)) rest := by
  induction before generalizing acc with
  | nil => simp [Nat.ofDigitChars_nil]
  | cons d before ih =>
    have hdigit : d.isDigit = true := digital d (by simp)
    rw [Nat.ofDigitChars_cons] at fits
    have hlt : 10 * acc.toNat + digitValue d < UInt64.size :=
      Nat.lt_of_le_of_lt (le_ofDigitChars before _) fits
    have hacc : (UInt64.ofNat (10 * acc.toNat + digitValue d)).toNat =
        10 * acc.toNat + (d.toNat - '0'.toNat) := UInt64.toNat_ofNat_of_lt' hlt
    have hrest := ih (UInt64.ofNat (10 * acc.toNat + digitValue d))
      (fun c hc => digital c (List.mem_cons_of_mem d hc)) (by rw [hacc]; exact fits)
    rw [hacc] at hrest
    rw [List.cons_append, readDigits, if_pos hdigit, if_pos hlt, hrest, Nat.ofDigitChars_cons]

/-- Digits that make a number that fits are read as this number. -/
theorem readDigits_of_digits (digital : ∀ d ∈ digits, d.isDigit = true)
    (value : Nat.ofDigitChars 10 digits 0 = n.toNat) : readDigits 0 digits = .ok n := by
  have hfits : Nat.ofDigitChars 10 digits (0 : UInt64).toNat < UInt64.size := by
    rw [UInt64.toNat_zero, value]
    exact n.toNat_lt
  have hread := readDigits_append 0 digital hfits []
  rw [List.append_nil, UInt64.toNat_zero, value, UInt64.ofNat_toNat] at hread
  exact hread

/-- A character that is no digit is a fault, as long as the number still fits before it. -/
theorem readDigits_of_alien (digital : ∀ d ∈ before, d.isDigit = true)
    (fits : Nat.ofDigitChars 10 before 0 < UInt64.size) (alien : c.isDigit = false) :
    readDigits 0 (before ++ c :: after) = .error .invalidDigit := by
  rw [readDigits_append 0 digital fits, readDigits, if_neg (by simp [alien])]

/-- A digit with which the number does not fit any more is a fault. -/
theorem readDigits_of_excess (digital : ∀ d ∈ before ++ [c], d.isDigit = true)
    (fits : Nat.ofDigitChars 10 before 0 < UInt64.size)
    (exceeds : UInt64.size ≤ Nat.ofDigitChars 10 (before ++ [c]) 0) :
    readDigits 0 (before ++ c :: after) = .error .tooLarge := by
  have hbefore : ∀ d ∈ before, d.isDigit = true := fun d hd => digital d (by simp [hd])
  have hc : c.isDigit = true := digital c (by simp)
  have hvalue : ¬10 * Nat.ofDigitChars 10 before 0 + digitValue c < UInt64.size := by
    rw [Nat.ofDigitChars_append, Nat.ofDigitChars_cons, Nat.ofDigitChars_nil] at exceeds
    exact Nat.not_lt.mpr exceeds
  have hacc : (UInt64.ofNat (Nat.ofDigitChars 10 before 0)).toNat =
      Nat.ofDigitChars 10 before 0 := UInt64.toNat_ofNat_of_lt' fits
  rw [readDigits_append 0 hbefore fits, readDigits, if_pos hc]
  simp only [UInt64.toNat_zero, hacc]
  rw [if_neg hvalue]

/-- Digits from the left on, a text comes to its end, to a character that is no digit or to a
digit with which its value does not fit any more. -/
theorem digits_cases (text : List Char) {start : Nat} (fits : start < UInt64.size) :
    ((∀ d ∈ text, d.isDigit = true) ∧ Nat.ofDigitChars 10 text start < UInt64.size) ∨
      ∃ before c after, text = before ++ c :: after ∧ (∀ d ∈ before, d.isDigit = true) ∧
        Nat.ofDigitChars 10 before start < UInt64.size ∧
        (c.isDigit = false ∨
          c.isDigit = true ∧ UInt64.size ≤ Nat.ofDigitChars 10 (before ++ [c]) start) := by
  induction text generalizing start with
  | nil => exact .inl ⟨by simp, fits⟩
  | cons c rest ih =>
    cases hc : c.isDigit with
    | false => exact .inr ⟨[], c, rest, rfl, by simp, fits, .inl hc⟩
    | true =>
      by_cases hlt : 10 * start + (c.toNat - '0'.toNat) < UInt64.size
      · obtain ⟨hdigital, hfits⟩ | ⟨before, d, after, rfl, hbefore, hfits, hd⟩ := ih hlt
        · exact .inl ⟨List.forall_mem_cons.mpr ⟨hc, hdigital⟩, hfits⟩
        · exact .inr ⟨c :: before, d, after, rfl, List.forall_mem_cons.mpr ⟨hc, hbefore⟩,
            hfits, hd⟩
      · exact .inr ⟨[], c, rest, rfl, by simp, fits, .inr ⟨hc, Nat.not_lt.mp hlt⟩⟩

end Digits

section Reading

variable {text digits : List Char} {n : UInt64} {fault : Fault}

/-- A digit is no sign. -/
theorem ne_plus_of_isDigit {c : Char} (digital : c.isDigit = true) : c ≠ '+' := by
  rintro rfl
  exact absurd digital (by decide)

/-- What is read is the text without its sign, unless there is no text. -/
theorem read_of_ne_nil (nonempty : text ≠ []) : read text = readDigits 0 (unsigned text) := by
  unfold read unsigned
  split
  case h_1 => exact absurd rfl nonempty
  case h_2 => rfl
  case h_3 digits halone =>
    cases digits with
    | nil => exact absurd rfl halone
    | cons c rest => rfl
  case h_4 digits _ _ hplain =>
    split
    case h_1 => exact absurd rfl (hplain _)
    case h_2 => rfl

/-- Digits alone have no sign. -/
theorem unsigned_of_digits (digital : ∀ c ∈ digits, c.isDigit = true) :
    unsigned digits = digits := by
  unfold unsigned
  split
  · exact absurd rfl (ne_plus_of_isDigit (digital '+' (by simp)))
  · rfl

/-- A plus sign is left out if something follows it. -/
theorem unsigned_plus (nonempty : digits ≠ []) : unsigned ('+' :: digits) = digits := by
  cases digits with
  | nil => exact absurd rfl nonempty
  | cons c rest => rfl

/-- A text that is nothing but digits behind its sign writes their value. -/
theorem spells_of_unsigned (nonempty : text ≠ [])
    (digital : ∀ c ∈ unsigned text, c.isDigit = true)
    (value : Nat.ofDigitChars 10 (unsigned text) 0 = n.toNat) : Spells text n := by
  revert digital value
  fun_cases unsigned text with
  | case1 c rest => exact .signed (List.cons_ne_nil c rest)
  | case2 text plain => exact .plain nonempty

/-- A text that spells a number is read as it. -/
theorem read_of_spells (h : Spells text n) : read text = .ok n := by
  cases h with
  | plain nonempty digital value =>
    rw [read_of_ne_nil nonempty, unsigned_of_digits digital, readDigits_of_digits digital value]
  | signed nonempty digital value =>
    rw [read_of_ne_nil (List.cons_ne_nil _ _), unsigned_plus nonempty,
      readDigits_of_digits digital value]

/-- A text that misspells a number is refused with its fault. -/
theorem read_of_misspells (h : Misspells text fault) : read text = .error fault := by
  cases h with
  | empty => rfl
  | invalidDigit form digital fits alien =>
    have hne : text ≠ [] := by rintro rfl; simp [unsigned] at form
    rw [read_of_ne_nil hne, form, readDigits_of_alien digital fits alien]
  | tooLarge form digital fits exceeds =>
    have hne : text ≠ [] := by rintro rfl; simp [unsigned] at form
    rw [read_of_ne_nil hne, form, readDigits_of_excess digital fits exceeds]

/-- Every text writes a number or is refused for one fault. -/
theorem spells_or_misspells (text : List Char) :
    (∃ n, Spells text n) ∨ ∃ fault, Misspells text fault := by
  by_cases hempty : text = []
  · exact .inr ⟨.empty, hempty ▸ .empty⟩
  obtain ⟨hdigital, hfits⟩ | ⟨before, c, after, hform, hbefore, hfits, hc⟩ :=
    digits_cases (unsigned text) (by decide : 0 < UInt64.size)
  · refine .inl ⟨UInt64.ofNat (Nat.ofDigitChars 10 (unsigned text) 0), ?_⟩
    exact spells_of_unsigned hempty hdigital (UInt64.toNat_ofNat_of_lt' hfits).symm
  · rcases hc with hc | ⟨hc, hexceeds⟩
    · exact .inr ⟨.invalidDigit, .invalidDigit hform hbefore hfits hc⟩
    · refine .inr ⟨.tooLarge, .tooLarge hform (fun d hd => ?_) hfits hexceeds⟩
      rcases List.mem_append.mp hd with hd | hd
      · exact hbefore d hd
      · rw [List.mem_singleton.mp hd, hc]

/-- A number is written in digits only. -/
theorem isDigit_of_mem_write {n : Nat} {c : Char} (h : c ∈ write n) : c.isDigit = true :=
  Nat.isDigit_of_mem_toDigits (by decide) (by decide) h

/-- A number that is written is made of its digits. -/
theorem ofDigitChars_write (n : Nat) : Nat.ofDigitChars 10 (write n) 0 = n :=
  Nat.ofDigitChars_toDigits (by decide) (by decide)

/-- A written number begins with a digit. -/
theorem write_eq_cons (n : Nat) : ∃ c digits, write n = c :: digits ∧ c.isDigit = true := by
  cases hw : write n with
  | nil => exact absurd hw Nat.toDigits_ne_nil
  | cons c digits => exact ⟨c, digits, rfl, isDigit_of_mem_write (hw ▸ List.mem_cons_self)⟩

/-- A number that is written does not begin with another character. -/
theorem write_append_ne_cons {n : Nat} {c : Char} (alien : c.isDigit = false)
    (rest text : List Char) : write n ++ rest ≠ c :: text := by
  obtain ⟨d, digits, hwrite, hd⟩ := write_eq_cons n
  rw [hwrite]
  intro he
  rw [(List.cons.inj he).1, alien] at hd
  cases hd

/-- No zero stands in front of a written number, unless the number is zero. -/
theorem head?_write {n : Nat} (positive : 0 < n) : (write n).head? ≠ some '0' := by
  unfold write
  induction n using Nat.strongRecOn with
  | ind n ih =>
    rw [Nat.toDigits_eq_if (by decide)]
    split
    case isTrue hlt =>
      have hdigit : ∀ d : Fin 10, 0 < d.val → d.val.digitChar ≠ '0' := by decide
      exact fun h => hdigit ⟨n, hlt⟩ positive (Option.some.inj h)
    case isFalse hge =>
      have hrest := ih (n / 10) (by omega) (by omega)
      rw [List.head?_append]
      cases hd : (Nat.toDigits 10 (n / 10)).head? with
      | none => exact absurd (List.head?_eq_none_iff.mp hd) Nat.toDigits_ne_nil
      | some c => rwa [hd] at hrest

/-- The digits that are written for a number write it. -/
theorem spells_write (n : UInt64) : Spells (write n.toNat) n :=
  .plain Nat.toDigits_ne_nil
    (fun _ hc => Nat.isDigit_of_mem_toDigits (by decide) (by decide) hc)
    (Nat.ofDigitChars_toDigits (by decide) (by decide))

/-- A number that was written is read back. -/
theorem read_write (n : UInt64) : read (write n.toNat) = .ok n := read_of_spells (spells_write n)

/-- No slash is written in a number, so a slash ends it. -/
theorem slash_notMem_write (n : Nat) : '/' ∉ write n := by
  intro h
  exact absurd (Nat.isDigit_of_mem_toDigits (by decide) (by decide) h) (by decide)

end Reading

end EditionWatch.Decimal
