/-!
# Editions

Editions of a document are numbered by 64-bit naturals. The edition after the last one is
the last one again, so walking forward never wraps around.
-/

namespace EditionWatch

/-- The number of one edition of a document. -/
abbrev Edition := UInt64

namespace Edition

/-- The largest edition number. -/
def last : Edition := UInt64.ofNat (UInt64.size - 1)

/-- The edition that follows, or the same one at the end of the range. -/
def next (e : Edition) : Edition := if e = last then last else e + 1

/-- The last edition has the greatest number. -/
theorem toNat_last : last.toNat = UInt64.size - 1 := by decide

/-- The next edition has the next number, as long as there is one. -/
theorem toNat_next (e : Edition) : (next e).toNat = min (e.toNat + 1) (UInt64.size - 1) := by
  have hlt := e.toNat_lt
  unfold next
  split
  case isTrue h => subst h; decide
  case isFalse h =>
    have hne : e.toNat ≠ UInt64.size - 1 := by
      intro he
      exact h (UInt64.toNat_inj.mp (he.trans toNat_last.symm))
    rw [UInt64.toNat_add]
    have h1 : (1 : UInt64).toNat = 1 := rfl
    have hsize : UInt64.size = 18446744073709551616 := rfl
    omega

end Edition

/-- Whether `newer` lies above an edition that may be unknown; every edition does if it is. -/
def isAbove (newer : Edition) : Option Edition → Bool
  | none => true
  | some known => known < newer

end EditionWatch
