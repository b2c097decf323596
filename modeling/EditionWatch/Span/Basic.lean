/-!
# Spans of time

A span is a number of nanoseconds that makes fewer than `2 ^ 64` seconds. Sums and doubles
that leave this range do not exist, so arithmetic on spans is partial and says so.
-/

namespace EditionWatch

/-- A length of time, in whole nanoseconds. -/
structure Span where
  /-- The nanoseconds in the span. -/
  nanoseconds : Nat
  /-- A span is shorter than `2 ^ 64` seconds. -/
  inRange : nanoseconds < UInt64.size * 1000000000
  deriving DecidableEq

namespace Span

/-- The span of so many nanoseconds, if it is in range. -/
def ofNanoseconds? (n : Nat) : Option Span :=
  if h : n < UInt64.size * 1000000000 then some ⟨n, h⟩ else none

/-- The span of a 64-bit number of milliseconds. -/
def ofMilliseconds (n : UInt64) : Span :=
  ⟨n.toNat * 1000000, by
    have h : n.toNat < UInt64.size := n.toNat_lt
    omega⟩

/-- The empty span. -/
def zero : Span := ⟨0, by decide⟩

/-- The whole seconds of a span. -/
def seconds (s : Span) : Nat := s.nanoseconds / 1000000000

/-- The nanoseconds of a span beyond its whole seconds. -/
def subsecond (s : Span) : Nat := s.nanoseconds % 1000000000

/-- Twice a span, if that is in range. -/
def double? (s : Span) : Option Span := ofNanoseconds? (2 * s.nanoseconds)

/-- The shorter of two spans. -/
def shorter (a b : Span) : Span := if a.nanoseconds ≤ b.nanoseconds then a else b

/-- A number of nanoseconds makes a span exactly if it is that of the span. -/
theorem ofNanoseconds?_eq_some {n : Nat} {s : Span} :
    ofNanoseconds? n = some s ↔ s.nanoseconds = n := by
  unfold ofNanoseconds?
  split
  case isTrue h =>
    constructor
    · intro e
      cases e
      rfl
    · intro e
      cases s
      simp_all
  case isFalse h =>
    constructor
    · intro e
      contradiction
    · intro e
      exact absurd (e ▸ s.inRange) h

/-- A span can be doubled exactly if twice its nanoseconds make a span. -/
theorem double?_eq_some {s t : Span} :
    s.double? = some t ↔ t.nanoseconds = 2 * s.nanoseconds :=
  ofNanoseconds?_eq_some

/-- The shorter of two spans has the fewer nanoseconds. -/
theorem nanoseconds_shorter (a b : Span) :
    (a.shorter b).nanoseconds = min a.nanoseconds b.nanoseconds := by
  unfold shorter
  split <;> omega

end Span

end EditionWatch
