import EditionWatch.Proofs.Numerals
import EditionWatch.Span.Text
import Mathlib.Tactic.Ring

/-!
# Written spans are read back

The written form of a span parts it into years, months, days and the units of the clock. Each part
that is not zero is an item, a number and a name, and the reader adds it to what it has read before.
The sum can leave the range at no item: it never exceeds the span that was written. So the reader
comes out with that span, be it as long as spans can be.
-/

namespace EditionWatch.Span

/-- A span is known by its nanoseconds. -/
theorem ext_nanoseconds {a b : Span} (h : a.nanoseconds = b.nanoseconds) : a = b := by
  cases a
  cases b
  cases h
  rfl

/-- A number that fits is a word. -/
theorem word?_of_lt {n : Nat} (h : n < UInt64.size) : word? n = some n := if_pos h

/-- Fewer nanoseconds than those of a span make a span. -/
theorem ofNanoseconds?_of_le {n : Nat} {s : Span} (h : n ≤ s.nanoseconds) :
    ∃ sum, ofNanoseconds? n = some sum ∧ sum.nanoseconds = n :=
  ⟨⟨n, Nat.lt_of_le_of_lt h s.inRange⟩, ofNanoseconds?_eq_some.mpr rfl, rfl⟩

/-! ## Parts of a span -/

/-- The nanoseconds in one of a unit. -/
def Worth.size : Worth → Nat
  | .nanoseconds each => each
  | .seconds each => each * 1000000000

/-- A part of a span: so many of a unit, with the unit's name and the ending of its plural. -/
structure Part where
  /-- How many of the unit. -/
  count : Nat
  /-- The unit. -/
  unit : Scale
  /-- The name of the unit. -/
  name : String
  /-- What ends the name of several. -/
  plural : String

namespace Part

/-- The nanoseconds of a part. -/
def size (p : Part) : Nat := p.count * p.unit.whole.size

/-- The nanoseconds of parts together. -/
def total : List Part → Nat
  | [] => 0
  | p :: rest => p.size + total rest

/-- The written items of a part: one, or none for a zero part. -/
def items (p : Part) : List (List Char) := item p.count p.name p.plural

/-- Whether a part stays below a second, if it is counted in nanoseconds. -/
def isBrief (p : Part) : Bool :=
  match p.unit.whole with
  | .nanoseconds _ => p.size < 1000000000
  | .seconds _ => true

end Part

/-- The parts of a span, largest unit first. -/
def parts (s : Span) : List Part :=
  let inYear := s.seconds % 31557600
  let inMonth := inYear % 2630016
  let inDay := inMonth % 86400
  [⟨s.seconds / 31557600, .year, "year", "s"⟩, ⟨inYear / 2630016, .month, "month", "s"⟩,
   ⟨inMonth / 86400, .day, "day", "s"⟩, ⟨inDay / 3600, .hour, "h", ""⟩,
   ⟨inDay % 3600 / 60, .minute, "m", ""⟩, ⟨inDay % 60, .second, "s", ""⟩,
   ⟨s.subsecond / 1000000, .millisecond, "ms", ""⟩,
   ⟨s.subsecond / 1000 % 1000, .microsecond, "us", ""⟩, ⟨s.subsecond % 1000, .nanosecond, "ns", ""⟩]

/-- A span is written part by part. -/
theorem items_eq (s : Span) : s.items = s.parts.flatMap Part.items := by
  simp [items, parts, Part.items, List.append_assoc]

/-- Seconds in years, months, days and the units of the clock. -/
theorem clock_sum (n : Nat) :
    n / 31557600 * 31557600 + n % 31557600 / 2630016 * 2630016
      + n % 31557600 % 2630016 / 86400 * 86400
      + n % 31557600 % 2630016 % 86400 / 3600 * 3600
      + n % 31557600 % 2630016 % 86400 % 3600 / 60 * 60
      + n % 31557600 % 2630016 % 86400 % 60 = n := by
  omega

/-- Nanoseconds in milliseconds, microseconds and what is left. -/
theorem subsecond_sum (n : Nat) :
    n / 1000000 * 1000000 + n / 1000 % 1000 * 1000 + n % 1000 = n := by
  omega

/-- The sum of parts, unit by unit. -/
theorem total_of_counts (years months days hours minutes seconds milli micro nano : Nat) :
    Part.total
      [⟨years, .year, "year", "s"⟩, ⟨months, .month, "month", "s"⟩, ⟨days, .day, "day", "s"⟩,
        ⟨hours, .hour, "h", ""⟩, ⟨minutes, .minute, "m", ""⟩, ⟨seconds, .second, "s", ""⟩,
        ⟨milli, .millisecond, "ms", ""⟩, ⟨micro, .microsecond, "us", ""⟩,
        ⟨nano, .nanosecond, "ns", ""⟩] =
      (years * 31557600 + months * 2630016 + days * 86400 + hours * 3600 + minutes * 60 + seconds)
          * 1000000000
        + (milli * 1000000 + micro * 1000 + nano) := by
  simp only [Part.total, Part.size, Scale.whole, Worth.size]
  ring

/-- A span is the sum of its parts. -/
theorem total_parts (s : Span) : Part.total s.parts = s.nanoseconds := by
  have hwhole : s.seconds * 1000000000 + s.subsecond = s.nanoseconds := Nat.div_add_mod' _ _
  have hsum := total_of_counts (s.seconds / 31557600) (s.seconds % 31557600 / 2630016)
    (s.seconds % 31557600 % 2630016 / 86400) (s.seconds % 31557600 % 2630016 % 86400 / 3600)
    (s.seconds % 31557600 % 2630016 % 86400 % 3600 / 60)
    (s.seconds % 31557600 % 2630016 % 86400 % 60) (s.subsecond / 1000000)
    (s.subsecond / 1000 % 1000) (s.subsecond % 1000)
  rw [clock_sum, subsecond_sum, hwhole] at hsum
  exact hsum

/-- A part that is counted in nanoseconds is brief if it is below a second. -/
theorem isBrief_of_lt {count each : Nat} {unit : Scale} {name plural : String}
    (whole : unit.whole = .nanoseconds each) (h : count * each < 1000000000) :
    (Part.mk count unit name plural).isBrief = true := by
  simp only [Part.isBrief, Part.size, whole, Worth.size, h, decide_true]

/-- Every part of a span is brief. -/
theorem isBrief_of_mem_parts {s : Span} {p : Part} (h : p ∈ s.parts) : p.isBrief = true := by
  have hsub : s.subsecond < 1000000000 := Nat.mod_lt _ (by decide)
  simp only [parts, List.mem_cons, List.not_mem_nil, or_false] at h
  rcases h with rfl | rfl | rfl | rfl | rfl | rfl | rfl | rfl | rfl
  case inr.inr.inr.inr.inr.inr.inl => exact isBrief_of_lt rfl (by omega)
  case inr.inr.inr.inr.inr.inr.inr.inl => exact isBrief_of_lt rfl (by omega)
  case inr.inr.inr.inr.inr.inr.inr.inr => exact isBrief_of_lt rfl (by omega)
  all_goals rfl

/-- The count of every part of a span fits. -/
theorem count_lt_of_mem_parts {s : Span} {p : Part} (h : p ∈ s.parts) : p.count < UInt64.size := by
  have hsize : UInt64.size = 18446744073709551616 := rfl
  have hseconds : s.seconds < UInt64.size := Nat.div_lt_of_lt_mul (Nat.mul_comm _ _ ▸ s.inRange)
  have hsub : s.subsecond < 1000000000 := Nat.mod_lt _ (by decide)
  simp only [parts, List.mem_cons, List.not_mem_nil, or_false] at h
  rcases h with rfl | rfl | rfl | rfl | rfl | rfl | rfl | rfl | rfl <;> dsimp only <;> omega

/-- Nanoseconds below a second are added as they are. -/
theorem addWorth?_nanoseconds (total : Span) {count each : Nat}
    (brief : count * each < 1000000000) :
    addWorth? total count (.nanoseconds each) =
      ofNanoseconds? (total.nanoseconds + count * each) := by
  have hsize : UInt64.size = 18446744073709551616 := rfl
  have hsub : total.subsecond < 1000000000 := Nat.mod_lt _ (by decide)
  rw [addWorth?, word?_of_lt (by omega), Option.bind_eq_bind, Option.bind_some, addNanoseconds?,
    word?_of_lt (by omega), Option.bind_eq_bind, Option.bind_some]

/-- Seconds are added as long as the sum stays within some span. -/
theorem addWorth?_seconds {total s : Span} {count each : Nat}
    (within : total.nanoseconds + count * each * 1000000000 ≤ s.nanoseconds) :
    addWorth? total count (.seconds each) =
      ofNanoseconds? (total.nanoseconds + count * each * 1000000000) := by
  have hrange := s.inRange
  have hcount : word? (count * each) = some (count * each) := word?_of_lt (by omega)
  rw [addWorth?, hcount, Option.bind_eq_bind, Option.bind_some]

/-- A part is added as long as the sum stays within some span. -/
theorem addWorth?_of_le {total s : Span} {p : Part} (brief : p.isBrief = true)
    (within : total.nanoseconds + p.size ≤ s.nanoseconds) :
    ∃ sum, addWorth? total p.count p.unit.whole = some sum ∧
      sum.nanoseconds = total.nanoseconds + p.size := by
  obtain ⟨sum, hsum, hnanoseconds⟩ := ofNanoseconds?_of_le within
  refine ⟨sum, ?_, hnanoseconds⟩
  rw [← hsum]
  unfold Part.isBrief at brief
  unfold Part.size at brief within ⊢
  cases hw : p.unit.whole with
  | nanoseconds each =>
    rw [hw] at brief
    exact addWorth?_nanoseconds total (of_decide_eq_true brief)
  | seconds each =>
    rw [hw, Worth.size, ← Nat.mul_assoc] at within
    rw [Worth.size, ← Nat.mul_assoc]
    exact addWorth?_seconds within

/-! ## Reading an item -/

/-- The name of a unit, of letters that the reader takes for nothing else. -/
structure IsNameOf (name : List Char) (unit : Scale) : Prop where
  nonempty : name ≠ []
  letters : ∀ c ∈ name, isUnitLetter c = true ∧ c.isDigit = false ∧ Blank.isBlank c = false
  known : Scale.ofName name = some unit

/-- The reader goes through digits as long as their number fits. -/
theorem run_digits {digits : List Char} (digital : ∀ c ∈ digits, c.isDigit = true) (total : Span)
    {count : Nat} (fits : Nat.ofDigitChars 10 digits count < UInt64.size) (rest : List Char) :
    (Phase.whole total count).run (digits ++ rest) =
      (Phase.whole total (Nat.ofDigitChars 10 digits count)).run rest := by
  induction digits generalizing count with
  | nil => rfl
  | cons c digits ih =>
    have hc : c.isDigit = true := digital c List.mem_cons_self
    rw [Nat.ofDigitChars_cons] at fits
    have hlt : 10 * count + Decimal.digitValue c < UInt64.size :=
      Nat.lt_of_le_of_lt (Decimal.le_ofDigitChars digits _) fits
    have hstep : (Phase.whole total count).step c =
        some (.whole total (10 * count + Decimal.digitValue c)) := by
      simp only [Phase.step, hc, if_true, word?_of_lt hlt, Option.map_some]
    rw [List.cons_append, Phase.run, hstep, Nat.ofDigitChars_cons]
    exact ih (fun d hd => digital d (List.mem_cons_of_mem c hd)) fits

/-- The reader goes through the letters of a name. -/
theorem run_letters {letters : List Char}
    (plain : ∀ c ∈ letters, isUnitLetter c = true ∧ c.isDigit = false ∧ Blank.isBlank c = false)
    (total : Span) (count : Nat) (before rest : List Char) :
    (Phase.unit total count none before).run (letters ++ rest) =
      (Phase.unit total count none (letters.reverse ++ before)).run rest := by
  induction letters generalizing before with
  | nil => rfl
  | cons c letters ih =>
    obtain ⟨hletter, hdigit, hblank⟩ := plain c List.mem_cons_self
    have hstep : (Phase.unit total count none before).step c =
        some (.unit total count none (c :: before)) := by
      simp [Phase.step, hletter, hdigit, hblank]
    rw [List.cons_append, Phase.run, hstep, List.reverse_cons, List.append_assoc]
    exact ih (fun d hd => plain d (List.mem_cons_of_mem c hd)) (c :: before)

/-- Behind a whole number, the reader goes through the name of a unit. -/
theorem run_name {name : List Char} {unit : Scale} (h : IsNameOf name unit) (total : Span)
    (count : Nat) (rest : List Char) :
    (Phase.whole total count).run (name ++ rest) =
      (Phase.unit total count none name.reverse).run rest := by
  cases name with
  | nil => exact absurd rfl h.nonempty
  | cons c letters =>
    obtain ⟨hletter, hdigit, hblank⟩ := h.letters c List.mem_cons_self
    have hstep : (Phase.whole total count).step c = some (.unit total count none [c]) := by
      simp [Phase.step, hletter, hdigit, hblank]
    rw [List.cons_append, Phase.run, hstep, List.reverse_cons]
    exact run_letters (fun d hd => h.letters d (List.mem_cons_of_mem c hd)) total count [c] rest

/-- The reader goes through an item and knows what to add for it. -/
theorem run_item {count : Nat} (fits : count < UInt64.size) {name : List Char} {unit : Scale}
    (h : IsNameOf name unit) (total : Span) (rest : List Char) :
    (Phase.between total).run (Decimal.write count ++ name ++ rest) =
      (Phase.unit total count none name.reverse).run rest := by
  have hvalue := Decimal.ofDigitChars_write count
  have hdigital : ∀ c ∈ Decimal.write count, c.isDigit = true := fun c hc =>
    Decimal.isDigit_of_mem_write hc
  obtain ⟨c, digits, hwrite, hc⟩ := Decimal.write_eq_cons count
  rw [hwrite] at hvalue hdigital ⊢
  have hstep : (Phase.between total).step c = some (.whole total (Decimal.digitValue c)) := by
    simp only [Phase.step, hc, if_true]
  have hrest : Nat.ofDigitChars 10 digits (Decimal.digitValue c) = count := by
    rw [Nat.ofDigitChars_cons, Nat.mul_zero, Nat.zero_add] at hvalue
    exact hvalue
  rw [List.append_assoc, List.cons_append, Phase.run, hstep]
  dsimp only
  rw [run_digits (fun d hd => hdigital d (List.mem_cons_of_mem c hd)) total (by rwa [hrest]),
    hrest]
  exact run_name h total count rest

/-- What an item without decimals adds. -/
theorem addItem?_of_isNameOf {name : List Char} {unit : Scale} (h : IsNameOf name unit)
    (total : Span) (count : Nat) :
    addItem? total count none name.reverse.reverse = addWorth? total count unit.whole := by
  simp only [List.reverse_reverse, addItem?, h.known, Option.bind_eq_bind, Option.bind_some,
    Option.bind_fun_some]

/-! ## Reading the parts -/

/-- A part that is written with a name of its unit, for one and for several. -/
structure Part.Named (p : Part) : Prop where
  one : IsNameOf p.name.toList p.unit
  several : IsNameOf (p.name.toList ++ p.plural.toList) p.unit

/-- The written item of a part that is not zero. -/
theorem Part.Named.items_eq {p : Part} (h : p.Named) (positive : p.count ≠ 0) :
    ∃ name, IsNameOf name p.unit ∧ p.items = [Decimal.write p.count ++ name] := by
  unfold Part.items item
  rw [if_neg positive]
  split
  · exact ⟨_, h.several, by rw [List.append_assoc]⟩
  · exact ⟨_, h.one, by rw [List.append_nil]⟩

/-- Every part of a span has the name of its unit. -/
theorem named_of_mem_parts {s : Span} {p : Part} (h : p ∈ s.parts) : p.Named := by
  have hname (name plural : String) (unit : Scale)
      (h : name.toList ≠ [] ∧
        (name.toList ++ plural.toList).all
          (fun c => isUnitLetter c && !c.isDigit && !Blank.isBlank c) = true ∧
        Scale.ofName name.toList = some unit ∧
        Scale.ofName (name.toList ++ plural.toList) = some unit) (count : Nat) :
      Part.Named ⟨count, unit, name, plural⟩ := by
    obtain ⟨hne, hall, hone, hseveral⟩ := h
    have hletters : ∀ c ∈ name.toList ++ plural.toList,
        isUnitLetter c = true ∧ c.isDigit = false ∧ Blank.isBlank c = false := by
      simpa only [List.all_eq_true, Bool.and_eq_true, Bool.not_eq_true', and_assoc] using hall
    exact ⟨⟨hne, fun c hc => hletters c (List.mem_append_left _ hc), hone⟩,
      ⟨fun he => hne (List.append_eq_nil_iff.mp he).1, hletters, hseveral⟩⟩
  simp only [parts, List.mem_cons, List.not_mem_nil, or_false] at h
  rcases h with rfl | rfl | rfl | rfl | rfl | rfl | rfl | rfl | rfl <;>
    exact hname _ _ _ (by decide) _

/-- Parts without items are zero. -/
theorem total_of_no_items {ps : List Part} (h : ps.flatMap Part.items = []) :
    Part.total ps = 0 := by
  induction ps with
  | nil => rfl
  | cons p rest ih =>
    obtain ⟨hitems, hrest⟩ := List.append_eq_nil_iff.mp (List.flatMap_cons ▸ h)
    have hzero : p.count = 0 := by
      by_contra hpositive
      rw [Part.items, item, if_neg hpositive] at hitems
      cases hitems
    rw [Part.total, ih hrest, Part.size, hzero, Nat.zero_mul]

/-- The reader adds up the items of parts. -/
theorem run_parts {ps : List Part} (named : ∀ p ∈ ps, p.Named) (brief : ∀ p ∈ ps, p.isBrief = true)
    (counts : ∀ p ∈ ps, p.count < UInt64.size) {total s : Span}
    (sum : total.nanoseconds + Part.total ps = s.nanoseconds)
    (written : ps.flatMap Part.items ≠ []) :
    (Phase.between total).run (List.intercalate [' '] (ps.flatMap Part.items)) = some s := by
  induction ps generalizing total with
  | nil => exact absurd rfl written
  | cons p rest ih =>
    have hih := @ih (fun q hq => named q (List.mem_cons_of_mem p hq))
      (fun q hq => brief q (List.mem_cons_of_mem p hq))
      (fun q hq => counts q (List.mem_cons_of_mem p hq))
    rw [Part.total, ← Nat.add_assoc] at sum
    rw [List.flatMap_cons] at written ⊢
    have hwithin : total.nanoseconds + p.size ≤ s.nanoseconds := by omega
    obtain ⟨total', hadd, htotal⟩ := addWorth?_of_le (brief p List.mem_cons_self) hwithin
    by_cases hzero : p.count = 0
    · -- a zero part is not written and adds nothing
      have hitems : p.items = [] := if_pos hzero
      rw [hitems, List.nil_append] at written ⊢
      rw [Part.size, hzero, Nat.zero_mul, Nat.add_zero] at sum
      exact hih sum written
    · obtain ⟨name, hname, hitems⟩ := (named p List.mem_cons_self).items_eq hzero
      have hfits := counts p List.mem_cons_self
      rw [hitems, List.singleton_append]
      rw [← htotal] at sum
      cases hrest : rest.flatMap Part.items with
      | nil =>
        have hs : total' = s := by
          rw [total_of_no_items hrest, Nat.add_zero] at sum
          exact ext_nanoseconds sum
        have hrun := run_item hfits hname total []
        rw [List.append_nil] at hrun
        rw [List.intercalate_singleton, hrun, Phase.run, Phase.finish,
          addItem?_of_isNameOf hname, hadd, hs]
      | cons first others =>
        have hblank : (Phase.unit total p.count none name.reverse).step ' ' =
            some (.between total') := by
          rw [Phase.step, addItem?_of_isNameOf hname, hadd]
          rfl
        rw [List.intercalate_cons_cons, List.append_assoc, run_item hfits hname, ← hrest,
          List.singleton_append, Phase.run, hblank]
        exact hih sum (by rw [hrest]; exact List.cons_ne_nil first others)

/-- An item begins with a digit. -/
theorem Part.eq_cons_of_mem_items {p : Part} {text : List Char} (h : text ∈ p.items) :
    ∃ c rest, text = c :: rest ∧ c.isDigit = true := by
  unfold items item at h
  split at h
  case isTrue => cases h
  case isFalse =>
    obtain ⟨c, digits, hwrite, hc⟩ := Decimal.write_eq_cons p.count
    rw [List.mem_singleton.mp h, hwrite]
    exact ⟨c, _, rfl, hc⟩

/-- A text that begins with a digit has its first number read. -/
theorem opening_run_of_isDigit {c : Char} (digital : c.isDigit = true) (rest : List Char) :
    Phase.opening.run (c :: rest) = (Phase.between zero).run (c :: rest) := by
  have hstep : Phase.opening.step c = (Phase.between zero).step c := by
    simp only [Phase.step, digital, if_true]
  rw [Phase.run, Phase.run, hstep]

/-- A text of items begins with a digit. -/
theorem intercalate_eq_cons {ps : List Part} (written : ps.flatMap Part.items ≠ []) :
    ∃ c rest, List.intercalate [' '] (ps.flatMap Part.items) = c :: rest ∧ c.isDigit = true := by
  cases hitems : ps.flatMap Part.items with
  | nil => exact absurd hitems written
  | cons first others =>
    obtain ⟨p, -, hfirst⟩ := List.mem_flatMap.mp (hitems ▸ List.mem_cons_self (l := others))
    obtain ⟨c, rest, rfl, hc⟩ := Part.eq_cons_of_mem_items hfirst
    cases others with
    | nil => exact ⟨c, rest, List.intercalate_singleton, hc⟩
    | cons second others => exact ⟨c, _, List.intercalate_cons_cons, hc⟩

/-- A span that was written is read back. -/
theorem parse_render (s : Span) : parse s.render = some s := by
  have hitems := s.items_eq
  unfold render
  split
  case h_1 hnone =>
    have hzero : zero = s := by
      refine ext_nanoseconds ?_
      rw [← s.total_parts, total_of_no_items (hitems ▸ hnone)]
      rfl
    rw [← hzero]
    decide
  case h_2 hsome =>
    have hwritten : s.parts.flatMap Part.items ≠ [] := hitems ▸ hsome
    have hsum : zero.nanoseconds + Part.total s.parts = s.nanoseconds :=
      (Nat.zero_add _).trans s.total_parts
    have hrun := run_parts (fun p => named_of_mem_parts) (fun p => isBrief_of_mem_parts)
      (fun p => count_lt_of_mem_parts) hsum hwritten
    obtain ⟨c, rest, htext, hc⟩ := intercalate_eq_cons hwritten
    rw [htext] at hrun
    have hne : c :: rest ≠ ['0'] := by
      intro he
      rw [he] at hrun
      cases hrun
    rw [hitems, htext, parse, if_neg hne, opening_run_of_isDigit hc, hrun]

/-! ## What a written span consists of -/

/-- Whether a character may stand in a written span: a digit, a letter of a unit or a space. -/
def isWritten (c : Char) : Bool := c.isDigit || isUnitLetter c || c = ' '

/-- A part is written in digits, letters and blanks. -/
theorem isWritten_of_mem_items {p : Part} (named : p.Named) {text : List Char}
    (h : text ∈ p.items) {c : Char} (hc : c ∈ text) : isWritten c = true := by
  have hzero : p.count ≠ 0 := by
    intro he
    rw [Part.items, item, if_pos he] at h
    cases h
  obtain ⟨name, hname, hitems⟩ := named.items_eq hzero
  rw [hitems, List.mem_singleton] at h
  rw [h, List.mem_append] at hc
  rcases hc with hc | hc
  · simp [isWritten, Decimal.isDigit_of_mem_write hc]
  · simp [isWritten, (hname.letters c hc).1]

/-- Parts that are written so are written so together. -/
theorem isWritten_of_mem_intercalate {texts : List (List Char)}
    (written : ∀ text ∈ texts, ∀ c ∈ text, isWritten c = true) {c : Char}
    (h : c ∈ List.intercalate [' '] texts) : isWritten c = true := by
  induction texts with
  | nil => cases h
  | cons first others ih =>
    have hfirst := written first List.mem_cons_self
    cases others with
    | nil =>
      rw [List.intercalate_singleton] at h
      exact hfirst c h
    | cons second others =>
      rw [List.intercalate_cons_cons, List.mem_append, List.mem_append] at h
      rcases h with (h | h) | h
      · exact hfirst c h
      · rw [List.mem_singleton.mp h]
        decide
      · exact ih (fun text ht => written text (List.mem_cons_of_mem first ht)) h

/-- A span is written in digits, letters and blanks. -/
theorem isWritten_of_mem_render {s : Span} {c : Char} (h : c ∈ s.render) : isWritten c = true := by
  unfold render at h
  split at h
  case h_1 =>
    have hzero : ['0', 's'].all isWritten = true := by decide
    exact List.all_eq_true.mp hzero c h
  case h_2 =>
    refine isWritten_of_mem_intercalate (fun text ht c hc => ?_) h
    obtain ⟨p, hp, hitem⟩ := List.mem_flatMap.mp (s.items_eq ▸ ht)
    exact isWritten_of_mem_items (named_of_mem_parts hp) hitem hc

/-- No span is written as nothing. -/
theorem render_ne_nil (s : Span) : s.render ≠ [] := by
  intro h
  have hparse := s.parse_render
  rw [h] at hparse
  cases hparse

end EditionWatch.Span
