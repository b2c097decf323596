import EditionWatch.Proofs.Numerals
import EditionWatch.Toml.Document
import Mathlib.Algebra.BigOperators.Group.List.Basic

/-!
# Documents with one pair a line

A line that begins with a bare key, and whose pair is read whatever follows the line, defines a
name. A document of such lines with different names is read as the table of the defined values in
the order of the lines. Numbers and plain strings in double quotes make such lines.
-/

namespace EditionWatch.Toml

/-! ## Documents -/

/-- A line that defines the value of a name, whatever follows it. -/
structure Defines (line : List Char) (name : String) (value : Value) : Prop where
  bare : ∃ c rest, line = c :: rest ∧ isBare c = true
  reads : ∀ rest,
    pair (Toml.value depthLimit) (line ++ rest) = some ((⟨[], name⟩, value), '\n' :: rest)

/-- A line defines one name. -/
theorem Defines.name_eq {line : List Char} {n m : String} {v w : Value} (h : Defines line n v)
    (h' : Defines line m w) : n = m := by
  have heq := (h.reads []).symm.trans (h'.reads [])
  injection heq with heq
  injection heq with heq
  injection heq with heq
  injection heq

/-- A character that may stand in a bare name is none that may not. -/
theorem ne_of_isBare {c d : Char} (bare : isBare c = true) (h : isBare d = false) : c ≠ d := by
  rintro rfl
  rw [bare] at h
  cases h

/-- No blank has to be skipped before a bare name. -/
theorem trimBlanks_of_isBare {c : Char} (bare : isBare c = true) (rest : List Char) :
    trimBlanks (c :: rest) = c :: rest := by
  refine List.dropWhile_cons_of_neg ?_
  simp [ne_of_isBare bare (d := ' ') (by decide), ne_of_isBare bare (d := '\t') (by decide)]

/-- No line has to be skipped before a bare name. -/
theorem trimLines_of_isBare {c : Char} (bare : isBare c = true) (rest : List Char) :
    trimLines false (c :: rest) = some (c :: rest) := by
  have hne {d : Char} (h : isBare d = false) : c ≠ d := ne_of_isBare bare h
  rw [trimLines]
  · simp [hne (d := ' ') (by decide), hne (d := '\t') (by decide), hne (d := '#') (by decide)]
  · exact hne (by decide)
  · intro _ h
    exact absurd h (hne (by decide))

/-- A line that begins with a bare name is read as the pair that stands there. -/
theorem expression_of_pair {c : Char} (bare : isBare c = true) {text rest : List Char} {k : Key}
    {v : Value} (read : pair (value depthLimit) (c :: text) = some ((k, v), rest))
    {draft draft' : Draft} (assigned : draft.assign? k v = some draft') :
    expression draft (c :: text) = some (draft', rest) := by
  have hne : c ≠ '[' := ne_of_isBare bare (by decide)
  rw [expression, read]
  · simp only [Option.bind_eq_bind, Option.bind_some, assigned]
  · intro _ h
    exact hne (List.cons.inj h).1
  · intro _ h
    exact hne (List.cons.inj h).1

/-- A value with a new name is put behind those before. -/
theorem assign?_of_new {root : Entries} {name : String} (new : name ∉ root.map Prod.fst)
    (value : Value) :
    Draft.assign? ⟨root, []⟩ ⟨[], name⟩ value = some ⟨root ++ [(name, value)], []⟩ := by
  have hget : root.get? name = none := KeyMap.find_eq_none_iff.mpr new
  have hdefine : Entries.define? name value root = some (root ++ [(name, value)]) := by
    rw [Entries.define?, hget, KeyMap.store_of_not_mem new]
  simp only [Draft.assign?, Entries.underHeader, Entries.assign?, Entries.underDotted, hdefine,
    Option.bind_eq_bind, Option.bind_some]

section Lines

variable {ι : Type} {line : ι → List Char} {name : ι → String} {value : ι → Value}

/-- The reader of a document goes through lines that define new names. -/
theorem expressions_of_defines {chosen : List ι}
    (defines : ∀ i ∈ chosen, Defines (line i) (name i) (value i)) {root : Entries}
    (distinct : (root.map Prod.fst ++ chosen.map name).Nodup) {limit : Nat}
    (enough : chosen.length < limit) :
    expressions limit ⟨root, []⟩ (chosen.flatMap line) =
      some ⟨root ++ chosen.map fun i => (name i, value i), []⟩ := by
  induction chosen generalizing root limit with
  | nil =>
    obtain ⟨limit, rfl⟩ := Nat.exists_eq_succ_of_ne_zero (Nat.ne_of_gt enough)
    simp [expressions, trimLines]
  | cons i rest ih =>
    obtain ⟨limit, rfl⟩ := Nat.exists_eq_succ_of_ne_zero (Nat.ne_of_gt (Nat.zero_lt_of_lt enough))
    obtain ⟨⟨c, behind, hline, hbare⟩, hreads⟩ := defines i List.mem_cons_self
    have hnew : name i ∉ root.map Prod.fst := fun h =>
      (List.nodup_append.mp distinct).2.2 _ h _ List.mem_cons_self rfl
    have hread := hreads (rest.flatMap line)
    rw [hline, List.cons_append] at hread
    have hstep := expression_of_pair hbare hread (assign?_of_new hnew (value i))
    have hlater : ((root ++ [(name i, value i)]).map Prod.fst ++ rest.map name).Nodup := by
      simpa using distinct
    have hrest := ih (fun j hj => defines j (List.mem_cons_of_mem i hj)) hlater
      (Nat.lt_of_succ_lt_succ enough)
    rw [List.append_assoc] at hrest
    rw [List.flatMap_cons, hline, List.cons_append, expressions, trimLines_of_isBare hbare]
    simp only [Option.bind_eq_bind, Option.bind_some, hstep]
    exact hrest

/-- A document of lines that define different names is the table of their values. -/
theorem parse_of_defines {chosen : List ι}
    (defines : ∀ i ∈ chosen, Defines (line i) (name i) (value i))
    (distinct : (chosen.map name).Nodup) :
    parse (chosen.flatMap line) = some (chosen.map fun i => (name i, value i)) := by
  have hmark : behindMark (chosen.flatMap line) = chosen.flatMap line := by
    cases chosen with
    | nil => rfl
    | cons i rest =>
      obtain ⟨⟨c, behind, hline, hbare⟩, -⟩ := defines i List.mem_cons_self
      have hne : c ≠ '\uFEFF' := ne_of_isBare hbare (by decide)
      rw [List.flatMap_cons, hline, List.cons_append, behindMark]
      intro _ h
      exact hne (List.cons.inj h).1
  have henough : chosen.length < (chosen.flatMap line).length + 1 := by
    have hone : ∀ n ∈ chosen.map fun i => (line i).length, 1 ≤ n := by
      intro n hn
      obtain ⟨i, hi, rfl⟩ := List.mem_map.mp hn
      obtain ⟨⟨c, behind, hline, -⟩, -⟩ := defines i hi
      rw [hline]
      exact Nat.succ_le_succ (Nat.zero_le _)
    have hlength := List.length_le_sum_of_one_le _ hone
    rw [List.length_map, ← List.length_flatMap] at hlength
    exact Nat.lt_succ_of_le hlength
  have hread := @expressions_of_defines ι line name value chosen defines [] distinct _ henough
  simp only [parse, hmark, hread, List.nil_append, Option.map_some]

end Lines

/-! ## Keys -/

/-- A name that is a key without quotes. -/
structure IsBareName (name : String) : Prop where
  nonempty : name.toList ≠ []
  bare : ∀ c ∈ name.toList, isBare c = true

section Keys

variable {name : String}

/-- A bare name is read to its end. -/
theorem name_of_isBareName (h : IsBareName name) {c : Char} (behind : isBare c = false)
    (rest : List Char) :
    Toml.name (name.toList ++ c :: rest) = some (name, c :: rest) := by
  have htake : (name.toList ++ c :: rest).takeWhile isBare = name.toList := by
    rw [List.takeWhile_append_of_pos h.bare, List.takeWhile_cons_of_neg (by simp [behind]),
      List.append_nil]
  have hdrop : (name.toList ++ c :: rest).drop name.toList.length = c :: rest := List.drop_left
  obtain ⟨nonempty, bare⟩ := h
  cases hn : name.toList with
  | nil => exact absurd hn nonempty
  | cons d letters =>
    have hd : isBare d = true := bare d (hn ▸ List.mem_cons_self)
    have hname : String.ofList (d :: letters) = name := by rw [← hn, String.ofList_toList]
    rw [hn, List.cons_append] at htake hdrop
    rw [List.cons_append, Toml.name, if_neg (ne_of_isBare hd (by decide)),
      if_neg (ne_of_isBare hd (by decide)), htake]
    dsimp only
    rw [hdrop, hname]
    rfl

/-- A bare name is a key of one part. -/
theorem key_of_isBareName (h : IsBareName name) {limit : Nat} (positive : 0 < limit)
    (rest : List Char) :
    key limit (name.toList ++ ' ' :: '=' :: rest) = some (⟨[], name⟩, '=' :: rest) := by
  obtain ⟨limit, rfl⟩ := Nat.exists_eq_succ_of_ne_zero (Nat.ne_of_gt positive)
  rw [key, name_of_isBareName h (by decide)]
  rfl

/-- A bare key, an equals sign and a value make a pair. -/
theorem pair_of_isBareName (h : IsBareName name)
    (value : List Char → Option (Value × List Char)) (text : List Char) :
    pair value (name.toList ++ ' ' :: '=' :: ' ' :: text) =
      (value (trimBlanks text)).map fun r => ((⟨[], name⟩, r.1), r.2) := by
  have hlength : 0 < (name.toList ++ ' ' :: '=' :: ' ' :: text).length := by
    rw [List.length_append, List.length_cons]
    omega
  have hblank : trimBlanks (' ' :: text) = trimBlanks text := rfl
  rw [pair, key_of_isBareName h hlength]
  simp only [Option.bind_eq_bind, Option.bind_some, hblank]
  cases value (trimBlanks text) <;> rfl

end Keys

/-! ## Numbers -/

section Numbers

variable {digits : List Char}

/-- Digits need no separator between them. -/
theorem isSeparated_of_digits (nonempty : digits ≠ [])
    (digital : ∀ c ∈ digits, c.isDigit = true) :
    Scalar.isSeparated Char.isDigit digits = true := by
  induction digits with
  | nil => exact absurd rfl nonempty
  | cons c rest ih =>
    have hc : c.isDigit = true := digital c List.mem_cons_self
    cases rest with
    | nil => rw [Scalar.isSeparated, hc]
    | cons d rest =>
      have hd : d.isDigit = true := digital d (by simp)
      have hrest := ih (List.cons_ne_nil d rest) fun e he => digital e (List.mem_cons_of_mem c he)
      rw [Scalar.isSeparated, hc, hrest]
      · rfl
      · exact List.cons_ne_nil d rest
      · intro _ h
        rw [(List.cons.inj h).1] at hd
        exact absurd hd (by decide)

/-- Digits are read as the number that they spell. -/
theorem ofDigits_of_digits (digital : ∀ c ∈ digits, c.isDigit = true) :
    Scalar.ofDigits 10 digits = Nat.ofDigitChars 10 digits 0 := by
  have hfold (start : Nat) : digits.foldl (fun n c => 10 * n + Scalar.digitValue c) start =
      Nat.ofDigitChars 10 digits start := by
    induction digits generalizing start with
    | nil => rfl
    | cons c rest ih =>
      have hc : Scalar.digitValue c = Decimal.digitValue c := if_pos (digital c List.mem_cons_self)
      rw [List.foldl_cons, Nat.ofDigitChars_cons, hc]
      exact ih (fun d hd => digital d (List.mem_cons_of_mem c hd)) _
  have hfilter : digits.filter (· ≠ '_') = digits := by
    refine List.filter_eq_self.mpr fun c hc => decide_eq_true fun he => ?_
    have hdigit := digital c hc
    rw [he] at hdigit
    cases hdigit
  rw [Scalar.ofDigits, hfilter, hfold]

/-- A number that was written in decimal is read back. -/
theorem decimal?_write (n : Nat) : Scalar.decimal? (Decimal.write n) = some (n : Int) := by
  have hdigital : ∀ c ∈ Decimal.write n, c.isDigit = true := fun _ => Decimal.isDigit_of_mem_write
  have hfront : (Decimal.write n).head? ≠ some '0' ∨ (Decimal.write n).length = 1 := by
    rcases Nat.eq_zero_or_pos n with rfl | hpos
    · exact .inr rfl
    · exact .inl (Decimal.head?_write hpos)
  have hplain : Scalar.isPlainDecimal (Decimal.write n) = true := by
    have hseparated : Scalar.isSeparated Char.isDigit (Decimal.write n) = true :=
      isSeparated_of_digits Nat.toDigits_ne_nil hdigital
    rw [Scalar.isPlainDecimal, hseparated]
    simpa using hfront
  rw [Scalar.decimal?, if_pos hplain, ofDigits_of_digits hdigital, Decimal.ofDigitChars_write]

/-- A number that was written in decimal is read back as an integer. -/
theorem integer?_write (n : Nat) : Scalar.integer? (Decimal.write n) = some (n : Int) := by
  have hnot {c : Char} (h : c.isDigit = false) : c ∉ Decimal.write n := fun hc => by
    rw [Decimal.isDigit_of_mem_write hc] at h
    cases h
  unfold Scalar.integer?
  split
  case h_1 h => exact absurd (h ▸ by simp) (hnot (c := 'x') (by decide))
  case h_2 h => exact absurd (h ▸ by simp) (hnot (c := 'o') (by decide))
  case h_3 h => exact absurd (h ▸ by simp) (hnot (c := 'b') (by decide))
  case h_4 h => exact absurd (h ▸ by simp) (hnot (c := '+') (by decide))
  case h_5 h => exact absurd (h ▸ by simp) (hnot (c := '-') (by decide))
  case h_6 => exact decimal?_write n

/-- A number that fits is read back as the scalar that it is. -/
theorem read_write {n : Nat} (fits : n < UInt64.size) :
    Scalar.read (Decimal.write n) = some (.integer n) := by
  have hne {c : Char} {text : List Char} (h : c.isDigit = false) : Decimal.write n ≠ c :: text := by
    have happend := Decimal.write_append_ne_cons (n := n) h [] text
    rwa [List.append_nil] at happend
  have hstorable : Scalar.isStorable (n : Int) = true := by
    rw [Scalar.isStorable, Bool.and_eq_true, decide_eq_true_eq, decide_eq_true_eq]
    have hlow : (0 : Int) ≤ Int.ofNat (1 <<< 127) := Int.natCast_nonneg _
    have hhigh : n < 1 <<< 128 := Nat.lt_trans fits (by decide)
    exact ⟨by omega, Int.ofNat_lt.mpr hhigh⟩
  rw [Scalar.read, if_neg (hne (by decide)), if_neg (hne (by decide)), integer?_write]
  simp only [hstorable, if_true]

/-- A number ends with its line. -/
theorem split_write (n : Nat) (rest : List Char) :
    Scalar.split (Decimal.write n ++ '\n' :: rest) = (Decimal.write n, '\n' :: rest) := by
  have hpart : ∀ c ∈ Decimal.write n, Scalar.isPart c = true := by
    intro c hc
    simp [Scalar.isPart, Char.isAlphanum, Decimal.isDigit_of_mem_write hc]
  have htake : (Decimal.write n ++ '\n' :: rest).takeWhile Scalar.isPart = Decimal.write n := by
    rw [List.takeWhile_append_of_pos hpart, List.takeWhile_cons_of_neg (by decide),
      List.append_nil]
  have hdrop : (Decimal.write n ++ '\n' :: rest).drop (Decimal.write n).length = '\n' :: rest :=
    List.drop_left
  simp only [Scalar.split, htake, hdrop]
  split
  case h_1 h => cases h
  case h_2 => rfl

/-- A written number is read up to the end of its line. -/
theorem value_write {n : Nat} (fits : n < UInt64.size) (depth : Nat) (rest : List Char) :
    value depth (Decimal.write n ++ '\n' :: rest) = some (.integer n, '\n' :: rest) := by
  have hne {c : Char} {text : List Char} (h : c.isDigit = false) :
      Decimal.write n ++ '\n' :: rest ≠ c :: text := Decimal.write_append_ne_cons h _ text
  rw [value, split_write]
  · simp only [read_write fits, Option.map_some]
  all_goals
    intros
    rename_i h
    exact hne (by decide) h

end Numbers

/-! ## Plain strings -/

/-- Characters that stand for themselves between double quotes. -/
def IsPlain (content : List Char) : Prop :=
  ∀ c ∈ content, Quoted.isPlain c = true ∧ c ≠ '"' ∧ c ≠ '\\'

/-- Plain text is read up to the quotation mark. -/
theorem basic_of_isPlain {content : List Char} (plain : IsPlain content) (rest : List Char) :
    Quoted.basic (content ++ '"' :: rest) = some (content, rest) := by
  induction content with
  | nil => rfl
  | cons c content ih =>
    obtain ⟨hplain, hquote, hslash⟩ := plain c List.mem_cons_self
    have hrest := ih fun d hd => plain d (List.mem_cons_of_mem c hd)
    rw [List.cons_append, Quoted.basic, hrest]
    · simp [hplain, hslash, Quoted.push]
    all_goals
      intros
      contradiction

/-- Quoted plain text is read as the value that it is. -/
theorem value_of_isPlain {content : List Char} (plain : IsPlain content) (nonempty : content ≠ [])
    (depth : Nat) (rest : List Char) :
    value depth ('"' :: (content ++ '"' :: rest)) = some (.text (String.ofList content), rest) := by
  have hread := basic_of_isPlain plain rest
  cases content with
  | nil => exact absurd rfl nonempty
  | cons c content =>
    have hquote : c ≠ '"' := (plain c List.mem_cons_self).2.1
    rw [value, hread]
    · rfl
    · intro _ h
      exact hquote (List.cons.inj h).1

/-! ## Lines of numbers and strings -/

/-- A line that begins with a bare name begins with a bare character. -/
theorem bare_line {name : String} (h : IsBareName name) (behind : List Char) :
    ∃ c rest, name.toList ++ behind = c :: rest ∧ isBare c = true := by
  cases hn : name.toList with
  | nil => exact absurd hn h.nonempty
  | cons c letters => exact ⟨c, _, rfl, h.bare c (hn ▸ List.mem_cons_self)⟩

/-- A line with a bare key and a number defines the name. -/
theorem defines_number {name : String} (h : IsBareName name) {n : Nat} (fits : n < UInt64.size) :
    Defines (name.toList ++ " = ".toList ++ Decimal.write n ++ ['\n']) name (.integer n) := by
  refine ⟨?_, fun rest => ?_⟩
  · simpa only [List.append_assoc] using bare_line h _
  · have hblank : trimBlanks (Decimal.write n ++ '\n' :: rest) =
        Decimal.write n ++ '\n' :: rest := by
      obtain ⟨c, digits, hwrite, hc⟩ := Decimal.write_eq_cons n
      have hbare : isBare c = true := by simp [isBare, Char.isAlphanum, hc]
      rw [hwrite]
      exact trimBlanks_of_isBare hbare _
    have hpair := pair_of_isBareName h (value depthLimit) (Decimal.write n ++ '\n' :: rest)
    rw [hblank, value_write fits, Option.map_some] at hpair
    rw [← hpair]
    simp

/-- A line with a bare key and a plain string in quotes defines the name. -/
theorem defines_text {name : String} (h : IsBareName name) {content : List Char}
    (plain : IsPlain content) (nonempty : content ≠ []) :
    Defines (name.toList ++ " = \"".toList ++ content ++ ['"', '\n']) name
      (.text (String.ofList content)) := by
  refine ⟨?_, fun rest => ?_⟩
  · simpa only [List.append_assoc] using bare_line h _
  · have hpair := pair_of_isBareName h (value depthLimit) ('"' :: (content ++ '"' :: '\n' :: rest))
    have hblank : trimBlanks ('"' :: (content ++ '"' :: '\n' :: rest)) =
        '"' :: (content ++ '"' :: '\n' :: rest) := rfl
    rw [hblank, value_of_isPlain plain nonempty, Option.map_some] at hpair
    rw [← hpair]
    simp

end EditionWatch.Toml
