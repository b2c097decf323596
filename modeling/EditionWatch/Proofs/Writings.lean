import EditionWatch.Proofs.Documents
import EditionWatch.Proofs.Spans
import EditionWatch.Settings.Text
import Mathlib.Data.List.Nodup
import Mathlib.Data.List.Perm.Subperm
import Mathlib.Data.Set.List

/-!
# Written settings are read back

Each of the six lines of written settings defines the value of one name. A document of some of
them, in whatever order, is read as the table of their values, and loading it takes the value of
each setting whose line is there and the standard for the others. So settings that were written
are loaded again, be their counts and spans as large as they can be.
-/

namespace EditionWatch.Settings

/-- The settings by their names. -/
inductive Entry where
  | maxTemporary
  | prefetchDelay
  | pollInterval
  | maxPollInterval
  | minFailures
  | maxProbes
  deriving DecidableEq

namespace Entry

/-- The entries in the order in which they are written. -/
def all : List Entry :=
  [maxTemporary, prefetchDelay, pollInterval, maxPollInterval, minFailures, maxProbes]

/-- The name under which a setting is kept. -/
def name : Entry → String
  | maxTemporary => "max_temporary_fetchers"
  | prefetchDelay => "prefetch_delay"
  | pollInterval => "poll_interval"
  | maxPollInterval => "max_poll_interval"
  | minFailures => "min_failures"
  | maxProbes => "max_probes_per_round"

/-- The names of all entries may be written bare. -/
theorem isBareName (e : Entry) : Toml.IsBareName e.name := by
  cases e <;> exact ⟨by decide, List.all_eq_true.mp (by decide)⟩

/-- No two entries have the same name. -/
theorem name_injective : Function.Injective name := by
  intro e f h
  cases e <;> cases f <;> first | rfl | exact absurd h (by decide)

end Entry

/-- The value of an entry in a document: a number or a string. -/
def value (s : Settings) : Entry → Toml.Value
  | .maxTemporary => .integer s.maxTemporary.toNat
  | .prefetchDelay => .text (String.ofList s.prefetchDelay.render)
  | .pollInterval => .text (String.ofList s.pollInterval.render)
  | .maxPollInterval => .text (String.ofList s.maxPollInterval.render)
  | .minFailures => .integer s.minFailures.toNat
  | .maxProbes => .integer s.maxProbes.toNat

/-- The line of an entry. -/
def line (s : Settings) : Entry → List Char
  | .maxTemporary => countLine Entry.maxTemporary.name s.maxTemporary
  | .prefetchDelay => spanLine Entry.prefetchDelay.name s.prefetchDelay
  | .pollInterval => spanLine Entry.pollInterval.name s.pollInterval
  | .maxPollInterval => spanLine Entry.maxPollInterval.name s.maxPollInterval
  | .minFailures => countLine Entry.minFailures.name s.minFailures
  | .maxProbes => countLine Entry.maxProbes.name s.maxProbes

/-- Settings are written with one line for each entry. -/
theorem lines_eq (s : Settings) : s.lines = Entry.all.map s.line := rfl

/-! ## The lines define the values -/

/-- What may stand in a span may stand between quotation marks as it is. -/
theorem isPlain_of_isWritten {c : Char} (h : Span.isWritten c = true) :
    Toml.Quoted.isPlain c = true ∧ c ≠ '"' ∧ c ≠ '\\' := by
  have hne {d : Char} (hd : Span.isWritten d = false) : c ≠ d := by
    rintro rfl
    rw [h] at hd
    cases hd
  have hdelete : c.toNat ≠ 0x7F := fun he => hne (d := '\x7F') (by decide) (Char.toNat_inj.mp he)
  have hcontrol : 0x20 ≤ c.toNat := by
    have hupper (h : c.isUpper = true) : 'A'.toNat ≤ c.toNat :=
      UInt32.le_iff_toNat_le.mp (of_decide_eq_true h).1
    have hlower (h : c.isLower = true) : 'a'.toNat ≤ c.toNat :=
      UInt32.le_iff_toNat_le.mp (of_decide_eq_true (Bool.and_eq_true_iff.mp h).1)
    simp only [Span.isWritten, Span.isUnitLetter, Bool.or_eq_true, decide_eq_true_eq] at h
    rcases h with (h | h | rfl) | rfl
    · exact Nat.le_trans (by decide) (Char.isDigit_iff_toNat.mp h).1
    · rcases (Bool.or_eq_true_iff.mp h : c.isUpper = true ∨ c.isLower = true) with h | h
      · exact Nat.le_trans (by decide) (hupper h)
      · exact Nat.le_trans (by decide) (hlower h)
    · decide
    · decide
  refine ⟨?_, hne (by decide), hne (by decide)⟩
  simp [Toml.Quoted.isPlain, hcontrol, hdelete]

/-- A span may be written between quotation marks as it is. -/
theorem isPlain_render (s : Span) : Toml.IsPlain s.render := fun _ hc =>
  isPlain_of_isWritten (Span.isWritten_of_mem_render hc)

/-- Each line defines the value of its entry. -/
theorem defines_line (s : Settings) (e : Entry) : Toml.Defines (s.line e) e.name (s.value e) := by
  have hcount (e : Entry) (n : UInt64) :
      Toml.Defines (countLine e.name n) e.name (.integer n.toNat) :=
    Toml.defines_number e.isBareName n.toNat_lt
  have hspan (e : Entry) (d : Span) :
      Toml.Defines (spanLine e.name d) e.name (.text (String.ofList d.render)) :=
    Toml.defines_text e.isBareName (isPlain_render d) d.render_ne_nil
  cases e
  case maxTemporary => exact hcount _ _
  case prefetchDelay => exact hspan _ _
  case pollInterval => exact hspan _ _
  case maxPollInterval => exact hspan _ _
  case minFailures => exact hcount _ _
  case maxProbes => exact hcount _ _

/-- No two entries are written as the same line. -/
theorem line_injective (s : Settings) : Function.Injective s.line := by
  intro e f h
  have he := s.defines_line e
  rw [h] at he
  exact Entry.name_injective (he.name_eq (s.defines_line f))

/-! ## Loading some of the lines -/

/-- The settings that some lines of the written form leave: those whose lines are kept, and the
standard for the others. -/
def keeping (s : Settings) (kept : List (List Char)) : Settings where
  maxTemporary :=
    if s.line .maxTemporary ∈ kept then s.maxTemporary else standard.maxTemporary
  prefetchDelay :=
    if s.line .prefetchDelay ∈ kept then s.prefetchDelay else standard.prefetchDelay
  pollInterval := if s.line .pollInterval ∈ kept then s.pollInterval else standard.pollInterval
  maxPollInterval :=
    if s.line .maxPollInterval ∈ kept then s.maxPollInterval else standard.maxPollInterval
  minFailures := if s.line .minFailures ∈ kept then s.minFailures else standard.minFailures
  maxProbes := if s.line .maxProbes ∈ kept then s.maxProbes else standard.maxProbes

/-- To keep all lines keeps the settings. -/
theorem keeping_lines (s : Settings) : s.keeping s.lines = s := by
  have hmem (e : Entry) : s.line e ∈ s.lines := by
    rw [lines_eq]
    exact List.mem_map_of_mem (by cases e <;> decide)
  simp only [keeping, hmem, if_true]

/-- Some of the lines in some order are the lines of different entries. -/
theorem exists_entries {s : Settings} {kept : List (List Char)} (h : kept.Subperm s.lines) :
    ∃ chosen : List Entry, chosen.Nodup ∧ kept = chosen.map s.line := by
  have hrange : kept ∈ Set.range (List.map s.line) := by
    rw [Set.range_list_map]
    intro text ht
    obtain ⟨e, -, he⟩ := List.mem_map.mp (s.lines_eq ▸ h.subset ht)
    exact ⟨e, he⟩
  obtain ⟨chosen, rfl⟩ := hrange
  rw [lines_eq, List.map_subperm_map_iff s.line_injective] at h
  obtain ⟨listed, hperm, hsub⟩ := h
  have hall : Entry.all.Nodup := by decide
  exact ⟨chosen, hperm.nodup (hall.sublist hsub), rfl⟩

section Chosen

variable {s : Settings} {chosen : List Entry}

/-- The value of a name in the table of some entries. -/
theorem get?_chosen (distinct : chosen.Nodup) (e : Entry) :
    Toml.Entries.get? (chosen.map fun i => (i.name, s.value i)) e.name =
      if s.line e ∈ chosen.map s.line then some (s.value e) else none := by
  have hkeys : (chosen.map fun i => (i.name, s.value i)).map Prod.fst = chosen.map Entry.name := by
    rw [List.map_map]
    rfl
  by_cases h : e ∈ chosen
  · rw [if_pos (List.mem_map_of_mem h)]
    refine KeyMap.find_of_mem ?_ (List.mem_map_of_mem h)
    rw [hkeys]
    exact List.Nodup.map Entry.name_injective distinct
  · rw [if_neg (fun hm => h ((List.mem_map_of_injective s.line_injective).mp hm))]
    refine KeyMap.find_eq_none_iff.mpr fun hm => h ?_
    rw [hkeys] at hm
    exact (List.mem_map_of_injective Entry.name_injective).mp hm

/-- A number is read if its entry is kept, and else the standard one stands. -/
theorem count?_of_get? {entries : Toml.Entries} {name : String} {kept : Prop} [Decidable kept]
    {n : UInt64}
    (h : entries.get? name = if kept then some (.integer n.toNat) else none) (standard : UInt64) :
    count? entries name standard = some (if kept then n else standard) := by
  unfold count?
  rw [h]
  split_ifs
  · have hn : n.toNat < UInt64.size := n.toNat_lt
    exact (if_pos hn).trans (congrArg some n.ofNat_toNat)
  · rfl

/-- A span is read if its entry is kept, and else the standard one stands. -/
theorem span?_of_get? {entries : Toml.Entries} {name : String} {kept : Prop} [Decidable kept]
    {d : Span}
    (h : entries.get? name = if kept then some (.text (String.ofList d.render)) else none)
    (standard : Span) :
    span? entries name standard = some (if kept then d else standard) := by
  unfold span?
  rw [h]
  split_ifs
  · simp only [String.toList_ofList, d.parse_render]
  · rfl

/-- Loading some lines takes the value of each setting whose line is there. -/
theorem ofEntries?_chosen (distinct : chosen.Nodup) :
    ofEntries? (chosen.map fun i => (i.name, s.value i)) =
      some (s.keeping (chosen.map s.line)) := by
  have hget := get?_chosen (s := s) distinct
  have hmaxTemporary := count?_of_get? (hget .maxTemporary) standard.maxTemporary
  have hprefetchDelay := span?_of_get? (hget .prefetchDelay) standard.prefetchDelay
  have hpollInterval := span?_of_get? (hget .pollInterval) standard.pollInterval
  have hmaxPollInterval := span?_of_get? (hget .maxPollInterval) standard.maxPollInterval
  have hminFailures := count?_of_get? (hget .minFailures) standard.minFailures
  have hmaxProbes := count?_of_get? (hget .maxProbes) standard.maxProbes
  dsimp only [Entry.name] at *
  rw [ofEntries?, hmaxTemporary, hprefetchDelay, hpollInterval, hmaxPollInterval, hminFailures,
    hmaxProbes]
  rfl

/-- Settings are read from any of their lines, in any order; what is not there is standard. -/
theorem parse_kept {kept : List (List Char)} (h : kept.Subperm s.lines) :
    parse kept.flatten = some (s.keeping kept) := by
  obtain ⟨chosen, hdistinct, rfl⟩ := exists_entries h
  have hnames : (chosen.map Entry.name).Nodup := List.Nodup.map Entry.name_injective hdistinct
  have hparse := Toml.parse_of_defines (fun e _ => s.defines_line e) hnames
  rw [parse, ← List.flatMap_def, hparse]
  exact ofEntries?_chosen hdistinct

end Chosen

/-- Settings that are written are loaded again. Of any of their lines, each once and in any order,
the settings whose lines are there are loaded and the standard for the others. -/
theorem settings_round_trip (s : Settings) :
    load (some s.render.toUTF8) = .ok s ∧
      ∀ kept : List (List Char), kept.Subperm s.lines →
        load (some (String.ofList kept.flatten).toUTF8) = .ok (s.keeping kept) := by
  have hkept (kept : List (List Char)) (h : kept.Subperm s.lines) :
      load (some (String.ofList kept.flatten).toUTF8) = .ok (s.keeping kept) := by
    refine load_toUTF8 ?_
    rw [String.toList_ofList]
    exact parse_kept h
  refine ⟨?_, hkept⟩
  have hall := hkept s.lines (List.Subperm.refl _)
  rwa [keeping_lines] at hall

/-- The settings with the largest counts and the longest spans. -/
def largest : Settings :=
  let longest : Span := ⟨18446744073709551615999999999, by decide⟩
  ⟨18446744073709551615, longest, longest, longest, 18446744073709551615, 18446744073709551615⟩

/-- The largest settings are loaded again, and so are two of their lines in the other order. -/
theorem settings_round_trip_largest :
    [largest.line .maxProbes, largest.line .prefetchDelay].Subperm largest.lines ∧
      load (some largest.render.toUTF8) = .ok largest ∧
      load (some ("max_probes_per_round = 18446744073709551615\n" ++
        "prefetch_delay = \"584542046090years 7months 15days 17h 5m 3s 999ms 999us 999ns\"\n"
        ).toUTF8) =
          .ok { standard with
            prefetchDelay := largest.prefetchDelay
            maxProbes := largest.maxProbes } := by
  have hentries : [Entry.maxProbes, Entry.prefetchDelay].Subperm Entry.all := by decide
  have hkept : [largest.line .maxProbes, largest.line .prefetchDelay].Subperm largest.lines :=
    hentries.map largest.line_injective
  obtain ⟨hall, hsome⟩ := settings_round_trip largest
  refine ⟨hkept, hall, ?_⟩
  have hload := hsome _ hkept
  have htext : String.ofList [largest.line .maxProbes, largest.line .prefetchDelay].flatten =
      "max_probes_per_round = 18446744073709551615\n" ++
        "prefetch_delay = \"584542046090years 7months 15days 17h 5m 3s 999ms 999us 999ns\"\n" := by
    decide +kernel
  have hkeeping : largest.keeping [largest.line .maxProbes, largest.line .prefetchDelay] =
      { standard with
        prefetchDelay := largest.prefetchDelay
        maxProbes := largest.maxProbes } := by
    decide +kernel
  rw [hkeeping, htext] at hload
  exact hload

end EditionWatch.Settings
