import EditionWatch.Settings.Basic
import EditionWatch.Span.Text
import EditionWatch.Toml.Document

/-!
# Written settings

Settings are kept in a TOML document with one entry per setting, all of them optional.
Counts are whole numbers, spans are strings; entries with other names are ignored.
-/

namespace EditionWatch.Settings

/-- The causes for which settings cannot be loaded. -/
inductive LoadFault where
  /-- The file cannot be read as UTF-8 text. -/
  | unreadable
  /-- The text is no TOML document, or some setting has an unusable value. -/
  | malformed
  deriving DecidableEq, Repr

/-- The sentence that names the fault of the file at `path`. -/
def LoadFault.message (path : String) : LoadFault → String
  | .unreadable => "failed to read " ++ path
  | .malformed => "failed to parse " ++ path

/-- A setting that counts: a whole number in the 64-bit range, or the standard if missing. -/
def count? (entries : Toml.Entries) (name : String) (standard : UInt64) : Option UInt64 :=
  match entries.get? name with
  | none => some standard
  | some (.integer (.ofNat n)) => if n < UInt64.size then some (UInt64.ofNat n) else none
  | some _ => none

/-- A setting that is a span: a string with a written span, or the standard if missing. -/
def span? (entries : Toml.Entries) (name : String) (standard : Span) : Option Span :=
  match entries.get? name with
  | none => some standard
  | some (.text content) => Span.parse content.toList
  | some _ => none

/-- The settings that a TOML table describes. -/
def ofEntries? (entries : Toml.Entries) : Option Settings := do
  let maxTemporary ← count? entries "max_temporary_fetchers" standard.maxTemporary
  let prefetchDelay ← span? entries "prefetch_delay" standard.prefetchDelay
  let pollInterval ← span? entries "poll_interval" standard.pollInterval
  let maxPollInterval ← span? entries "max_poll_interval" standard.maxPollInterval
  let minFailures ← count? entries "min_failures" standard.minFailures
  let maxProbes ← count? entries "max_probes_per_round" standard.maxProbes
  some { maxTemporary, prefetchDelay, pollInterval, maxPollInterval, minFailures, maxProbes }

/-- Reads settings from the text of a TOML document. -/
def parse (text : List Char) : Option Settings := do ofEntries? (← Toml.parse text)

/-- Loads settings from the bytes of a file; a file that cannot be opened has none. -/
def load (contents : Option ByteArray) : Except LoadFault Settings :=
  match contents.bind String.fromUTF8? with
  | none => .error .unreadable
  | some text =>
    match parse text.toList with
    | none => .error .malformed
    | some settings => .ok settings

/-- Settings can be loaded from a file if they can be read from its text. -/
theorem load_toUTF8 {text : String} {s : Settings} (parses : parse text.toList = some s) :
    load (some text.toUTF8) = .ok s := by
  have hread : (some text.toUTF8).bind String.fromUTF8? = some text := by
    simp only [Option.bind_some, String.fromUTF8?, String.toUTF8, Option.dite_none_right_eq_some]
    exact ⟨text.isValidUTF8, rfl⟩
  rw [load, hread]
  simp only [parses]

/-- The line of a setting that counts. -/
def countLine (name : String) (n : UInt64) : List Char :=
  name.toList ++ " = ".toList ++ Decimal.write n.toNat ++ ['\n']

/-- The line of a setting that is a span. -/
def spanLine (name : String) (s : Span) : List Char :=
  name.toList ++ " = \"".toList ++ s.render ++ ['"', '\n']

/-- The lines of the written form, one per setting. -/
def lines (s : Settings) : List (List Char) :=
  [countLine "max_temporary_fetchers" s.maxTemporary,
   spanLine "prefetch_delay" s.prefetchDelay,
   spanLine "poll_interval" s.pollInterval,
   spanLine "max_poll_interval" s.maxPollInterval,
   countLine "min_failures" s.minFailures,
   countLine "max_probes_per_round" s.maxProbes]

/-- The written form of settings, a TOML document. -/
def render (s : Settings) : String := String.ofList s.lines.flatten

end EditionWatch.Settings
