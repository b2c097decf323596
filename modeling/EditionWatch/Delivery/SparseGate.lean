import EditionWatch.Records.Registry

/-!
# Sparse delivery

A sparse gate stands before a callback. It keeps the newest slot it is told of until a
polling round ends, lets it through then if it is newer than all it let through before, and
passes the end of the round on. Editions that only became known good are kept out. Gates
stand in rows: what one lets through is what the next one is told.
-/

namespace EditionWatch

/-- What a callback is told. -/
inductive Signal where
  /-- An edition was found. -/
  | found (found : Found)
  /-- A polling round of the document is over. -/
  | round (key : DocumentKey)
  deriving DecidableEq

/-- A gate with the slot it keeps and the newest edition it let through. -/
structure SparseGate where
  /-- The newest slot since the last round. -/
  pending : Option Found
  /-- The newest edition let through. -/
  passed : Option Edition
  deriving DecidableEq

namespace SparseGate

/-- A gate that was told nothing yet. -/
def fresh : SparseGate := ⟨none, none⟩

/-- Whether a gate takes up an edition: a slot above the one it keeps. -/
def takes (gate : SparseGate) (found : Found) : Bool :=
  (!found.good || found.newSlot) && isAbove found.edition (gate.pending.map Found.edition)

/-- What a gate does when told something. -/
structure Passage where
  /-- The gate afterwards. -/
  gate : SparseGate
  /-- What it lets through, in order. -/
  through : List Signal

/-- Tells a gate something. -/
def feed (gate : SparseGate) : Signal → Passage
  | .found found => ⟨if gate.takes found then { gate with pending := some found } else gate, []⟩
  | .round key =>
    match gate.pending with
    | none => ⟨gate, [.round key]⟩
    | some found =>
      if isAbove found.edition gate.passed then
        ⟨⟨none, some found.edition⟩, [.found found, .round key]⟩
      else ⟨⟨none, gate.passed⟩, [.round key]⟩

/-- Tells a gate one thing after the other. -/
def feedAll (gate : SparseGate) : List Signal → Passage
  | [] => ⟨gate, []⟩
  | signal :: rest =>
    let first := gate.feed signal
    let later := first.gate.feedAll rest
    ⟨later.gate, first.through ++ later.through⟩

end SparseGate

/-- A row of gates, the one that is told first in front. -/
abbrev GateRow := List SparseGate

namespace GateRow

/-- What a row of gates does when told something. -/
structure Passage where
  /-- The row afterwards. -/
  row : GateRow
  /-- What the last gate lets through, in order. -/
  through : List Signal

/-- Tells a row of gates one thing after the other. -/
def feed : GateRow → List Signal → Passage
  | [], signals => ⟨[], signals⟩
  | gate :: row, signals =>
    let first := gate.feedAll signals
    let later := feed row first.through
    ⟨first.gate :: later.row, later.through⟩

/-- What comes through a row for each of several things it is told in turn. -/
def trace : GateRow → List Signal → List (List Signal)
  | _, [] => []
  | row, signal :: rest =>
    let passage := row.feed [signal]
    passage.through :: trace passage.row rest

end GateRow

end EditionWatch
