import EditionWatch.Key.Uri
import EditionWatch.KeyMap

/-!
# Frontiers

What is known of a document: its slot, the newest edition known to exist, and its known good
edition, the newest one whose content was fetched. Both only ever rise, and a known good
edition raises the slot along with it.
-/

namespace EditionWatch

/-- The newest editions known of a document. -/
structure Frontier where
  /-- The newest edition known to exist. -/
  slot : Option Edition
  /-- The newest edition whose content was fetched. -/
  good : Option Edition
  deriving DecidableEq

namespace Frontier

/-- Nothing is known. -/
def unknown : Frontier := ⟨none, none⟩

/-- The first edition above the slot, or the first of all. -/
def nextUnknown (f : Frontier) : Edition :=
  match f.slot with
  | none => 0
  | some slot => Edition.next slot

/-- Whether the slot is ahead of the known good edition. -/
def isStalled (f : Frontier) : Bool :=
  match f.slot with
  | none => false
  | some slot => isAbove slot f.good

/-- The frontier raised by an edition that exists, if the edition is above the slot. -/
def raiseSlot? (f : Frontier) (e : Edition) : Option Frontier :=
  if isAbove e f.slot then some { f with slot := some e } else none

/-- What a fetched edition does to a frontier. -/
structure GoodRise where
  /-- The raised frontier. -/
  frontier : Frontier
  /-- Whether the slot rose as well. -/
  slotRose : Bool

/-- The frontier raised by an edition whose content was fetched, if it is above the known
good edition. -/
def raiseGood? (f : Frontier) (e : Edition) : Option GoodRise :=
  if isAbove e f.good then
    let slotRose := isAbove e f.slot
    some ⟨⟨if slotRose then some e else f.slot, some e⟩, slotRose⟩
  else none

end Frontier

/-- The frontiers of all documents of which something is known. -/
abbrev Frontiers := KeyMap DocumentKey Frontier

/-- The frontier of one document. -/
def Frontiers.of (fs : Frontiers) (key : DocumentKey) : Frontier :=
  (fs.get? key).getD .unknown

/-- A frontier that is inserted is that of its document, and no other changes. -/
theorem Frontiers.of_insert (fs : Frontiers) (key other : DocumentKey) (f : Frontier) :
    Frontiers.of (fs.insert key f) other = if key = other then f else fs.of other := by
  rw [of, KeyMap.get?_insert]
  split <;> rfl

end EditionWatch
