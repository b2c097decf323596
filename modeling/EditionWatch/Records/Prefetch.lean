import EditionWatch.Fetch.Network
import EditionWatch.Records.Frontier

/-!
# Prefetching stalled slots

A document that was looked up with prefetching carries a mark. The mark is armed with the
time at which the slot last rose; once it has stayed armed for the prefetch delay it goes
off, and if the slot is still ahead of the known good edition its content is due for a fetch.
-/

namespace EditionWatch

/-- The mark of a document. -/
inductive PrefetchMark where
  /-- Nothing is waited for. -/
  | idle
  /-- The slot has not been confirmed since some time. -/
  | since (start : Instant)
  deriving DecidableEq

/-- The marks of all documents that carry one. -/
abbrev PrefetchMarks := KeyMap DocumentKey PrefetchMark

namespace PrefetchMarks

/-- Marks a document; a stalled slot arms a mark that is idle. -/
def arm (marks : PrefetchMarks) (key : DocumentKey) (frontier : Frontier) (now : Instant) :
    PrefetchMarks :=
  match marks.get? key with
  | some (.since _) => marks
  | _ => marks.insert key (if frontier.isStalled then .since now else .idle)

/-- Arms the mark of a document whose slot rose, if it carries one. -/
def slotRose (marks : PrefetchMarks) (key : DocumentKey) (now : Instant) : PrefetchMarks :=
  if marks.contains key then marks.insert key (.since now) else marks

/-- Whether a mark has been armed for so long. -/
def isOver (now : Instant) (delay : Nat) : PrefetchMark → Bool
  | .idle => false
  | .since start => start + delay ≤ now

/-- The marks after those that are over have gone off. -/
def settle (marks : PrefetchMarks) (now : Instant) (delay : Nat) : PrefetchMarks :=
  marks.mapValues fun mark => if isOver now delay mark then .idle else mark

/-- The slots whose content is due: the mark is over and the slot stalled. -/
def due (marks : PrefetchMarks) (frontiers : Frontiers) (now : Instant) (delay : Nat) :
    List EditionUri :=
  marks.entries.filterMap fun entry =>
    let frontier := frontiers.of entry.1
    if isOver now delay entry.2 && frontier.isStalled then
      frontier.slot.map fun slot => ⟨entry.1, slot⟩
    else none

end PrefetchMarks

end EditionWatch
