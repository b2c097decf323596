import EditionWatch.Records.DeliveryQueue
import EditionWatch.Records.LookupCache
import EditionWatch.Records.Prefetch
import EditionWatch.Records.Tally

/-!
# The records of a watch

Everything a watch knows: frontiers, subscribers, pollers, marks, waiting deliveries and the
tally. Each operation here is one undivided change of the records; what has to be done
outside of them because of it (starting a poller, cancelling one) is part of its result.
-/

namespace EditionWatch

/-- The records of a watch. -/
structure Records where
  /-- The newest editions known. -/
  frontiers : Frontiers
  /-- Who wants to hear of which document. -/
  registry : Registry
  /-- The background pollers. -/
  pool : PollerPool
  /-- The temporary pollers. -/
  cache : LookupCache
  /-- The prefetch marks. -/
  marks : PrefetchMarks
  /-- The deliveries that wait. -/
  queue : DeliveryQueue
  /-- The counters. -/
  tally : Tally
  /-- How many pollers have been made; the next one gets this number. -/
  pollersMade : Nat

namespace Records

/-- The records of a new watch. -/
def initial (capacity : Nat) : Records where
  frontiers := .empty
  registry := .empty
  pool := .empty
  cache := .ofCapacity capacity
  marks := .empty
  queue := .empty
  tally := {}
  pollersMade := 0

/-- What is known of a document. -/
def frontier (r : Records) (key : DocumentKey) : Frontier := r.frontiers.of key

/-- Puts deliveries into the queue. -/
def enqueue (r : Records) (deliveries : List Delivery) : Records :=
  { r with
    queue := r.queue.enqueue deliveries
    tally :=
      { r.tally with
        notificationsQueued := r.tally.notificationsQueued + deliveries.length } }

/-- The records once someone asked for a job that hands out deliveries. -/
def claimQueue (r : Records) : Records := { r with queue := r.queue.claim }

/-- The records once the job has found nothing to hand out. -/
def releaseQueue (r : Records) : Records := { r with queue := r.queue.release }

/-- The first delivery that waits, and the records without it. -/
def takeDelivery? (r : Records) : Option (Delivery × Records) :=
  r.queue.pop?.map fun taken => (taken.1, { r with queue := taken.2 })

/-- Tells all subscribers of a document of an edition. -/
def announce (r : Records) (found : Found) : Records :=
  let deliveries := r.registry.deliveriesToAll found
  { r with registry := r.registry.tellAll found }.enqueue deliveries

/-- Whether an edition would raise the slot. -/
def raisesSlot (r : Records) (uri : EditionUri) : Bool :=
  isAbove uri.edition (r.frontier uri.key).slot

/-- Whether an edition would raise the known good edition. -/
def raisesGood (r : Records) (uri : EditionUri) : Bool :=
  isAbove uri.edition (r.frontier uri.key).good

/-- The records after a slot rose: it is counted and arms the mark. -/
def slotRose (r : Records) (now : Instant) (key : DocumentKey) : Records :=
  { r with
    marks := r.marks.slotRose key now
    tally := { r.tally with slotUpdates := r.tally.slotUpdates + 1 } }

/-- Puts the frontier of a document into place. -/
def setFrontier (r : Records) (key : DocumentKey) (frontier : Frontier) : Records :=
  { r with frontiers := r.frontiers.insert key frontier }

/-- Counts a known good edition that rose. -/
def countGood (r : Records) : Records :=
  { r with tally := { r.tally with knownGoodUpdates := r.tally.knownGoodUpdates + 1 } }

/-- Records that an edition exists; this matters only if it is above the slot. -/
def noteSlot (r : Records) (now : Instant) (uri : EditionUri) : Records :=
  match (r.frontier uri.key).raiseSlot? uri.edition with
  | none => r
  | some frontier =>
    ((r.setFrontier uri.key frontier).slotRose now uri.key).announce
      ⟨uri.key, uri.edition, false, true⟩

/-- Records that the content of an edition was fetched; this matters only if it is above the
known good edition. -/
def noteGood (r : Records) (now : Instant) (uri : EditionUri) : Records :=
  match (r.frontier uri.key).raiseGood? uri.edition with
  | none => r
  | some rise =>
    let r := (r.setFrontier uri.key rise.frontier).countGood
    let r := if rise.slotRose then r.slotRose now uri.key else r
    r.announce ⟨uri.key, uri.edition, true, rise.slotRose⟩

/-- A frontier that is set is that of its document, and no other changes. -/
theorem frontier_setFrontier (r : Records) (key other : DocumentKey) (frontier : Frontier) :
    (r.setFrontier key frontier).frontier other =
      if key = other then frontier else r.frontier other :=
  Frontiers.of_insert r.frontiers key other frontier

/-- The news that a new subscriber of a document may have missed. -/
def standing (r : Records) (key : DocumentKey) : Option Found :=
  let frontier := r.frontier key
  frontier.slot.map fun slot => ⟨key, slot, frontier.good = some slot, true⟩

/-- Puts a callback among the subscribers of a document; one that is new there is counted. -/
def enrol (r : Records) (key : DocumentKey) (callback : CallbackId) (requested : Edition) :
    Records :=
  { r with
    registry := r.registry.add key callback requested
    tally :=
      { r.tally with
        subscriptions :=
          r.tally.subscriptions + if r.registry.has key callback then 0 else 1 } }

/-- Tells one callback of an edition. -/
def inform (r : Records) (callback : CallbackId) (found : Found) : Records :=
  let deliveries := r.registry.deliveriesToOne callback found
  { r with registry := r.registry.tellOne callback found }.enqueue deliveries

/-- Registers a callback and tells it of the slot. -/
def register (r : Records) (key : DocumentKey) (callback : CallbackId) (requested : Edition) :
    Records :=
  let r := r.enrol key callback requested
  match r.standing key with
  | none => r
  | some found => r.inform callback found

/-- How a document comes to be polled in the background for one more callback. -/
inductive Coverage where
  /-- Its background poller goes on. -/
  | joined
  /-- Its temporary poller is to poll for ever. -/
  | promoted (poller : PollerId)
  /-- A new poller is to be started. -/
  | started (poller : PollerId)
  deriving DecidableEq

/-- How a document would come to be polled in the background. -/
def coverage (r : Records) (key : DocumentKey) : Coverage :=
  match r.pool.poller? key with
  | some _ => .joined
  | none =>
    match r.cache.poller? key with
    | some poller => .promoted poller
    | none => .started r.pollersMade

/-- Counts one more document under background polling. -/
def countStart (r : Records) : Records :=
  { r with tally := { r.tally with backgroundStarted := r.tally.backgroundStarted + 1 } }

/-- Counts so many documents fewer under background polling. -/
def countStops (r : Records) (n : Nat) : Records :=
  { r with tally := { r.tally with backgroundStopped := r.tally.backgroundStopped + n } }

/-- Has a document polled in the background for a callback. -/
def cover (r : Records) (key : DocumentKey) (callback : CallbackId) : Records :=
  let r :=
    match r.coverage key with
    | .joined => r
    | .promoted poller =>
      { r with cache := r.cache.erase key, pool := r.pool.start key poller }.countStart
    | .started poller =>
      { r with
        pollersMade := r.pollersMade + 1
        pool := r.pool.start key poller }.countStart
  { r with pool := r.pool.join key callback }

/-- Removes a callback from a document, from its background polling too. -/
def unregister (r : Records) (key : DocumentKey) (callback : CallbackId) : Records :=
  let known := r.registry.has key callback
  let departure := r.pool.leave key callback
  let r :=
    { r with
      registry := r.registry.remove key callback
      pool := departure.pool
      tally :=
        { r.tally with
          unsubscriptions := r.tally.unsubscriptions + if known then 1 else 0 } }
  r.countStops departure.idle.toList.length

/-- The poller that is to be cancelled if a callback is removed from a document. -/
def idleWithout (r : Records) (key : DocumentKey) (callback : CallbackId) : Option PollerId :=
  (r.pool.leave key callback).idle

/-- How a lookup is served. -/
inductive Lookup where
  /-- By a poller that is there already. -/
  | hinted (poller : PollerId)
  /-- By a new poller, for which another one may have to go. -/
  | started (poller : PollerId) (evicted : Option PollerId)
  deriving DecidableEq

/-- How a lookup of a document would be served. -/
def lookup (r : Records) (key : DocumentKey) : Lookup :=
  match r.pool.poller? key with
  | some poller => .hinted poller
  | none =>
    match r.cache.poller? key with
    | some poller => .hinted poller
    | none =>
      .started r.pollersMade ((r.cache.insert key r.pollersMade).evicted.map Prod.snd)

/-- Makes a temporary poller for a document. -/
def makeTemporary (r : Records) (key : DocumentKey) : Records :=
  let insertion := r.cache.insert key r.pollersMade
  { r with
    pollersMade := r.pollersMade + 1
    cache := insertion.cache
    marks :=
      match insertion.evicted with
      | none => r.marks
      | some (old, _) => r.marks.erase old
    tally :=
      { r.tally with
        temporaryCreated := r.tally.temporaryCreated + 1
        temporaryEvicted :=
          r.tally.temporaryEvicted + insertion.evicted.toList.length } }

/-- The records after a document was looked up, with or without prefetching. -/
def resolve (r : Records) (now : Instant) (key : DocumentKey) (prefetch : Bool) : Records :=
  let r :=
    match r.pool.poller? key with
    | some _ => r
    | none =>
      match r.cache.poller? key with
      | some _ => { r with cache := r.cache.touch key }
      | none => r.makeTemporary key
  if prefetch then { r with marks := r.marks.arm key (r.frontier key) now } else r

/-- Tells all subscribers of a document that a polling round is over. -/
def finishRound (r : Records) (key : DocumentKey) : Records :=
  r.enqueue (r.registry.roundDeliveries key)

/-- Whether a poller is in the records of its document. -/
def indexes (r : Records) (key : DocumentKey) (poller : PollerId) : Bool :=
  r.pool.poller? key = some poller || r.cache.poller? key = some poller

/-- Takes a poller out of the records; one that was not cancelled should not be there. -/
def removePoller (r : Records) (key : DocumentKey) (poller : PollerId) (cancelled : Bool) :
    Records :=
  let violation (r : Records) : Records :=
    if cancelled then r
    else
      { r with tally := { r.tally with invariantViolations := r.tally.invariantViolations + 1 } }
  if r.pool.poller? key = some poller then
    violation ({ r with pool := r.pool.erase key }.countStops 1)
  else if r.cache.poller? key = some poller then
    violation { r with cache := r.cache.erase key }
  else r

/-- The slots whose content is due for a prefetch. -/
def dueForPrefetch (r : Records) (now : Instant) (delay : Nat) : List EditionUri :=
  r.marks.due r.frontiers now delay

/-- The records after a sweep over the prefetch marks. -/
def sweep (r : Records) (now : Instant) (delay : Nat) : Records :=
  { r with
    marks := r.marks.settle now delay
    tally :=
      { r.tally with
        prefetchFetches :=
          r.tally.prefetchFetches + (r.dueForPrefetch now delay).length } }

/-- All pollers in the records. -/
def pollers (r : Records) : List PollerId := r.pool.pollers ++ r.cache.pollers

/-- The records when nobody is left who could use a poller. -/
def forgetPollers (r : Records) : Records := { r with pool := .empty, cache := r.cache.clear }

/-- Takes all pollers out of the records. -/
def removePollers (r : Records) : Records :=
  r.forgetPollers.countStops r.pool.size

/-- Counts a probe that is begun. -/
def countProbe (r : Records) : Records :=
  { r with tally := { r.tally with probes := r.tally.probes + 1 } }

/-- Counts the outcome of a probe. -/
def countVerdict (r : Records) : Verdict → Records
  | .present => { r with tally := { r.tally with probesPresent := r.tally.probesPresent + 1 } }
  | .absent => { r with tally := { r.tally with probesAbsent := r.tally.probesAbsent + 1 } }
  | .indeterminate =>
    { r with tally := { r.tally with probesIndeterminate := r.tally.probesIndeterminate + 1 } }

/-- Counts a polling round that is over. -/
def countRound (r : Records) : Records :=
  { r with tally := { r.tally with pollRounds := r.tally.pollRounds + 1 } }

/-- Counts a prefetch that brought the content. -/
def countPrefetched (r : Records) : Records :=
  { r with tally := { r.tally with prefetchSuccess := r.tally.prefetchSuccess + 1 } }

/-- Counts a delivery that returned. -/
def countDelivered (r : Records) : Records :=
  { r with
    tally := { r.tally with notificationsDelivered := r.tally.notificationsDelivered + 1 } }

end Records

end EditionWatch
