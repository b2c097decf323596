/-!
# The tally

Counters of what a watch has done, each under the name by which it is published.
-/

namespace EditionWatch

/-- The counters of a watch. -/
structure Tally where
  /-- Times a slot rose. -/
  slotUpdates : Nat := 0
  /-- Times a known good edition rose. -/
  knownGoodUpdates : Nat := 0
  /-- Deliveries put into the queue. -/
  notificationsQueued : Nat := 0
  /-- Deliveries that reached their callback and returned. -/
  notificationsDelivered : Nat := 0
  /-- Subscribers registered. -/
  subscriptions : Nat := 0
  /-- Subscribers removed. -/
  unsubscriptions : Nat := 0
  /-- Documents that came under background polling. -/
  backgroundStarted : Nat := 0
  /-- Documents that ceased to be under background polling. -/
  backgroundStopped : Nat := 0
  /-- Temporary pollers made. -/
  temporaryCreated : Nat := 0
  /-- Temporary pollers pushed out of the cache. -/
  temporaryEvicted : Nat := 0
  /-- Blocks asked for. -/
  probes : Nat := 0
  /-- Probes that found their edition. -/
  probesPresent : Nat := 0
  /-- Probes whose edition does not exist. -/
  probesAbsent : Nat := 0
  /-- Probes that showed nothing. -/
  probesIndeterminate : Nat := 0
  /-- Polling rounds brought to their end. -/
  pollRounds : Nat := 0
  /-- Prefetches begun. -/
  prefetchFetches : Nat := 0
  /-- Prefetches that brought the content. -/
  prefetchSuccess : Nat := 0
  /-- Pollers that ended while still in use. -/
  invariantViolations : Nat := 0
  deriving DecidableEq

/-- The counters with their published names. -/
def Tally.named (t : Tally) : List (String × Nat) :=
  [("slot_updates", t.slotUpdates), ("known_good_updates", t.knownGoodUpdates),
   ("notifications_queued", t.notificationsQueued),
   ("notifications_delivered", t.notificationsDelivered),
   ("subscriptions", t.subscriptions), ("unsubscriptions", t.unsubscriptions),
   ("background_fetchers_started", t.backgroundStarted),
   ("background_fetchers_stopped", t.backgroundStopped),
   ("temporary_fetchers_created", t.temporaryCreated),
   ("temporary_fetchers_evicted", t.temporaryEvicted),
   ("probes", t.probes), ("probes_exists", t.probesPresent),
   ("probes_absent", t.probesAbsent), ("probes_indeterminate", t.probesIndeterminate),
   ("poll_rounds", t.pollRounds), ("prefetch_fetches", t.prefetchFetches),
   ("prefetch_success", t.prefetchSuccess), ("invariant_violations", t.invariantViolations)]

/-- The counters that rose since an earlier tally, with the amount. -/
def Tally.since (now earlier : Tally) : List (String × Nat) :=
  (List.zipWith (fun a b => (a.1, a.2 - b.2)) now.named earlier.named).filter fun entry =>
    entry.2 ≠ 0

end EditionWatch
