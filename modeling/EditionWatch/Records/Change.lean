import EditionWatch.Records.Basic

/-!
# Histories of the records

The records are changed by many hands at once, but every change is undivided: it sees what
the changes before it left and is seen as a whole by those after it. A history is therefore a
list of changes in any order, whoever made them. What a change puts into the delivery queue
is read off the queue, which grows at its end.
-/

namespace EditionWatch.Records

/-- An undivided change of the records. -/
inductive Change where
  /-- A callback is registered for a document, with background polling or without. -/
  | subscribe (key : DocumentKey) (callback : CallbackId) (requested : Edition) (polls : Bool)
  /-- A callback is removed from a document. -/
  | unsubscribe (key : DocumentKey) (callback : CallbackId)
  /-- An edition exists. -/
  | noteSlot (now : Instant) (uri : EditionUri)
  /-- The content of an edition was fetched. -/
  | noteGood (now : Instant) (uri : EditionUri)
  /-- A document is looked up. -/
  | resolve (now : Instant) (key : DocumentKey) (prefetch : Bool)
  /-- A polling round is over. -/
  | finishRound (key : DocumentKey)
  /-- A poller takes itself out. -/
  | removePoller (key : DocumentKey) (poller : PollerId) (cancelled : Bool)
  /-- All pollers are taken out. -/
  | removePollers
  /-- All pollers are given up along with the watch. -/
  | forgetPollers
  /-- The prefetch marks are swept. -/
  | sweep (now : Instant) (delay : Nat)
  /-- A delivery job is asked for. -/
  | claimQueue
  /-- A delivery job takes out the first delivery. -/
  | takeDelivery
  /-- A delivery job has found nothing to hand out. -/
  | releaseQueue
  /-- A probe is counted. -/
  | countProbe
  /-- The outcome of a probe is counted. -/
  | countVerdict (verdict : Verdict)
  /-- A round is counted. -/
  | countRound
  /-- A prefetch is counted. -/
  | countPrefetched
  /-- A delivery is counted. -/
  | countDelivered
  deriving DecidableEq

/-- Whether a change is part of handing out deliveries. -/
def Change.handsOut : Change → Bool
  | .claimQueue => true
  | .takeDelivery => true
  | .releaseQueue => true
  | .countDelivered => true
  | _ => false

/-- Whether a change has nothing to do with pollers. -/
def Change.sparesPollers : Change → Bool
  | .subscribe _ _ _ polls => !polls
  | .unsubscribe _ _ => false
  | .resolve _ _ _ => false
  | .removePoller _ _ _ => false
  | .removePollers => false
  | .forgetPollers => false
  | _ => true

/-- The records after one change. -/
def apply (r : Records) : Change → Records
  | .subscribe key callback requested polls =>
    let r := r.register key callback requested
    if polls then r.cover key callback else r
  | .unsubscribe key callback => r.unregister key callback
  | .noteSlot now uri => r.noteSlot now uri
  | .noteGood now uri => r.noteGood now uri
  | .resolve now key prefetch => r.resolve now key prefetch
  | .finishRound key => r.finishRound key
  | .removePoller key poller cancelled => r.removePoller key poller cancelled
  | .removePollers => r.removePollers
  | .forgetPollers => r.forgetPollers
  | .sweep now delay => r.sweep now delay
  | .claimQueue => r.claimQueue
  | .takeDelivery => (r.takeDelivery?.map Prod.snd).getD r
  | .releaseQueue => r.releaseQueue
  | .countProbe => r.countProbe
  | .countVerdict verdict => r.countVerdict verdict
  | .countRound => r.countRound
  | .countPrefetched => r.countPrefetched
  | .countDelivered => r.countDelivered

/-- The records after a history. -/
def run (r : Records) (history : List Change) : Records := history.foldl apply r

@[simp] theorem run_nil (r : Records) : r.run [] = r := rfl

@[simp] theorem run_cons (r : Records) (change : Change) (rest : List Change) :
    r.run (change :: rest) = (r.apply change).run rest := rfl

/-- A longer history does what its parts do, one after the other. -/
theorem run_append (r : Records) (earlier later : List Change) :
    r.run (earlier ++ later) = (r.run earlier).run later :=
  List.foldl_append

/-- The deliveries that a change puts into the queue. -/
def enqueuedBy (r : Records) (change : Change) : List Delivery :=
  (r.apply change).queue.pending.drop r.queue.pending.length

/-- The deliveries that a history puts into the queue, in order. -/
def enqueuedIn (r : Records) : List Change → List Delivery
  | [] => []
  | change :: rest => r.enqueuedBy change ++ (r.apply change).enqueuedIn rest

/-- What a change enqueues is what stands in the queue behind the rest. -/
theorem enqueuedBy_of_append {r : Records} {change : Change} {deliveries : List Delivery}
    (h : (r.apply change).queue.pending = r.queue.pending ++ deliveries) :
    r.enqueuedBy change = deliveries := by
  rw [enqueuedBy, h, List.drop_left]

/-- Two records know the same of all documents, have the same subscribers, and the same
deliveries wait. -/
structure KeepsNews (r r' : Records) : Prop where
  frontiers : r'.frontiers = r.frontiers
  registry : r'.registry = r.registry
  queue : r'.queue = r.queue
  queued : r'.tally.notificationsQueued = r.tally.notificationsQueued
  delivered : r'.tally.notificationsDelivered = r.tally.notificationsDelivered

/-- To cover a document keeps the news. -/
theorem keepsNews_cover (r : Records) (key : DocumentKey) (callback : CallbackId) :
    KeepsNews r (r.cover key callback) := by
  unfold cover
  cases r.coverage key <;> exact ⟨rfl, rfl, rfl, rfl, rfl⟩

/-- To look up a document keeps the news. -/
theorem keepsNews_resolve (r : Records) (now : Instant) (key : DocumentKey) (prefetch : Bool) :
    KeepsNews r (r.apply (.resolve now key prefetch)) := by
  simp only [apply, resolve]
  cases r.pool.poller? key <;> cases r.cache.poller? key <;> cases prefetch <;>
    exact ⟨rfl, rfl, rfl, rfl, rfl⟩

/-- To take out a poller keeps the news. -/
theorem keepsNews_removePoller (r : Records) (key : DocumentKey) (poller : PollerId)
    (cancelled : Bool) : KeepsNews r (r.apply (.removePoller key poller cancelled)) := by
  simp only [apply, removePoller]
  split
  · cases cancelled <;> exact ⟨rfl, rfl, rfl, rfl, rfl⟩
  · split
    · cases cancelled <;> exact ⟨rfl, rfl, rfl, rfl, rfl⟩
    · exact ⟨rfl, rfl, rfl, rfl, rfl⟩

/-- Deliveries came to the end of the queue and were counted; nothing was handed out. -/
structure Enqueues (r r' : Records) (deliveries : List Delivery) : Prop where
  pending : r'.queue.pending = r.queue.pending ++ deliveries
  draining : r'.queue.draining = r.queue.draining
  queued :
    r'.tally.notificationsQueued = r.tally.notificationsQueued + deliveries.length
  delivered : r'.tally.notificationsDelivered = r.tally.notificationsDelivered

/-- Records with the same queue and the same counts have enqueued nothing. -/
theorem Enqueues.of_same {r r' : Records} (hq : r'.queue = r.queue)
    (hn : r'.tally.notificationsQueued = r.tally.notificationsQueued)
    (hd : r'.tally.notificationsDelivered = r.tally.notificationsDelivered) :
    Enqueues r r' [] where
  pending := by rw [hq, List.append_nil]
  draining := by rw [hq]
  queued := hn
  delivered := hd

/-- Whatever keeps the news may come after deliveries were enqueued. -/
theorem Enqueues.before {r r' r'' : Records} {deliveries : List Delivery}
    (h : Enqueues r r' deliveries) (hk : KeepsNews r' r'') : Enqueues r r'' deliveries where
  pending := by rw [hk.queue, h.pending]
  draining := by rw [hk.queue, h.draining]
  queued := hk.queued.trans h.queued
  delivered := hk.delivered.trans h.delivered

/-- Deliveries that come after some other change of the records. -/
theorem Enqueues.enqueue {r r' : Records} (h : Enqueues r r' []) (deliveries : List Delivery) :
    Enqueues r (r'.enqueue deliveries) deliveries where
  pending := by
    have hp : r'.queue.pending = r.queue.pending := h.pending.trans (List.append_nil _)
    exact congrArg (· ++ deliveries) hp
  draining := h.draining
  queued := congrArg (· + deliveries.length) h.queued
  delivered := h.delivered

/-- To announce an edition enqueues a delivery to all who want it. -/
theorem Enqueues.announce {r r' : Records} (h : Enqueues r r' []) (found : Found) :
    Enqueues r (r'.announce found) (r'.registry.deliveriesToAll found) := by
  have ht : Enqueues r { r' with registry := r'.registry.tellAll found } [] :=
    ⟨h.pending, h.draining, h.queued, h.delivered⟩
  exact ht.enqueue _

/-- To inform a callback enqueues a delivery to it, if it wants it. -/
theorem Enqueues.inform {r r' : Records} (h : Enqueues r r' []) (callback : CallbackId)
    (found : Found) :
    Enqueues r (r'.inform callback found) (r'.registry.deliveriesToOne callback found) := by
  have ht : Enqueues r { r' with registry := r'.registry.tellOne callback found } [] :=
    ⟨h.pending, h.draining, h.queued, h.delivered⟩
  exact ht.enqueue _

/-- A slot that is noted enqueues something, or nothing. -/
theorem enqueues_noteSlot (r : Records) (now : Instant) (uri : EditionUri) :
    ∃ deliveries, Enqueues r (r.noteSlot now uri) deliveries := by
  unfold noteSlot
  cases (r.frontier uri.key).raiseSlot? uri.edition with
  | none => exact ⟨[], .of_same rfl rfl rfl⟩
  | some frontier =>
    have h : Enqueues r ((r.setFrontier uri.key frontier).slotRose now uri.key) [] :=
      .of_same rfl rfl rfl
    exact ⟨_, h.announce _⟩

/-- A good edition that is noted enqueues something, or nothing. -/
theorem enqueues_noteGood (r : Records) (now : Instant) (uri : EditionUri) :
    ∃ deliveries, Enqueues r (r.noteGood now uri) deliveries := by
  unfold noteGood
  cases (r.frontier uri.key).raiseGood? uri.edition with
  | none => exact ⟨[], .of_same rfl rfl rfl⟩
  | some rise =>
    have h : Enqueues r (r.setFrontier uri.key rise.frontier).countGood [] :=
      .of_same rfl rfl rfl
    have hs : Enqueues r
        ((r.setFrontier uri.key rise.frontier).countGood.slotRose now uri.key) [] :=
      .of_same rfl rfl rfl
    dsimp only
    cases rise.slotRose with
    | false => exact ⟨_, h.announce _⟩
    | true => exact ⟨_, hs.announce _⟩

/-- A subscription enqueues something, or nothing. -/
theorem enqueues_subscribe (r : Records) (key : DocumentKey) (callback : CallbackId)
    (requested : Edition) (polls : Bool) :
    ∃ deliveries,
      Enqueues r (r.apply (.subscribe key callback requested polls)) deliveries := by
  have hr : ∃ deliveries, Enqueues r (r.register key callback requested) deliveries := by
    have he : Enqueues r (r.enrol key callback requested) [] := .of_same rfl rfl rfl
    unfold register
    dsimp only
    cases (r.enrol key callback requested).standing key with
    | none => exact ⟨[], he⟩
    | some found => exact ⟨_, he.inform _ _⟩
  cases polls with
  | false => exact hr
  | true =>
    obtain ⟨deliveries, h⟩ := hr
    exact ⟨deliveries, h.before (keepsNews_cover _ key callback)⟩

/-- A change that is not part of handing out deliveries only puts some into the queue. -/
theorem enqueues_apply (r : Records) (change : Change) (h : change.handsOut = false) :
    Enqueues r (r.apply change) (r.enqueuedBy change) := by
  have hex : ∃ deliveries, Enqueues r (r.apply change) deliveries := by
    cases change with
    | subscribe key callback requested polls =>
      exact enqueues_subscribe r key callback requested polls
    | noteSlot now uri => exact enqueues_noteSlot r now uri
    | noteGood now uri => exact enqueues_noteGood r now uri
    | finishRound key => exact ⟨_, (Enqueues.of_same rfl rfl rfl).enqueue _⟩
    | resolve now key prefetch =>
      exact ⟨[], (Enqueues.of_same rfl rfl rfl).before (keepsNews_resolve r now key prefetch)⟩
    | removePoller key poller cancelled =>
      exact ⟨[], (Enqueues.of_same rfl rfl rfl).before
        (keepsNews_removePoller r key poller cancelled)⟩
    | countVerdict verdict => cases verdict <;> exact ⟨[], .of_same rfl rfl rfl⟩
    | claimQueue => cases h
    | takeDelivery => cases h
    | releaseQueue => cases h
    | countDelivered => cases h
    | _ => exact ⟨[], .of_same rfl rfl rfl⟩
  obtain ⟨deliveries, he⟩ := hex
  rw [enqueuedBy_of_append he.pending]
  exact he

/-- Two records have the same pollers in the same places. -/
structure KeepsPollers (r r' : Records) : Prop where
  pool : r'.pool = r.pool
  cache : r'.cache = r.cache
  made : r'.pollersMade = r.pollersMade

/-- To register a callback keeps the pollers. -/
theorem keepsPollers_register (r : Records) (key : DocumentKey) (callback : CallbackId)
    (requested : Edition) : KeepsPollers r (r.register key callback requested) := by
  unfold register
  dsimp only
  cases (r.enrol key callback requested).standing key <;> exact ⟨rfl, rfl, rfl⟩

/-- To note a slot keeps the pollers. -/
theorem keepsPollers_noteSlot (r : Records) (now : Instant) (uri : EditionUri) :
    KeepsPollers r (r.noteSlot now uri) := by
  unfold noteSlot
  cases (r.frontier uri.key).raiseSlot? uri.edition <;> exact ⟨rfl, rfl, rfl⟩

theorem keepsPollers_noteGood (r : Records) (now : Instant) (uri : EditionUri) :
    KeepsPollers r (r.noteGood now uri) := by
  unfold noteGood
  cases (r.frontier uri.key).raiseGood? uri.edition with
  | none => exact ⟨rfl, rfl, rfl⟩
  | some rise =>
    dsimp only
    cases rise.slotRose <;> exact ⟨rfl, rfl, rfl⟩

/-- To take out a delivery keeps the pollers. -/
theorem keepsPollers_takeDelivery (r : Records) : KeepsPollers r (r.apply .takeDelivery) := by
  simp only [apply, takeDelivery?]
  cases r.queue.pop? <;> exact ⟨rfl, rfl, rfl⟩

/-- A change that has nothing to do with pollers leaves them where they are. -/
theorem keepsPollers_apply (r : Records) (change : Change) (h : change.sparesPollers = true) :
    KeepsPollers r (r.apply change) := by
  cases change with
  | subscribe key callback requested polls =>
    cases polls with
    | false => exact keepsPollers_register r key callback requested
    | true => cases h
  | noteSlot now uri => exact keepsPollers_noteSlot r now uri
  | noteGood now uri => exact keepsPollers_noteGood r now uri
  | takeDelivery => exact keepsPollers_takeDelivery r
  | countVerdict verdict => cases verdict <;> exact ⟨rfl, rfl, rfl⟩
  | unsubscribe key callback => cases h
  | resolve now key prefetch => cases h
  | removePoller key poller cancelled => cases h
  | removePollers => cases h
  | forgetPollers => cases h
  | _ => exact ⟨rfl, rfl, rfl⟩

/-- Where the poller of a document is to be found after a background subscription: it is the
one that was there, or a new one. -/
theorem pollers_subscribe (r : Records) (key : DocumentKey) (callback : CallbackId)
    (requested : Edition) :
    let r' := r.apply (.subscribe key callback requested true)
    (∀ other, r'.pool.poller? other =
      if key = other then
        some ((r.pool.poller? key).getD ((r.cache.poller? key).getD r.pollersMade))
      else r.pool.poller? other) ∧
    (∀ other, r'.cache.poller? other =
      if key = other ∧ r.pool.poller? key = none then none else r.cache.poller? other) ∧
    r'.pollersMade =
      r.pollersMade +
        if r.pool.poller? key = none ∧ r.cache.poller? key = none then 1 else 0 := by
  obtain ⟨hp, hc, hm⟩ := keepsPollers_register r key callback requested
  simp only [apply, if_true, cover, coverage, hp, hc, hm]
  cases h : r.pool.poller? key with
  | some poller =>
    refine ⟨fun other => ?_, fun other => ?_, ?_⟩
    · rw [PollerPool.poller?_join, hp]
      split
      case isTrue hk => rw [← hk, h]; rfl
      case isFalse => rfl
    · simp [hc]
    · simp [hm]
  | none =>
    cases hk : r.cache.poller? key with
    | some poller =>
      refine ⟨fun other => ?_, fun other => ?_, ?_⟩
      · exact (PollerPool.poller?_join _ _ _ _).trans (PollerPool.poller?_start _ _ _ _)
      · simp [countStart, LookupCache.poller?_erase]
      · simp [countStart]
    | none =>
      refine ⟨fun other => ?_, fun other => ?_, ?_⟩
      · exact (PollerPool.poller?_join _ _ _ _).trans (PollerPool.poller?_start _ _ _ _)
      · simp only [countStart, and_true]
        split
        case isTrue he => rw [← he, hk]
        case isFalse => rfl
      · simp [countStart]

/-- A lookup of a document that has a poller leaves all pollers where they are. -/
theorem pollers_resolve_of_hinted {r : Records} (now : Instant) {key : DocumentKey}
    (prefetch : Bool) {poller : PollerId} (h : r.lookup key = .hinted poller) :
    let r' := r.apply (.resolve now key prefetch)
    r'.pool = r.pool ∧ (∀ other, r'.cache.poller? other = r.cache.poller? other) ∧
      r'.pollersMade = r.pollersMade := by
  simp only [apply, resolve]
  unfold lookup at h
  cases hp : r.pool.poller? key with
  | some _ => cases prefetch <;> exact ⟨rfl, fun _ => rfl, rfl⟩
  | none =>
    rw [hp] at h
    cases hc : r.cache.poller? key with
    | some _ =>
      cases prefetch <;> exact ⟨rfl, fun other => LookupCache.poller?_touch _ key other, rfl⟩
    | none => rw [hc] at h; cases h

/-- A lookup of a document without a poller puts a new one into the cache. -/
theorem pollers_resolve_of_started {r : Records} (now : Instant) {key : DocumentKey}
    (prefetch : Bool) (hp : r.pool.poller? key = none) (hc : r.cache.poller? key = none) :
    let r' := r.apply (.resolve now key prefetch)
    r'.pool = r.pool ∧ r'.cache = (r.cache.insert key r.pollersMade).cache ∧
      r'.pollersMade = r.pollersMade + 1 := by
  simp only [apply, resolve, hp, hc]
  cases prefetch <;> exact ⟨rfl, rfl, rfl⟩

/-- What a poller that takes itself out leaves behind. -/
theorem pollers_removePoller (r : Records) (key : DocumentKey) (poller : PollerId)
    (cancelled : Bool) :
    let r' := r.apply (.removePoller key poller cancelled)
    (∀ other, r'.pool.poller? other =
      if key = other ∧ r.pool.poller? key = some poller then none
      else r.pool.poller? other) ∧
    (∀ other, r'.cache.poller? other =
      if key = other ∧ r.pool.poller? key ≠ some poller ∧ r.cache.poller? key = some poller then
        none
      else r.cache.poller? other) ∧
    r'.pollersMade = r.pollersMade := by
  simp only [apply, removePoller]
  by_cases hp : r.pool.poller? key = some poller
  · simp only [hp, if_true, and_true, ne_eq, not_true, false_and, and_false, if_false]
    cases cancelled <;>
      exact ⟨fun other => PollerPool.poller?_erase r.pool key other, fun _ => rfl, rfl⟩
  · by_cases hc : r.cache.poller? key = some poller
    · simp only [hp, hc, if_true, if_false, and_true, ne_eq, not_false_eq_true, and_false]
      cases cancelled <;>
        exact ⟨fun _ => rfl, fun other => LookupCache.poller?_erase r.cache key other, rfl⟩
    · simp [hp, hc]

/-- What a callback that is removed leaves behind. -/
theorem pollers_unsubscribe (r : Records) (key : DocumentKey) (callback : CallbackId) :
    let r' := r.apply (.unsubscribe key callback)
    (∀ other, r'.pool.poller? other =
      if key = other ∧ (r.idleWithout key callback).isSome then none
      else r.pool.poller? other) ∧
    r'.cache = r.cache ∧ r'.pollersMade = r.pollersMade :=
  ⟨fun other => PollerPool.poller?_leave r.pool key other callback, rfl, rfl⟩

/-- The poller of a document that is not in the records cannot be taken out. -/
theorem removePoller_of_not_indexes {r : Records} {key : DocumentKey} {poller : PollerId}
    (h : r.indexes key poller = false) (cancelled : Bool) :
    r.apply (.removePoller key poller cancelled) = r := by
  rw [indexes, Bool.or_eq_false_iff, decide_eq_false_iff_not, decide_eq_false_iff_not] at h
  simp only [apply, removePoller, if_neg h.1, if_neg h.2]

/-! ## Who is polled for -/

/-- Who subscribes with polling is among the subscribers of the document. -/
theorem subscribers_subscribe (r : Records) (key other : DocumentKey) (callback : CallbackId)
    (requested : Edition) :
    (r.apply (.subscribe key callback requested true)).pool.subscribers other =
      if key = other ∧ callback ∉ r.pool.subscribers other then
        r.pool.subscribers other ++ [callback]
      else r.pool.subscribers other := by
  obtain ⟨hp, hc, -⟩ := keepsPollers_register r key callback requested
  have hstart (poller : PollerId) (hnone : r.pool.poller? key = none) :
      ((r.pool.start key poller).join key callback).subscribers other =
        if key = other ∧ callback ∉ r.pool.subscribers other then
          r.pool.subscribers other ++ [callback]
        else r.pool.subscribers other := by
    have hstarted : (r.pool.start key poller).poller? key ≠ none := by
      rw [PollerPool.poller?_start, if_pos rfl]
      exact Option.some_ne_none poller
    have hnobody : r.pool.subscribers key = [] := PollerPool.subscribers_of_poller? hnone
    rw [PollerPool.subscribers_join hstarted, PollerPool.subscribers_start]
    by_cases hk : key = other
    · subst hk
      rw [if_pos rfl, hnobody]
    · simp [hk]
  simp only [apply, if_true, cover, coverage, hp, hc]
  cases h : r.pool.poller? key with
  | some poller =>
    have hsome : r.pool.poller? key ≠ none := by
      rw [h]
      exact Option.some_ne_none poller
    dsimp only
    rw [hp]
    exact PollerPool.subscribers_join hsome other callback
  | none =>
    cases r.cache.poller? key with
    | some poller => exact hstart poller h
    | none => exact hstart _ h

/-- Who unsubscribes is not among the subscribers of the document any more. -/
theorem subscribers_unsubscribe (r : Records) (key other : DocumentKey) (callback : CallbackId) :
    (r.apply (.unsubscribe key callback)).pool.subscribers other =
      if key = other then (r.pool.subscribers other).filter (· ≠ callback)
      else r.pool.subscribers other :=
  PollerPool.subscribers_leave r.pool key other callback

/-- A lookup leaves the background pollers as they are. -/
theorem pool_resolve (r : Records) (now : Instant) (key : DocumentKey) (prefetch : Bool) :
    (r.apply (.resolve now key prefetch)).pool = r.pool := by
  simp only [apply, resolve]
  cases r.pool.poller? key <;> cases r.cache.poller? key <;> cases prefetch <;> rfl

/-- A poller that takes itself out leaves the pool, or leaves it as it is. -/
theorem pool_removePoller (r : Records) (key : DocumentKey) (poller : PollerId)
    (cancelled : Bool) :
    (r.apply (.removePoller key poller cancelled)).pool = r.pool ∨
      (r.apply (.removePoller key poller cancelled)).pool = r.pool.erase key := by
  simp only [apply, removePoller]
  split
  · cases cancelled <;> exact .inr rfl
  · split
    · cases cancelled <;> exact .inl rfl
    · exact .inl rfl

/-- Who was registered is, and so are those who were before. -/
theorem has_register (r : Records) (key other : DocumentKey) (registered callback : CallbackId)
    (requested : Edition) :
    (r.register key registered requested).registry.has other callback =
      (decide (key = other ∧ registered = callback) || r.registry.has other callback) := by
  have he := Registry.has_add r.registry key other callback registered requested
  unfold register
  dsimp only
  cases (r.enrol key registered requested).standing key with
  | none => exact he
  | some found => exact (Registry.has_tellOne _ registered found other callback).trans he

/-- A subscription registers its callback, whether it polls or not. -/
theorem registry_subscribe (r : Records) (key : DocumentKey) (callback : CallbackId)
    (requested : Edition) (polls : Bool) :
    (r.apply (.subscribe key callback requested polls)).registry =
      (r.register key callback requested).registry := by
  cases polls with
  | false => rfl
  | true => exact (keepsNews_cover _ key callback).registry

/-- A registered callback stays registered until it is removed. -/
theorem has_apply {r : Records} {change : Change} {key : DocumentKey} {callback : CallbackId}
    (h : r.registry.has key callback = true) (hstay : change ≠ .unsubscribe key callback) :
    (r.apply change).registry.has key callback = true := by
  cases change with
  | subscribe key' registered requested polls =>
    rw [registry_subscribe, has_register, h, Bool.or_true]
  | unsubscribe key' removed =>
    have hne : ¬(key' = key ∧ removed = callback) := fun he => hstay (by rw [he.1, he.2])
    refine (Registry.has_remove r.registry key' key callback removed).trans ?_
    rw [h, decide_eq_false hne]
    rfl
  | noteSlot now uri =>
    simp only [apply, noteSlot]
    cases (r.frontier uri.key).raiseSlot? uri.edition with
    | none => exact h
    | some frontier => exact (Registry.has_tellAll _ _ key callback).trans h
  | noteGood now uri =>
    simp only [apply, noteGood]
    cases (r.frontier uri.key).raiseGood? uri.edition with
    | none => exact h
    | some rise =>
      dsimp only
      cases rise.slotRose <;> exact (Registry.has_tellAll _ _ key callback).trans h
  | resolve now key' prefetch =>
    rw [(keepsNews_resolve r now key' prefetch).registry]
    exact h
  | removePoller key' poller cancelled =>
    rw [(keepsNews_removePoller r key' poller cancelled).registry]
    exact h
  | takeDelivery =>
    simp only [apply, takeDelivery?]
    cases r.queue.pop? <;> exact h
  | countVerdict verdict => cases verdict <;> exact h
  | _ => exact h

end EditionWatch.Records
