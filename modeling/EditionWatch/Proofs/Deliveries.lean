import EditionWatch.Proofs.Moves
import EditionWatch.Proofs.News

/-!
# Deliveries from their arrival to the call

Deliveries come to the end of the queue in whatever is done to a watch, and are handed out from
its front. What matters for this is little: who is registered, which rounds are over, which
delivery is taken out, and what its callback makes of it. Everything else that happens to a
watch is quiet, and there is one lemma for each of its functions that says so.
-/

namespace EditionWatch

/-- The callback of a delivery. -/
def Delivery.callback : Delivery → CallbackId
  | .found callback _ => callback
  | .round callback _ => callback

/-- What the callback of a delivery is told. -/
def Delivery.signal : Delivery → Signal
  | .found _ news => .found news
  | .round _ key => .round key

/-- The document of a delivery. -/
def Delivery.key : Delivery → DocumentKey
  | .found _ news => news.key
  | .round _ key => key

/-- The callback after it was told something. -/
def Callback.tell (callback : Callback) (signal : Signal) : Callback :=
  { callback with gate := callback.gate.map fun gate => (gate.feed signal).gate }

/-- What the target of a callback is told when the callback is told something. -/
def Callback.through (callback : Callback) (signal : Signal) : List Signal :=
  match callback.gate with
  | none => [signal]
  | some gate => (gate.feed signal).through

/-- What a listener is told in an event. -/
def Event.told? : Event → Option (String × Signal)
  | .found listener news => some (listener, .found news)
  | .round listener key => some (listener, .round key)
  | _ => none

/-- What the listeners are told that a target stands for, if it is told several things. -/
def Target.tells : Target → List Signal → List (String × Signal)
  | .listener name, signals => signals.map (name, ·)
  | .feed _, _ => []

namespace Watch

variable {u v w : Watch}

/-! ## What is handed out, and what arrives -/

/-- What listeners have been told, as far as can be seen. -/
def told (w : Watch) : List (String × Signal) := w.journal.toList.filterMap Event.told?

/-- The deliveries that wait. -/
def pending (w : Watch) : List Delivery := w.records.queue.pending

/-- The calls that a target really gets when it is to be told one thing after the other: all up
to the first that fails. -/
def callsTo (w : Watch) (target : Target) : List Signal → List Signal
  | [] => []
  | signal :: rest =>
    let call := w.callTarget target signal
    signal :: if call.returned then call.watch.callsTo target rest else []

/-- The watch once the callback of a delivery has been told, before its target is. -/
def tell (w : Watch) (d : Delivery) : Watch :=
  { w with callbacks := w.callbacks.modify d.callback (·.tell d.signal) }

/-- The calls that the target of a callback gets when a delivery is made. -/
def callsOf (w : Watch) (d : Delivery) : List Signal :=
  match w.callbacks[d.callback]? with
  | none => []
  | some callback => (w.tell d).callsTo callback.target (callback.through d.signal)

/-- A delivery that was handed out. -/
structure HandOut where
  /-- The delivery. -/
  delivery : Delivery
  /-- The target of its callback. -/
  target : Option Target
  /-- The calls that the target got. -/
  calls : List Signal
  /-- Whether all of them returned. -/
  returned : Bool

/-- A delivery with what comes of making it. -/
def handOut (w : Watch) (d : Delivery) : HandOut :=
  ⟨d, (w.callbacks[d.callback]?).map Callback.target, w.callsOf d, (w.deliver d).returned⟩

/-- The delivery that an action hands out. -/
def handOut? (w : Watch) : Action → Option HandOut
  | .work .delivery =>
    if 0 < w.deliveryJobs then w.takeDelivery?.map fun taken => taken.2.handOut taken.1 else none
  | _ => none

/-- What a listener is told when a delivery is handed out. -/
def HandOut.told (h : HandOut) : List (String × Signal) :=
  match h.target with
  | none => []
  | some target => target.tells h.calls

/-- The deliveries that actions hand out, in order. -/
def handOuts (w : Watch) : List Action → List HandOut
  | [] => []
  | action :: rest => (w.handOut? action).toList ++ (w.act action).handOuts rest

/-- A delivery that came to the end of the queue. -/
structure Arrival where
  /-- The delivery. -/
  delivery : Delivery
  /-- The slot that its document had before. -/
  slot : Option Edition
  deriving DecidableEq

/-- Deliveries with the slots that their documents have. -/
def arriving (w : Watch) (ds : List Delivery) : List Arrival :=
  ds.map fun d => ⟨d, (w.records.frontier d.key).slot⟩

/-- The deliveries that come to the end of the queue in an action: what waits afterwards beyond
those that are left of the ones that waited before. -/
def arrivalsBy (w : Watch) (action : Action) : List Arrival :=
  let left := w.pending.length - (w.handOut? action).toList.length
  w.arriving ((w.act action).pending.drop left)

/-- The deliveries that come to the end of the queue in several actions, in order. -/
def arrivals (w : Watch) : List Action → List Arrival
  | [] => []
  | action :: rest => w.arrivalsBy action ++ (w.act action).arrivals rest

end Watch

/-! ## Quiet changes of the records -/

namespace Records

/-- Whether a change leaves callbacks alone, apart from telling them of an edition: it registers
nobody, ends no round and takes out no delivery. -/
def Change.isPlain : Change → Bool
  | .subscribe _ _ _ _ => false
  | .finishRound _ => false
  | .takeDelivery => false
  | _ => true

/-- Deliveries leave the queue only when one is taken out. -/
theorem pending_apply (r : Records) {change : Change} (h : change ≠ .takeDelivery) :
    (r.apply change).queue.pending = r.queue.pending ++ r.enqueuedBy change := by
  have hsame (hp : (r.apply change).queue.pending = r.queue.pending) :
      (r.apply change).queue.pending = r.queue.pending ++ r.enqueuedBy change := by
    have hn : r.enqueuedBy change = [] := enqueuedBy_of_append (by rw [hp, List.append_nil])
    rw [hn, List.append_nil, hp]
  cases hh : change.handsOut with
  | false => exact (enqueues_apply r change hh).pending
  | true =>
    cases change with
    | takeDelivery => exact absurd rfl h
    | claimQueue => exact hsame rfl
    | releaseQueue => exact hsame rfl
    | countDelivered => exact hsame rfl
    | _ => cases hh

/-- Plain changes only add deliveries, and each those that it enqueues. -/
theorem pending_run (r : Records) {changes : List Change}
    (h : ∀ change ∈ changes, change.isPlain = true) :
    (r.run changes).queue.pending = r.queue.pending ++ r.enqueuedIn changes := by
  induction changes generalizing r with
  | nil => exact (List.append_nil _).symm
  | cons change rest ih =>
    have hne : change ≠ .takeDelivery := by
      intro he
      have hplain := h change List.mem_cons_self
      rw [he] at hplain
      cases hplain
    rw [run_cons, ih _ fun c hc => h c (List.mem_cons_of_mem _ hc), pending_apply r hne,
      List.append_assoc]
    rfl

/-- A plain change announces an edition, or removes a callback, or leaves subscribers and queue
as they are. -/
theorem plain_cases {r : Records} (h : Attuned r) {change : Change}
    (plain : change.isPlain = true) :
    (∃ found, Announces r (r.apply change) found) ∨
      (∃ key callback, change = .unsubscribe key callback) ∨
      (Agrees r (r.apply change) ∧ r.enqueuedBy change = []) := by
  have hsame (hf : (r.apply change).frontiers = r.frontiers)
      (hr : (r.apply change).registry = r.registry)
      (hq : (r.apply change).queue.pending = r.queue.pending) :
      Agrees r (r.apply change) ∧ r.enqueuedBy change = [] :=
    ⟨⟨fun key => congrArg (·.of key) hf, hr⟩,
      enqueuedBy_of_append (by rw [hq, List.append_nil])⟩
  have hkeeps (hk : KeepsNews r (r.apply change)) :
      Agrees r (r.apply change) ∧ r.enqueuedBy change = [] :=
    hsame hk.frontiers hk.registry (congrArg (·.pending) hk.queue)
  have hnoted (hn : r.apply change = r ∨ ∃ found, Announces r (r.apply change) found) :
      (∃ found, Announces r (r.apply change) found) ∨
        (∃ key callback, change = .unsubscribe key callback) ∨
        (Agrees r (r.apply change) ∧ r.enqueuedBy change = []) := by
    rcases hn with hn | hn
    · exact .inr (.inr (hsame (congrArg frontiers hn) (congrArg registry hn)
        (congrArg (·.queue.pending) hn)))
    · exact .inl hn
  cases change with
  | subscribe key callback requested polls => cases plain
  | finishRound key => cases plain
  | takeDelivery => cases plain
  | unsubscribe key callback => exact .inr (.inl ⟨key, callback, rfl⟩)
  | noteSlot now uri => exact hnoted (noteSlot_cases h now uri)
  | noteGood now uri => exact hnoted (noteGood_cases r now uri)
  | resolve now key prefetch => exact .inr (.inr (hkeeps (keepsNews_resolve r now key prefetch)))
  | removePoller key poller cancelled =>
    exact .inr (.inr (hkeeps (keepsNews_removePoller r key poller cancelled)))
  | countVerdict verdict => cases verdict <;> exact .inr (.inr (hsame rfl rfl rfl))
  | _ => exact .inr (.inr (hsame rfl rfl rfl))

/-- A subscriber is told of an edition through its own callback. -/
theorem eq_of_mem_deliveries {s : Subscriber} {found : Found} {d : Delivery}
    (hd : d ∈ s.deliveries found) : d = .found s.callback found := by
  unfold Subscriber.deliveries at hd
  split at hd
  · exact List.mem_singleton.mp hd
  · cases hd

/-- A plain change tells only subscribers, of editions of their documents. -/
theorem subscriber_of_mem_enqueuedBy {r : Records} (h : Attuned r) {change : Change}
    (plain : change.isPlain = true) {d : Delivery} (hd : d ∈ r.enqueuedBy change) :
    ∃ found : Found, ∃ s ∈ r.registry.of found.key, d = .found s.callback found := by
  rcases plain_cases h plain with ⟨found, ha⟩ | ⟨key, callback, rfl⟩ | ⟨-, hn⟩
  · rw [enqueuedBy_of_append ha.pending] at hd
    obtain ⟨s, hs, hd⟩ := List.mem_flatMap.mp hd
    exact ⟨found, s, hs, eq_of_mem_deliveries hd⟩
  · rw [enqueuedBy_of_append (List.append_nil _).symm] at hd
    cases hd
  · rw [hn] at hd
    cases hd

/-- Plain changes tell nobody of the end of a round. -/
theorem found_of_mem_enqueuedIn {r : Records} (h : Attuned r) {changes : List Change}
    (plain : ∀ change ∈ changes, change.isPlain = true) {d : Delivery}
    (hd : d ∈ r.enqueuedIn changes) : ∃ callback found, d = .found callback found := by
  induction changes generalizing r with
  | nil => cases hd
  | cons change rest ih =>
    rcases List.mem_append.mp hd with hd | hd
    · obtain ⟨found, s, -, he⟩ := subscriber_of_mem_enqueuedBy h (plain _ List.mem_cons_self) hd
      exact ⟨s.callback, found, he⟩
    · exact ih (attuned_apply h change) (fun c hc => plain c (List.mem_cons_of_mem _ hc)) hd

/-- A plain change makes no subscribers. -/
theorem subscriber_of_mem_apply {r : Records} (h : Attuned r) {change : Change}
    (plain : change.isPlain = true) {key : DocumentKey} {t : Subscriber}
    (ht : t ∈ (r.apply change).registry.of key) :
    ∃ s ∈ r.registry.of key, s.callback = t.callback ∧ s.requested = t.requested := by
  rcases plain_cases h plain with ⟨found, ha⟩ | ⟨removed, callback, rfl⟩ | ⟨ha, -⟩
  · rw [ha.registry, Registry.of_tellAll] at ht
    split at ht
    case isTrue hk =>
      obtain ⟨s, hs, rfl⟩ := List.mem_map.mp ht
      exact ⟨s, hk ▸ hs, (s.callback_tell found).symm, (s.requested_tell found).symm⟩
    case isFalse => exact ⟨t, ht, rfl, rfl⟩
  · change t ∈ (r.registry.remove removed callback).of key at ht
    rw [Registry.of_remove] at ht
    split at ht
    case isTrue hk => exact ⟨t, hk ▸ (List.mem_filter.mp ht).1, rfl, rfl⟩
    case isFalse => exact ⟨t, ht, rfl, rfl⟩
  · exact ⟨t, ha.registry ▸ ht, rfl, rfl⟩

/-- A subscription tells the callback that is registered of its document, if anyone of anything. -/
theorem callback_of_mem_enqueuedBy_subscribe {r : Records} {key : DocumentKey}
    {callback : CallbackId} {requested : Edition} {polls : Bool} {d : Delivery}
    (hd : d ∈ r.enqueuedBy (.subscribe key callback requested polls)) :
    ∃ found : Found, found.key = key ∧ d = .found callback found := by
  rw [enqueuedBy_subscribe] at hd
  split at hd
  · cases hd
  case h_2 found hstanding =>
    obtain ⟨s, -, hd⟩ := List.mem_flatMap.mp hd
    split at hd
    case isTrue hc => exact ⟨found, (tells_standing hstanding).1, hc ▸ eq_of_mem_deliveries hd⟩
    case isFalse => cases hd

/-- Neither a subscription nor plain changes after it tell anybody of the end of a round. -/
theorem found_of_mem_subscribe {r : Records} (h : Attuned r) {key : DocumentKey}
    {callback : CallbackId} {requested : Edition} {polls : Bool} {changes : List Change}
    (plain : ∀ change ∈ changes, change.isPlain = true) {d : Delivery}
    (hd : d ∈ r.enqueuedBy (.subscribe key callback requested polls) ++
      (r.apply (.subscribe key callback requested polls)).enqueuedIn changes) :
    ∃ told found, d = .found told found := by
  rcases List.mem_append.mp hd with hd | hd
  · obtain ⟨found, -, he⟩ := callback_of_mem_enqueuedBy_subscribe hd
    exact ⟨callback, found, he⟩
  · exact found_of_mem_enqueuedIn (attuned_apply h _) plain hd

/-- A subscription makes no subscriber but the callback that is registered. -/
theorem subscriber_of_mem_subscribe {r : Records} {key other : DocumentKey}
    {callback : CallbackId} {requested : Edition} {polls : Bool} {t : Subscriber}
    (ht : t ∈ (r.apply (.subscribe key callback requested polls)).registry.of other) :
    (∃ s ∈ r.registry.of other, s.callback = t.callback ∧ s.requested = t.requested) ∨
      (other = key ∧ r.registry.has key callback = false ∧ t.callback = callback ∧
        t.requested = requested) := by
  have henrol {s : Subscriber} (hs : s ∈ (r.enrol key callback requested).registry.of other)
      (hc : s.callback = t.callback) (hr : s.requested = t.requested) :
      (∃ s ∈ r.registry.of other, s.callback = t.callback ∧ s.requested = t.requested) ∨
        (other = key ∧ r.registry.has key callback = false ∧ t.callback = callback ∧
          t.requested = requested) := by
    rcases mem_enrol hs with hs | ⟨hk, hnew, rfl⟩
    · exact .inl ⟨s, hs, hc, hr⟩
    · exact .inr ⟨hk, hnew, hc.symm, hr.symm⟩
  rw [registry_subscribe] at ht
  obtain ⟨-, he⟩ | ⟨found, -, he⟩ := register_cases r key callback requested
  · rw [he] at ht
    exact henrol ht rfl rfl
  · rw [he] at ht
    change t ∈ ((r.enrol key callback requested).registry.tellOne callback found).of other at ht
    rw [Registry.of_tellOne] at ht
    split at ht
    case isTrue hk =>
      obtain ⟨s, hs, rfl⟩ := List.mem_map.mp ht
      refine henrol (hk ▸ hs) ?_ ?_ <;> split <;> simp
    case isFalse => exact henrol ht rfl rfl

end Records

namespace Watch

variable {u v w : Watch}

/-- What is logged is told only if the event is a call of a listener. -/
theorem told_log (w : Watch) (event : Event) :
    (w.log event).told = w.told ++ event.told?.toList := by
  rw [told, log, Array.toList_push, List.filterMap_append, told]
  cases h : event.told? <;> simp [h]

/-- One watch comes to be another by plain changes of the records, while its callbacks stay as
they are and some listeners are told something. -/
structure Tells (w : Watch) (calls : List (String × Signal)) (v : Watch) : Prop where
  callbacks : v.callbacks = w.callbacks
  records : ∃ changes, v.records = w.records.run changes ∧
    ∀ change ∈ changes, change.isPlain = true
  told : v.told = w.told ++ calls

/-- What is told in two steps is told in their order. -/
theorem Tells.trans {calls later : List (String × Signal)} (h : Tells w calls v)
    (h' : Tells v later u) : Tells w (calls ++ later) u := by
  obtain ⟨hcallbacks, ⟨changes, hrecords, hplain⟩, htold⟩ := h
  obtain ⟨hcallbacks', ⟨changes', hrecords', hplain'⟩, htold'⟩ := h'
  refine ⟨hcallbacks'.trans hcallbacks, ⟨changes ++ changes', ?_, fun change hm => ?_⟩, ?_⟩
  · rw [hrecords', hrecords, Records.run_append]
  · exact (List.mem_append.mp hm).elim (hplain change) (hplain' change)
  · rw [htold', htold, List.append_assoc]

/-- One watch comes to be another by plain changes of the records, while its callbacks stay as
they are and nobody is told anything. -/
abbrev Quiet (w v : Watch) : Prop := Tells w [] v

namespace Quiet

theorem same (callbacks : v.callbacks = w.callbacks) (records : v.records = w.records)
    (told : v.told = w.told) : Quiet w v where
  callbacks := callbacks
  records := ⟨[], records, fun _ h => by cases h⟩
  told := told.trans (List.append_nil _).symm

theorem refl (w : Watch) : Quiet w w := same rfl rfl rfl

theorem trans (h : Quiet w v) (h' : Quiet v u) : Quiet w u := Tells.trans h h'

/-- The records change in a plain way. -/
theorem record (w : Watch) (change : Records.Change) (plain : change.isPlain = true) :
    Quiet w { w with records := w.records.apply change } where
  callbacks := rfl
  records := ⟨[change], rfl, fun _ h => List.mem_singleton.mp h ▸ plain⟩
  told := (List.append_nil _).symm

/-- Something can be seen that tells no listener anything. -/
theorem log (w : Watch) (event : Event) (silent : event.told? = none) :
    Quiet w (w.log event) :=
  same rfl rfl (by rw [told_log, silent]; exact List.append_nil _)

/-! ## Calls -/

/-- The delivery job is submitted, but hands nothing out yet. -/
theorem flush (w : Watch) : Quiet w w.flush := by
  unfold Watch.flush submitJob
  split
  · have hclaim : Quiet w w.claimJob := record w .claimQueue rfl
    split
    · exact hclaim.trans (same rfl rfl rfl)
    · exact hclaim
  · exact refl w

/-- A slot is noted without a call: those who wait for it are told in a delivery. -/
theorem noteSlot (w : Watch) (uri : EditionUri) : Quiet w (w.noteSlot uri) :=
  (record w (.noteSlot w.now uri) rfl).trans (flush _)

theorem noteGood (w : Watch) (uri : EditionUri) : Quiet w (w.noteGood uri) :=
  (record w (.noteGood w.now uri) rfl).trans (flush _)

theorem noteFetched (w : Watch) (uri : EditionUri) (metadata : Bool) :
    Quiet w (w.noteFetched uri metadata) := by
  cases metadata with
  | true => exact noteSlot w uri
  | false => exact noteGood w uri

theorem cancelPollers (w : Watch) (ids : List PollerId) : Quiet w (w.cancelPollers ids) := by
  rw [cancelPollers_eq]
  exact same rfl rfl rfl

/-- Nobody is told that a callback is removed. -/
theorem unsubscribe (w : Watch) (s : Subscription) : Quiet w (w.unsubscribe s) :=
  (record w (.unsubscribe s.key s.callback) rfl).trans (cancelPollers _ _)

theorem unsubscribeContent (w : Watch) (s : ContentSubscription) :
    Quiet w (w.unsubscribeContent s) :=
  (unsubscribe w s.inner).trans (same rfl rfl rfl)

theorem submitPoller (w : Watch) (poller : Poller) (evicted : List PollerId) :
    Quiet w (w.submitPoller poller evicted) := by
  have hlog := log w (.pollerSubmitted w.pollers.length poller.key) rfl
  unfold Watch.submitPoller
  dsimp only
  split <;> exact hlog.trans (same rfl rfl rfl)

/-- A lookup tells nobody anything, even if it pushes a poller out. -/
theorem resolve (w : Watch) (uri : EditionUri) (prefetch : Bool) :
    Quiet w (w.resolve uri prefetch).watch := by
  have hrecord := record w (.resolve w.now uri.key prefetch) rfl
  unfold Watch.resolve
  dsimp only
  cases w.records.lookup uri.key with
  | hinted poller => exact hrecord.trans (same rfl rfl rfl)
  | started poller evicted => exact hrecord.trans (submitPoller _ _ _)

theorem submitErrand (w : Watch) (kind : JobKind) (purpose : Purpose) (uri : EditionUri) :
    Quiet w (w.submitErrand kind purpose uri) := by
  unfold Watch.submitErrand
  split
  · exact same rfl rfl rfl
  · exact refl w

/-- A hint tells nobody anything before its errand comes back. -/
theorem hint (w : Watch) (uri : EditionUri) : Quiet w (w.hint uri) := by
  unfold Watch.hint
  split
  · split
    · exact refl w
    · exact submitErrand w _ _ _
  · exact submitErrand w _ _ _

/-- Nobody is told of a shutdown. -/
theorem shutdown (w : Watch) : Quiet w w.shutdown := by
  let stopped : Watch := { w with stopped := true }
  have hstopped : Quiet w stopped := same rfl rfl rfl
  exact (hstopped.trans (record stopped .removePollers rfl)).trans (cancelPollers _ _)

theorem reap (w : Watch) : Quiet w w.reap := by
  unfold Watch.reap
  split
  · exact refl w
  · let stopped : Watch := { w with stopped := true }
    have hstopped : Quiet w stopped := same rfl rfl rfl
    exact hstopped.trans (record stopped .forgetPollers rfl)

theorem release (w : Watch) : Quiet w w.release := by
  have hreleased : Quiet w { w with held := false } := same rfl rfl rfl
  exact hreleased.trans (reap _)

/-! ## Telling targets -/

/-- A listener calls the watch in reply, but the watch does not call back at once. -/
theorem react (w : Watch) (l : Listener) (found : Found) : Quiet w (w.react l found) := by
  unfold Watch.react
  split
  · split
    · exact refl w
    · exact noteGood w _
    · split
      · exact noteSlot w _
      · exact refl w
    · split
      · exact refl w
      · exact unsubscribe w _
    · exact hint w _
    · exact shutdown w
  · exact refl w

end Quiet

/-- A call of a listener tells it this one thing. -/
theorem tells_callListener (w : Watch) (name : String) (signal : Signal) :
    Tells w [(name, signal)] (w.callListener name signal).watch := by
  have hlog (event : Event) (call : event.told? = some (name, signal)) :
      Tells w [(name, signal)] (w.log event) :=
    ⟨rfl, (Quiet.refl w).records, by rw [told_log, call]; rfl⟩
  cases signal with
  | round key => exact hlog _ rfl
  | found found =>
    have hfound := hlog (.found name found) rfl
    simp only [callListener]
    split
    · exact hfound
    · split
      · exact hfound
      · exact hfound.trans (Quiet.react _ _ found)

/-- A feed goes for content without a call of its listener. -/
theorem quiet_callFeed (w : Watch) (id : FeedId) (signal : Signal) :
    Quiet w (w.callFeed id signal) := by
  cases signal with
  | round key => exact Quiet.refl w
  | found found =>
    simp only [callFeed]
    split
    · exact Quiet.refl w
    · split
      · let wants : Watch := { w with feeds := w.feeds.modify id (·.pursue found.edition) }
        have hwants : Quiet w wants := Quiet.same rfl rfl rfl
        exact hwants.trans (Quiet.submitErrand wants _ _ _)
      · exact Quiet.refl w

/-- A target that is told something passes it to its listener, if it has one. -/
theorem tells_callTarget (w : Watch) (target : Target) (signal : Signal) :
    Tells w (target.tells [signal]) (w.callTarget target signal).watch := by
  cases target with
  | listener name => exact tells_callListener w name signal
  | feed id => exact quiet_callFeed w id signal

/-- A target is told one thing after the other up to the first call that fails. -/
theorem tells_callAll (w : Watch) (target : Target) (signals : List Signal) :
    Tells w (target.tells (w.callsTo target signals)) (w.callAll target signals).watch := by
  induction signals generalizing w with
  | nil => cases target <;> exact Quiet.refl w
  | cons signal rest ih =>
    have hfirst := tells_callTarget w target signal
    have hcons (later : List Signal) :
        target.tells (signal :: later) = target.tells [signal] ++ target.tells later := by
      cases target <;> rfl
    unfold callsTo callAll
    dsimp only
    rw [hcons]
    split
    · exact hfirst.trans (ih _)
    · exact hfirst.trans (by cases target <;> exact Quiet.refl _)

namespace Quiet

/-- To count a call or to report that it failed tells nobody anything. -/
theorem settleCall (call : Call) : Quiet call.watch (settleCall call) := by
  unfold Watch.settleCall
  split
  · exact record call.watch .countDelivered rfl
  · exact log call.watch .callFailed rfl

/-! ## Polling -/

theorem setStage (w : Watch) (id : PollerId) (stage : Poller.Stage) :
    Quiet w (w.setStage id stage) := same rfl rfl rfl

theorem finishPoller (w : Watch) (id : PollerId) : Quiet w (w.finishPoller id) :=
  same rfl rfl rfl

theorem endPoller (w : Watch) (id : PollerId) (key : DocumentKey) (cancelled : Bool) :
    Quiet w (w.endPoller id key cancelled).watch := by
  have hset := finishPoller w id
  unfold Watch.endPoller
  dsimp only
  split
  · exact (hset.trans (record _ (.removePoller key id cancelled) rfl)).trans (same rfl rfl rfl)
  · exact hset

theorem countVerdict (w : Watch) (verdict : Verdict) :
    Quiet w { w with records := w.records.countVerdict verdict } :=
  record w (.countVerdict verdict) rfl

/-- The reply to a poller is noted, and subscribers are told of it in a delivery. -/
theorem takeReply (w : Watch) (id : PollerId) (key : DocumentKey) (round : Round)
    (reply : Reply) : Quiet w (w.takeReply id key round reply).watch := by
  have hcount := countVerdict w reply.verdict
  unfold Watch.takeReply
  split
  · dsimp only
    split
    · split
      · exact (hcount.trans (noteSlot _ _)).trans (setStage _ _ _)
      · exact hcount.trans (finishPoller _ _)
    · exact hcount.trans (setStage _ _ _)
  · dsimp only
    split
    · split
      · exact (hcount.trans (noteSlot _ _)).trans (setStage _ _ _)
      · exact hcount.trans (finishPoller _ _)
    · exact hcount.trans (setStage _ _ _)
  · dsimp only
    split
    · exact (noteGood w _).trans (setStage _ _ _)
    · exact setStage w id _
  · exact setStage w id _

theorem issue (w : Watch) (request : Request) : Quiet w (w.issue request).watch := by
  have hlog := log w (.fetched w.now request) rfl
  have hrelease (probed : Watch) (h : Quiet w probed) :
      Quiet w (if w.network.releases request then probed.release else probed) := by
    split
    · exact h.trans (release probed)
    · exact h
  unfold Watch.issue
  dsimp only
  cases request.kind with
  | block => exact hrelease _ (hlog.trans (record _ .countProbe rfl))
  | content => exact hrelease _ hlog

/-- A poller sends its request without a call. -/
theorem sendRequest (w : Watch) (id : PollerId) (key : DocumentKey) (round : Round)
    (request : Request) : Quiet w (w.sendRequest id key round request).watch := by
  unfold Watch.sendRequest
  dsimp only
  split
  · exact (issue w request).trans (takeReply _ _ _ _ _)
  · exact (issue w request).trans (setStage _ _ _)

end Quiet

/-- A round of a document is over: it is counted and told to all subscribers, and perhaps a
delivery job is asked for. -/
structure Closes (w v : Watch) (key : DocumentKey) : Prop where
  callbacks : v.callbacks = w.callbacks
  told : v.told = w.told
  records : v.records = w.records.countRound.finishRound key ∨
    v.records = (w.records.countRound.finishRound key).claimQueue

namespace Closes

variable {key : DocumentKey}

/-- What comes after a round was closed may change nothing that is looked at. -/
theorem before (h : Closes w v key) (callbacks : u.callbacks = v.callbacks)
    (told : u.told = v.told) (records : u.records = v.records) : Closes w u key where
  callbacks := callbacks.trans h.callbacks
  told := told.trans h.told
  records := records ▸ h.records

/-- A round is closed once it is counted and its deliveries wait for a job. -/
theorem flush (key : DocumentKey) (callbacks : v.callbacks = w.callbacks)
    (told : v.told = w.told) (records : v.records = w.records.countRound.finishRound key) :
    Closes w v.flush key := by
  unfold Watch.flush submitJob
  split
  · split <;> exact ⟨callbacks, told, .inr (congrArg Records.claimQueue records)⟩
  · exact ⟨callbacks, told, .inl records⟩

end Closes

/-- The turn of a poller is quiet, or it closes a round. -/
def Polls (w v : Watch) : Prop := Quiet w v ∨ ∃ key, Closes w v key

/-- Only a background poller that goes on closes a round, and nothing is told before its
delivery. -/
theorem polls_closeRound (w : Watch) (id : PollerId) (p : Poller) (found : Bool) :
    Polls w (w.closeRound id p found).watch := by
  unfold closeRound
  dsimp only
  split
  · refine .inr ⟨p.key, ?_⟩
    let counted : Watch := { w with records := w.records.countRound }
    let closed : Watch :=
      { (counted.modifyPoller id fun p => { p with rounds := p.rounds + 1 }) with
        records := counted.records.finishRound p.key }
    have hclosed : Closes w closed.flush p.key := Closes.flush p.key rfl rfl rfl
    split
    · exact hclosed.before rfl rfl rfl
    · split <;> exact hclosed.before rfl rfl rfl
  · have hcount : Quiet w { w with records := w.records.countRound } :=
      Quiet.record w .countRound rfl
    exact .inl (hcount.trans (Quiet.same rfl rfl rfl))

/-- Within a round a poller is quiet, and it may close the round at its end. -/
theorem polls_stepRound (w : Watch) (id : PollerId) (p : Poller) (round : Round) :
    Polls w (w.stepRound id p round).watch := by
  have hset (stage : Poller.Stage) : Polls w (w.setStage id stage) :=
    .inl (Quiet.setStage w id stage)
  have hgone : Polls w (w.abandon id).watch := .inl (Quiet.finishPoller w id)
  have hsend (round : Round) (request : Request) :
      Polls w (w.sendRequest id p.key round request).watch :=
    .inl (Quiet.sendRequest w id p.key round request)
  unfold stepRound
  cases round with
  | hinting hints =>
    cases hints with
    | nil => exact hset _
    | cons e hints =>
      dsimp only
      split
      · exact hset _
      · exact hgone
  | «over» found => exact polls_closeRound w id p found
  | askingHint e hints => exact hsend _ _
  | asking found e misses probes => exact hsend _ _
  | fetching slot => exact hsend _ _
  | walking found e misses probes => exact hset _
  | confirming => exact hset _
  | opening hints =>
    dsimp only
    split
    · exact hset _
    · exact hgone
  | aligning found =>
    dsimp only
    split
    · exact hset _
    · exact hgone

/-- A poller that takes a turn is quiet, or closes a round. -/
theorem polls_stepPoller (w : Watch) (id : PollerId) : Polls w (w.stepPoller id).watch := by
  unfold stepPoller
  cases w.pollers[id]? with
  | none => exact .inl (Quiet.refl w)
  | some p =>
    have hend (cancelled : Bool) : Polls w (w.endPoller id p.key cancelled).watch :=
      .inl (Quiet.endPoller w id p.key cancelled)
    dsimp only
    cases p.stage with
    | submitted evicted =>
      have hbegun : Quiet w ((w.setStage id (.resting none)).cancelPollers evicted) :=
        (Quiet.setStage w id _).trans (Quiet.cancelPollers _ _)
      dsimp only
      split
      · exact .inl (hbegun.trans (Quiet.endPoller _ _ _ _))
      · exact .inl (hbegun.trans (Quiet.same rfl rfl rfl))
    | rounding round => exact polls_stepRound w id p round
    | waiting round flight =>
      dsimp only
      split
      · exact hend true
      · split
        · exact .inl (Quiet.refl w)
        · exact .inl (Quiet.takeReply w _ _ _ _)
    | resting wake =>
      dsimp only
      split
      · exact hend true
      · split
        · exact .inl (Quiet.same rfl rfl rfl)
        · split
          · exact hend false
          · split
            · exact .inl (Quiet.same rfl rfl rfl)
            · exact .inl (Quiet.refl w)
    | ended => exact .inl (Quiet.refl w)

namespace Quiet

/-! ## Errands and the sweeper -/

theorem dismiss (w : Watch) (id : Nat) : Quiet w (w.dismiss id) := by
  have hless : Quiet w { w with errands := w.errands.filter fun errand => errand.id ≠ id } :=
    same rfl rfl rfl
  exact hless.trans (reap _)

/-- Content goes to the listener of a feed, which is no call of a subscriber. -/
theorem bringContent (w : Watch) (feed : ContentFeed) (uri : EditionUri) (reply : Reply) :
    Quiet w (w.bringContent feed uri reply) := by
  unfold Watch.bringContent
  split
  · dsimp only
    split
    · exact (noteGood w uri).trans (log _ _ rfl)
    · exact log w _ rfl
  · split
    · exact refl w
    · exact log w _ rfl

/-- An errand comes to its end without a call of a subscriber. -/
theorem conclude (w : Watch) (errand : Errand) (reply : Reply) :
    Quiet w (w.conclude errand reply) := by
  have hcount := countVerdict w reply.verdict
  unfold Watch.conclude
  dsimp only
  cases errand.purpose with
  | hint =>
    dsimp only
    split
    · exact hcount.trans (noteSlot _ _)
    · exact hcount
  | check listener =>
    dsimp only
    split
    · exact (hcount.trans (noteSlot _ _)).trans (log _ _ rfl)
    · exact hcount.trans (log _ _ rfl)
  | probe good =>
    dsimp only
    split
    · split
      · exact (hcount.trans (noteGood _ _)).trans (same rfl rfl rfl)
      · exact (hcount.trans (noteSlot _ _)).trans (same rfl rfl rfl)
    · exact hcount.trans (same rfl rfl rfl)
  | prefetch =>
    dsimp only
    split
    · exact (record w .countPrefetched rfl).trans (noteGood _ _)
    · exact refl w
  | retrieval id =>
    dsimp only
    split
    · exact refl w
    · exact bringContent w _ _ _

theorem beginErrand (w : Watch) (errand : Errand) : Quiet w (w.beginErrand errand).watch := by
  have hissue : Quiet w (w.issue ⟨errand.purpose.fetches, errand.uri⟩).watch := issue w _
  unfold Watch.beginErrand
  dsimp only
  split
  · exact hissue.trans (dismiss _ _)
  · split
    · exact (hissue.trans (conclude _ _ _)).trans (dismiss _ _)
    · exact hissue.trans (same rfl rfl rfl)

/-- An errand takes its turn without a call of a subscriber. -/
theorem stepErrand (w : Watch) (id : Nat) : Quiet w (w.stepErrand id).watch := by
  unfold Watch.stepErrand
  split
  · exact refl w
  · split
    · exact beginErrand w _
    · split
      · exact dismiss w id
      · split
        · exact refl w
        · exact (conclude w _ _).trans (dismiss _ id)

theorem probe (w : Watch) (uri : EditionUri) (good : Bool) : Quiet w (w.probe uri good) := by
  have hsent : Quiet w ({ w with probed := none }.addErrand (.probe good) uri) := same rfl rfl rfl
  exact hsent.trans (stepErrand _ _)

theorem dropProbe (w : Watch) : Quiet w w.dropProbe := by
  have hless (errands : List Errand) : Quiet w { w with errands := errands } := same rfl rfl rfl
  exact (hless _).trans (reap _)

theorem sweep (w : Watch) : Quiet w w.sweep := by
  have hsend (due : List EditionUri) (v : Watch) :
      Quiet v (due.foldl (fun w uri => w.submitErrand .prefetch .prefetch uri) v) := by
    induction due generalizing v with
    | nil => exact refl v
    | cons uri rest ih => exact (submitErrand v _ _ uri).trans (ih _)
  exact (record w (.sweep w.now w.settings.prefetchDelay.nanoseconds) rfl).trans (hsend _ _)

theorem stepSweeper (w : Watch) : Quiet w w.stepSweeper.watch := by
  unfold Watch.stepSweeper
  split
  · exact refl w
  · split <;> exact same rfl rfl rfl
  · split
    · exact same rfl rfl rfl
    · split
      · exact (sweep w).trans (same rfl rfl rfl)
      · exact refl w

theorem wake (w : Watch) (id : PollerId) : Quiet w (w.wake id) := by
  rcases w.wake_cases id with hsame | ⟨-, -, -, -, -, -, hbegins⟩
  · rw [hsame]
    exact refl w
  · rw [hbegins]
    exact same rfl rfl rfl

/-- A job that breaks down calls nobody. -/
theorem crash (w : Watch) (job : Job) : Quiet w (w.crash job) := by
  unfold Watch.crash
  split
  · split
    · exact finishPoller w _
    · exact refl w
  · split
    · exact dismiss w _
    · exact refl w
  · exact refl w

end Quiet

/-! ## Subscriptions -/

/-- What someone asks to be subscribed. -/
structure Enrolment where
  /-- The document. -/
  key : DocumentKey
  /-- Only editions above this one are of interest. -/
  requested : Edition
  /-- Whether delivery is to be sparse. -/
  sparse : Bool
  /-- Where the calls are to go. -/
  target : Target
  deriving DecidableEq

/-- What an action asks to be subscribed. Content that is polled for in the background is
delivered sparsely. -/
def enrolment? (w : Watch) : Action → Option Enrolment
  | .subscribe key name options =>
    if options.persistent then none
    else some ⟨key, options.requested, options.sparse, .listener name⟩
  | .subscribeContent key _ _ options =>
    if options.persistent then none
    else some ⟨key, options.requested, options.sparse || options.background, .feed w.feeds.length⟩
  | _ => none

/-- The callback through which an enrolment is served. -/
def choice (w : Watch) (enrolment : Enrolment) : CallbackChoice :=
  w.callbackFor enrolment.target enrolment.sparse

/-- A target is subscribed, be it through a new callback or through one that was there. -/
structure Joins (w v : Watch) (enrolment : Enrolment) : Prop where
  callbacks : v.callbacks = (w.choice enrolment).watch.callbacks
  told : v.told = w.told
  records : ∃ polls changes,
    v.records = (w.records.apply (.subscribe enrolment.key (w.choice enrolment).callback
      enrolment.requested polls)).run changes ∧
    ∀ change ∈ changes, change.isPlain = true

/-- Which callback is chosen for a target depends on the callbacks only. -/
theorem choice_congr (callbacks : v.callbacks = w.callbacks) (enrolment : Enrolment) :
    (v.choice enrolment).callback = (w.choice enrolment).callback ∧
      (v.choice enrolment).watch.callbacks = (w.choice enrolment).watch.callbacks := by
  unfold choice callbackFor makeCallback
  rw [callbacks]
  split
  · exact ⟨rfl, rfl⟩
  · split
    · exact ⟨rfl, callbacks⟩
    · exact ⟨rfl, rfl⟩

/-- An enrolment is served through a new callback, or through one without a gate. -/
theorem choice_cases (w : Watch) (enrolment : Enrolment) :
    ((w.choice enrolment).callback = w.callbacks.length ∧
      (w.choice enrolment).watch.callbacks =
        w.callbacks ++ [⟨if enrolment.sparse then some .fresh else none, enrolment.target⟩]) ∨
    ((w.choice enrolment).watch.callbacks = w.callbacks ∧
      w.callbacks[(w.choice enrolment).callback]? = some ⟨none, enrolment.target⟩) := by
  unfold choice callbackFor makeCallback
  cases enrolment.sparse with
  | true => exact .inl ⟨rfl, rfl⟩
  | false =>
    simp only [Bool.false_eq_true, if_false]
    cases hi : w.callbacks.findIdx? fun c => c.gate.isNone && c.target = enrolment.target with
    | none => exact .inl ⟨rfl, rfl⟩
    | some callback =>
      obtain ⟨hlt, hc, -⟩ := List.findIdx?_eq_some_iff_getElem.mp hi
      refine .inr ⟨rfl, ?_⟩
      obtain ⟨hgate, htarget⟩ : w.callbacks[callback].gate = none ∧
          w.callbacks[callback].target = enrolment.target := by simpa using hc
      rw [List.getElem?_eq_getElem hlt, ← hgate, ← htarget]

/-- Once a callback is registered, the rest of its subscription is quiet. -/
theorem quiet_attach (w : Watch) (key : DocumentKey) (callback : CallbackId)
    (options : SubscribeOptions) :
    ∃ polls, Quiet
      { w with records := w.records.apply (.subscribe key callback options.requested polls) }
      (w.attach key callback options) := by
  unfold attach
  cases options.polls with
  | false => exact ⟨false, Quiet.flush _⟩
  | true =>
    refine ⟨true, ?_⟩
    simp only [if_true, cover]
    split
    · exact Quiet.flush _
    case h_2 poller _ =>
      let v : Watch :=
        { w with records := w.records.apply (.subscribe key callback options.requested true) }
      have hsend : Quiet v (v.modifyPoller poller (·.send .pollForever)) := Quiet.same rfl rfl rfl
      exact hsend.trans (Quiet.flush _)
    · exact (Quiet.flush _).trans (Quiet.submitPoller _ _ _)

/-- A target that is subscribed joins with the options it was subscribed with. -/
theorem joins_subscribeTarget (w : Watch) (key : DocumentKey) (target : Target)
    (options : SubscribeOptions) :
    Joins w (w.subscribeTarget key target options).watch
      ⟨key, options.requested, options.sparse, target⟩ := by
  have hsame : (w.callbackFor target options.sparse).watch.records = w.records ∧
      (w.callbackFor target options.sparse).watch.told = w.told := by
    unfold callbackFor makeCallback
    split
    · exact ⟨rfl, rfl⟩
    · split <;> exact ⟨rfl, rfl⟩
  obtain ⟨polls, hcallbacks, hchanges, htold⟩ :=
    quiet_attach (w.callbackFor target options.sparse).watch key
      (w.callbackFor target options.sparse).callback options
  rw [hsame.1] at hchanges
  exact ⟨hcallbacks, htold.trans ((List.append_nil _).trans hsame.2), polls, hchanges⟩

namespace Joins

variable {enrolment : Enrolment}

/-- What happens before a subscription does not matter if it leaves the callbacks and the records
as they are, and tells nobody anything. -/
theorem after (h : Joins u v enrolment) (callbacks : u.callbacks = w.callbacks)
    (told : u.told = w.told) (records : u.records = w.records) : Joins w v enrolment := by
  obtain ⟨hcallbacks, htold, polls, changes, hrecords, hplain⟩ := h
  obtain ⟨hcallback, hchoice⟩ := choice_congr callbacks enrolment
  rw [hchoice] at hcallbacks
  rw [hcallback, records] at hrecords
  exact ⟨hcallbacks, htold.trans told, polls, changes, hrecords, hplain⟩

/-- Nor does what happens after it. -/
theorem before (h : Joins w v enrolment) (callbacks : u.callbacks = v.callbacks)
    (told : u.told = v.told) (records : u.records = v.records) : Joins w u enrolment := by
  obtain ⟨hcallbacks, htold, hchanges⟩ := h
  rw [← records] at hchanges
  exact ⟨callbacks.trans hcallbacks, told.trans htold, hchanges⟩

end Joins

/-- A listener that is subscribed joins as the target it is. -/
theorem joins_subscribe (w : Watch) (key : DocumentKey) (name : String)
    {options : SubscribeOptions} (allowed : options.persistent = false) :
    Joins w (w.perform (.subscribe key name options))
      ⟨key, options.requested, options.sparse, .listener name⟩ := by
  obtain ⟨hcallbacks, htold, hrecords⟩ : (w.addListener name).callbacks = w.callbacks ∧
      (w.addListener name).told = w.told ∧ (w.addListener name).records = w.records := by
    unfold addListener
    split <;> exact ⟨rfl, rfl, rfl⟩
  have hjoins := joins_subscribeTarget (w.addListener name) key (.listener name) options
  simp only [perform, subscribe, allowed, Bool.false_eq_true, if_false]
  exact (hjoins.after hcallbacks htold hrecords).before rfl rfl rfl

/-- A feed joins sparsely also if it only asked for background polling. -/
theorem joins_subscribeContent (w : Watch) (key : DocumentKey) (name : String) (quiet : Bool)
    {options : SubscribeOptions} (allowed : options.persistent = false) :
    Joins w (w.perform (.subscribeContent key name quiet options))
      ⟨key, options.requested, options.sparse || options.background,
        .feed w.feeds.length⟩ := by
  let v : Watch := { w with feeds := w.feeds ++ [ContentFeed.fresh name quiet] }
  have hjoins := joins_subscribeTarget v key (.feed w.feeds.length)
    { options with sparse := options.sparse || options.background }
  simp only [perform, subscribeContent, allowed, Bool.false_eq_true, if_false]
  exact hjoins.after rfl rfl rfl

/-- What an enrolment comes down to, if its owner may make it; no delivery is handed out then. -/
theorem joins_act (held : w.held = true) {action : Action} {enrolment : Enrolment}
    (asked : w.enrolment? action = some enrolment) :
    Joins w (w.act action) enrolment ∧ w.handOut? action = none := by
  rw [act_of_held held]
  cases action with
  | subscribe key name options =>
    rw [enrolment?] at asked
    split at asked
    · cases asked
    case isFalse hp =>
      cases asked
      exact ⟨joins_subscribe w key name (Bool.eq_false_iff.mpr hp), rfl⟩
  | subscribeContent key name quiet options =>
    rw [enrolment?] at asked
    split at asked
    · cases asked
    case isFalse hp =>
      cases asked
      exact ⟨joins_subscribeContent w key name quiet (Bool.eq_false_iff.mpr hp), rfl⟩
  | _ => cases asked

/-! ## Handing out -/

/-- A callback without a gate is the same after it was told something. -/
theorem tell_of_open {d : Delivery} {target : Target}
    (found : w.callbacks[d.callback]? = some ⟨none, target⟩) : w.tell d = w := by
  obtain ⟨hlt, hget⟩ := List.getElem?_eq_some_iff.mp found
  have hsame : Callback.tell ⟨none, target⟩ d.signal = ⟨none, target⟩ := rfl
  have hset : w.callbacks.modify d.callback (·.tell d.signal) = w.callbacks := by
    rw [modify_eq_set found, hsame, ← hget, List.set_getElem_self]
  rw [tell, hset]

/-- What a gate is told changes the gate, and nothing else of the callback. -/
theorem tell_of_gate {d : Delivery} {gate : SparseGate} {target : Target}
    (found : w.callbacks[d.callback]? = some ⟨some gate, target⟩) :
    w.tell d =
      { w with
        callbacks := w.callbacks.modify d.callback fun c =>
          { c with gate := some (gate.feed d.signal).gate } } := by
  rw [tell, modify_eq_set found, modify_eq_set found]
  rfl

/-- To tell a target one thing is one call. -/
theorem callAll_singleton (w : Watch) (target : Target) (signal : Signal) :
    w.callAll target [signal] = w.callTarget target signal := by
  unfold callAll
  dsimp only
  split
  case isTrue hr => rw [callAll, ← hr]
  case isFalse => rfl

/-- To tell a callback something is to tell its gate, and then its target what comes through. -/
theorem deliver_eq (w : Watch) (d : Delivery) :
    w.deliver d =
      match w.callbacks[d.callback]? with
      | none => ⟨w, true⟩
      | some callback => (w.tell d).callAll callback.target (callback.through d.signal) := by
  have hdeliver : w.deliver d = w.callBack d.callback d.signal := by cases d <;> rfl
  rw [hdeliver, callBack]
  cases hc : w.callbacks[d.callback]? with
  | none => rfl
  | some callback =>
    obtain ⟨gate, target⟩ := callback
    cases gate with
    | none =>
      rw [tell_of_open hc]
      exact (callAll_singleton w target d.signal).symm
    | some gate =>
      rw [tell_of_gate hc]
      rfl

/-- A delivery tells those calls that its hand-out is made of. -/
theorem tells_deliver (w : Watch) (d : Delivery) :
    Tells (w.tell d) (w.handOut d).told (w.deliver d).watch := by
  unfold HandOut.told handOut callsOf
  rw [deliver_eq]
  cases hc : w.callbacks[d.callback]? with
  | none =>
    have htell : (w.tell d).callbacks = w.callbacks := by
      rw [tell, List.modify_eq_self (List.getElem?_eq_none_iff.mp hc)]
    exact Quiet.same htell.symm rfl rfl
  | some callback => exact tells_callAll (w.tell d) callback.target _

/-- If all calls return, a target gets every call that it is to get. -/
theorem callsTo_of_returned {target : Target} {signals : List Signal}
    (h : (w.callAll target signals).returned = true) : w.callsTo target signals = signals := by
  induction signals generalizing w with
  | nil => rfl
  | cons signal rest ih =>
    unfold callAll at h
    unfold callsTo
    dsimp only at h ⊢
    split at h
    case isTrue hr => rw [if_pos hr, ih h]
    case isFalse hr => exact absurd h hr

/-- The watch once the first delivery that waits has been taken out. -/
def take (w : Watch) : Watch := { w with records := w.records.apply .takeDelivery }

/-- The delivery that is taken out is the first of those that wait. -/
theorem takeDelivery?_cases {d : Delivery} (h : w.takeDelivery? = some (d, v)) :
    v = w.take ∧ w.pending = d :: w.take.pending := by
  obtain ⟨⟨first, records⟩, htaken, he⟩ := Option.map_eq_some_iff.mp h
  obtain ⟨rfl, rfl⟩ : first = d ∧ { w with records := records } = v := by simpa using he
  have htake : w.take = { w with records := records } := by
    rw [take, Records.apply, htaken]
    rfl
  rw [htake]
  refine ⟨rfl, ?_⟩
  obtain ⟨⟨first', queue⟩, hpop, he⟩ := Option.map_eq_some_iff.mp htaken
  obtain ⟨rfl, rfl⟩ : first' = first ∧ { w.records with queue := queue } = records := by
    simpa using he
  unfold DeliveryQueue.pop? at hpop
  split at hpop
  · cases hpop
  case h_2 rest hpending =>
    cases hpop
    exact hpending

/-- The watch once the delivery that an action hands out has been taken out and its callback
been told. -/
def eased (w : Watch) (action : Action) : Watch :=
  match w.handOut? action with
  | none => w
  | some h => w.take.tell h.delivery

/-- If nothing is handed out, nothing has to be taken out first. -/
theorem eased_of_idle {action : Action} (idle : w.handOut? action = none) :
    w.eased action = w := by rw [eased, idle]

/-- Before the calls of a delivery are made, it is taken out and told to its gate. -/
theorem eased_of_handOut {action : Action} {h : HandOut} (made : w.handOut? action = some h) :
    w.eased action = w.take.tell h.delivery := by rw [eased, made]

/-- The delivery that is handed out was the first that waited. -/
theorem handOut_cases {action : Action} {h : HandOut} (made : w.handOut? action = some h) :
    h = w.take.handOut h.delivery ∧ w.pending = h.delivery :: w.take.pending ∧
      w.act action = settleCall (w.take.deliver h.delivery) := by
  unfold handOut? at made
  split at made
  case h_2 => cases made
  split at made
  case isFalse => cases made
  case isTrue hjob =>
    obtain ⟨⟨d, v⟩, htaken, rfl⟩ := Option.map_eq_some_iff.mp made
    obtain ⟨rfl, hpending⟩ := takeDelivery?_cases htaken
    have hact : w.act (.work .delivery) = settleCall (w.take.deliver d) := by
      simp [act, perform, takeTurn, Action.isCall, hjob, deliverNext, htaken]
    exact ⟨rfl, hpending, hact⟩

/-- What waits is the delivery that is handed out, followed by those that wait then. -/
theorem pending_eased (w : Watch) (action : Action) :
    w.pending = (w.handOut? action).toList.map HandOut.delivery ++ (w.eased action).pending := by
  cases hmade : w.handOut? action with
  | none => rw [eased_of_idle hmade]; rfl
  | some h => rw [eased_of_handOut hmade]; exact (handOut_cases hmade).2.1

/-- What happens to a watch around the hand-out of a delivery: changes are plain, or a callback is
registered, or a round is closed. -/
inductive Deed (w : Watch) (calls : List (String × Signal)) (v : Watch) : Prop where
  | tells (tells : Tells w calls v)
  | joins (enrolment : Enrolment) (joins : Joins w v enrolment) (silent : calls = [])
  | closes (key : DocumentKey) (closes : Closes w v key) (silent : calls = [])

/-- A turn that hands nothing out is quiet, or closes a round. -/
theorem polls_takeTurn (w : Watch) (job : Job) (idle : w.handOut? (.work job) = none) :
    Polls w (w.takeTurn job) := by
  cases job with
  | sweeper => exact .inl (Quiet.stepSweeper w)
  | errand id => exact .inl (Quiet.stepErrand w id)
  | poller id => exact polls_stepPoller w id
  | delivery =>
    unfold takeTurn
    unfold handOut? at idle
    dsimp only at idle ⊢
    split
    case isTrue hjob =>
      rw [if_pos hjob, Option.map_eq_none_iff] at idle
      have hrelease := Quiet.record w .releaseQueue rfl
      rw [deliverNext, idle]
      exact .inl (hrelease.trans (Quiet.same rfl rfl rfl))
    case isFalse => exact .inl (Quiet.refl w)

/-- An action that hands out nothing and asks for no subscription is quiet, or closes a round. -/
theorem polls_of_unasked (w : Watch) {action : Action} (idle : w.handOut? action = none)
    (unasked : w.enrolment? action = none) : Polls w (w.act action) := by
  unfold act
  split
  case isTrue => exact .inl (Quiet.refl w)
  case isFalse =>
    cases action with
    | work job => exact polls_takeTurn w job idle
    | wake id => exact .inl (Quiet.wake w id)
    | crash job => exact .inl (Quiet.crash w job)
    | elapse span => exact .inl (Quiet.same rfl rfl rfl)
    | setNetwork network => exact .inl (Quiet.same rfl rfl rfl)
    | refuse kinds => exact .inl (Quiet.same rfl rfl rfl)
    | letGo name => exact .inl (Quiet.same rfl rfl rfl)
    | dropProbe => exact .inl (Quiet.dropProbe w)
    | release => exact .inl (Quiet.release w)
    | subscribe key name options =>
      have hp : options.persistent = true := by simpa [enrolment?] using unasked
      simp only [perform, subscribe, hp, if_true]
      exact .inl (Quiet.refl w)
    | unsubscribe subscription => exact .inl (Quiet.unsubscribe w subscription)
    | subscribeContent key name quiet options =>
      have hp : options.persistent = true := by simpa [enrolment?] using unasked
      simp only [perform, subscribeContent, hp, if_true]
      exact .inl (Quiet.refl w)
    | unsubscribeContent subscription =>
      exact .inl (Quiet.unsubscribeContent w subscription)
    | noteSlot uri => exact .inl (Quiet.noteSlot w uri)
    | noteGood uri => exact .inl (Quiet.noteGood w uri)
    | noteFetched uri metadata => exact .inl (Quiet.noteFetched w uri metadata)
    | resolve uri prefetch name =>
      exact .inl ((Quiet.resolve w uri prefetch).trans (Quiet.same rfl rfl rfl))
    | probe uri good => exact .inl (Quiet.probe w uri good)
    | hint uri => exact .inl (Quiet.hint w uri)
    | check uri listener => exact .inl (Quiet.submitErrand w _ _ uri)
    | shutdown => exact .inl (Quiet.shutdown w)

/-- Whoever does not hold the watch cannot have anyone subscribed. -/
theorem act_of_asked_unheld {w : Watch} (unheld : w.held = false) {action : Action}
    {enrolment : Enrolment} (asked : w.enrolment? action = some enrolment) :
    w.act action = w := by
  have hcall : action.isCall = true := by
    cases action <;> first | rfl | cases asked
  rw [act, hcall, unheld]
  rfl

/-- An action that hands nothing out tells nobody anything. -/
theorem deed_of_idle (w : Watch) (action : Action) (idle : w.handOut? action = none) :
    Deed w [] (w.act action) := by
  cases hasked : w.enrolment? action with
  | none =>
    rcases polls_of_unasked w idle hasked with hquiet | ⟨key, hcloses⟩
    · exact .tells hquiet
    · exact .closes key hcloses rfl
  | some enrolment =>
    cases hheld : w.held with
    | true => exact .joins enrolment (joins_act hheld hasked).1 rfl
    | false =>
      rw [act_of_asked_unheld hheld hasked]
      exact .tells (Quiet.refl w)

/-- Handing out a delivery tells what it has to tell. -/
theorem tells_of_handOut {action : Action} {h : HandOut} (made : w.handOut? action = some h) :
    Tells (w.eased action) h.told (w.act action) := by
  obtain ⟨hmaking, -, hact⟩ := handOut_cases made
  have htells := (tells_deliver w.take h.delivery).trans
    (Quiet.settleCall (w.take.deliver h.delivery))
  rw [← hmaking, List.append_nil] at htells
  rw [eased_of_handOut made, hact]
  exact htells

/-- Every action hands out a delivery, or does not, and then does one such thing. -/
theorem deed_act (w : Watch) (action : Action) :
    Deed (w.eased action) ((w.handOut? action).toList.flatMap HandOut.told) (w.act action) := by
  cases hmade : w.handOut? action with
  | none =>
    rw [eased_of_idle hmade]
    exact deed_of_idle w action hmade
  | some h =>
    rw [Option.toList_some, List.flatMap_singleton]
    exact .tells (tells_of_handOut hmade)

/-! ## First come, first served -/

/-- The deliveries that come to the end of the queue are those that the changes of the records
put there. -/
theorem Tells.pending {calls : List (String × Signal)} (h : Tells w calls v) :
    ∃ changes, v.records = w.records.run changes ∧
      (∀ change ∈ changes, change.isPlain = true) ∧
      v.pending = w.pending ++ w.records.enqueuedIn changes := by
  obtain ⟨changes, hrecords, hplain⟩ := h.records
  refine ⟨changes, hrecords, hplain, ?_⟩
  rw [Watch.pending, hrecords]
  exact Records.pending_run w.records hplain

/-- When a round is closed, all subscribers of the document are to be told, behind what waits. -/
theorem Closes.pending {key : DocumentKey} (h : Closes w v key) :
    v.pending = w.pending ++ w.records.registry.roundDeliveries key := by
  rcases h.records with hr | hr <;> rw [Watch.pending, hr] <;> rfl

/-- When someone joins, nothing but news of its own document comes to wait. -/
theorem Joins.pending {enrolment : Enrolment} (h : Joins w v enrolment) :
    ∃ polls changes,
      let subscribes :=
        .subscribe enrolment.key (w.choice enrolment).callback enrolment.requested polls
      v.records = (w.records.apply subscribes).run changes ∧
      (∀ change ∈ changes, change.isPlain = true) ∧
      v.pending = w.pending ++ (w.records.enqueuedBy subscribes ++
        (w.records.apply subscribes).enqueuedIn changes) := by
  obtain ⟨polls, changes, hrecords, hplain⟩ := h.records
  refine ⟨polls, changes, hrecords, hplain, ?_⟩
  rw [Watch.pending, hrecords, Records.pending_run _ hplain, Records.pending_apply _ (by simp),
    List.append_assoc]
  rfl

/-- Whatever is done, deliveries only come to wait behind those that do. -/
theorem Deed.pending {calls : List (String × Signal)} (h : Deed w calls v) :
    ∃ more, v.pending = w.pending ++ more := by
  cases h with
  | tells tells =>
    obtain ⟨changes, -, -, hpending⟩ := tells.pending
    exact ⟨_, hpending⟩
  | joins enrolment joins =>
    obtain ⟨polls, changes, -, -, hpending⟩ := joins.pending
    exact ⟨_, hpending⟩
  | closes key closes => exact ⟨_, closes.pending⟩

/-- What is done tells these calls, in this order, after all others. -/
theorem Deed.told {calls : List (String × Signal)} (h : Deed w calls v) :
    v.told = w.told ++ calls := by
  cases h with
  | tells tells => exact tells.told
  | joins enrolment joins silent => rw [joins.told, silent, List.append_nil]
  | closes key closes silent => rw [closes.told, silent, List.append_nil]

/-- To take a delivery out changes neither frontiers nor subscribers. -/
theorem agrees_take (w : Watch) : Records.Agrees w.records w.take.records := by
  simp only [take, Records.apply, Records.takeDelivery?]
  cases w.records.queue.pop? <;> exact ⟨fun _ => rfl, rfl⟩

/-- Before its calls are made, a delivery changes neither frontiers nor subscribers. -/
theorem agrees_eased (w : Watch) (action : Action) :
    Records.Agrees w.records (w.eased action).records := by
  unfold eased
  split
  · exact ⟨fun _ => rfl, rfl⟩
  · exact agrees_take w

/-- A round that is closed changes neither frontiers nor subscribers. -/
theorem Closes.agrees {key : DocumentKey} (h : Closes w v key) :
    Records.Agrees w.records v.records := by
  rcases h.records with hr | hr <;> rw [hr] <;> exact ⟨fun _ => rfl, rfl⟩

/-- What arrives are the deliveries, each with what was known when it came to wait. -/
theorem delivery_arriving (w : Watch) (ds : List Delivery) :
    (w.arriving ds).map Arrival.delivery = ds := by
  rw [arriving, List.map_map]
  exact List.map_id ds

/-- Deliveries that arrive later stand behind those that arrived before. -/
theorem deliveries_append_arriving (w : Watch) (arrived : List Arrival) (ds : List Delivery) :
    (arrived ++ w.arriving ds).map Arrival.delivery = arrived.map Arrival.delivery ++ ds := by
  rw [List.map_append, delivery_arriving]

/-- What is known when something arrives does not depend on what is handed out. -/
theorem arriving_eased (w : Watch) (action : Action) (ds : List Delivery) :
    (w.eased action).arriving ds = w.arriving ds :=
  List.map_congr_left fun d _ => by rw [(agrees_eased w action).frontier]

/-- What arrives in an action is what has come behind the deliveries that were left. -/
theorem arrivalsBy_eq {action : Action} {more : List Delivery}
    (h : (w.act action).pending = (w.eased action).pending ++ more) :
    w.arrivalsBy action = (w.eased action).arriving more := by
  have hleft : w.pending.length - (w.handOut? action).toList.length =
      (w.eased action).pending.length := by
    rw [pending_eased w action, List.length_append, List.length_map, Nat.add_sub_cancel_left]
  rw [arrivalsBy, hleft, h, List.drop_left, arriving_eased]

/-- If nothing is handed out, what arrives is what has come to wait. -/
theorem arrivalsBy_of_idle {action : Action} (idle : w.handOut? action = none)
    {more : List Delivery} (h : (w.act action).pending = w.pending ++ more) :
    w.arrivalsBy action = w.arriving more := by
  have heased : w.eased action = w := eased_of_idle idle
  have hpending : (w.act action).pending = (w.eased action).pending ++ more := by
    rw [heased]
    exact h
  rw [arrivalsBy_eq hpending, heased]

/-- After an action those deliveries wait that waited before, and those that arrived. -/
theorem pending_act (w : Watch) (action : Action) :
    (w.act action).pending =
      (w.eased action).pending ++ (w.arrivalsBy action).map Arrival.delivery := by
  obtain ⟨more, hmore⟩ := (deed_act w action).pending
  rw [arrivalsBy_eq hmore, delivery_arriving]
  exact hmore

/-- What arrives in a longer run arrives in its parts, one after the other. -/
theorem arrivals_append (w : Watch) (earlier later : List Action) :
    w.arrivals (earlier ++ later) = w.arrivals earlier ++ (w.run earlier).arrivals later := by
  induction earlier generalizing w with
  | nil => rfl
  | cons action rest ih =>
    rw [List.cons_append, arrivals, ih, arrivals, run_cons, List.append_assoc]

/-- What is handed out in a longer run is handed out in its parts, one after the other. -/
theorem handOuts_append (w : Watch) (earlier later : List Action) :
    w.handOuts (earlier ++ later) = w.handOuts earlier ++ (w.run earlier).handOuts later := by
  induction earlier generalizing w with
  | nil => rfl
  | cons action rest ih =>
    rw [List.cons_append, handOuts, ih, handOuts, run_cons, List.append_assoc]

/-- Deliveries are handed out in the order in which they arrive, and none is lost. -/
theorem pending_run (w : Watch) (actions : List Action) :
    (w.handOuts actions).map HandOut.delivery ++ (w.run actions).pending =
      w.pending ++ (w.arrivals actions).map Arrival.delivery := by
  induction actions generalizing w with
  | nil => simp [handOuts, arrivals]
  | cons action rest ih =>
    rw [handOuts, arrivals, run_cons, List.map_append, List.map_append, List.append_assoc, ih,
      pending_act, pending_eased w action, List.append_assoc, List.append_assoc]

/-- An action in which the end of a round arrives leaves all frontiers as they are. -/
theorem frontier_of_round_arrives (h : w.records.Attuned) {action : Action}
    {callback : CallbackId} {ended : DocumentKey} {slot : Option Edition}
    (hround : ⟨.round callback ended, slot⟩ ∈ w.arrivalsBy action) (key : DocumentKey) :
    (w.act action).records.frontier key = w.records.frontier key := by
  have heased := agrees_eased w action
  have hattuned := heased.attuned h
  have hno {more : List Delivery}
      (hpending : (w.act action).pending = (w.eased action).pending ++ more)
      (hfound : ∀ d ∈ more, ∃ callback found, d = .found callback found) :
      (w.act action).records.frontier key = w.records.frontier key := by
    rw [arrivalsBy_eq hpending] at hround
    obtain ⟨d, hd, he⟩ := List.mem_map.mp hround
    obtain ⟨told, found, rfl⟩ := hfound d hd
    cases he
  cases deed_act w action with
  | tells tells =>
    obtain ⟨changes, -, hplain, hpending⟩ := tells.pending
    exact hno hpending fun d hd => Records.found_of_mem_enqueuedIn hattuned hplain hd
  | joins enrolment joins =>
    obtain ⟨polls, changes, -, hplain, hpending⟩ := joins.pending
    exact hno hpending fun d hd => Records.found_of_mem_subscribe hattuned hplain hd
  | closes other closes => exact (closes.agrees.frontier key).trans (heased.frontier key)

/-- Listeners are told what is handed out, and nothing else. -/
theorem told_run (w : Watch) (actions : List Action) :
    (w.run actions).told = w.told ++ (w.handOuts actions).flatMap HandOut.told := by
  induction actions generalizing w with
  | nil => exact (List.append_nil _).symm
  | cons action rest ih =>
    have heased : (w.eased action).told = w.told := by
      unfold eased
      split <;> rfl
    rw [run_cons, ih, (deed_act w action).told, heased, handOuts, List.flatMap_append,
      List.append_assoc]

end Watch

end EditionWatch
