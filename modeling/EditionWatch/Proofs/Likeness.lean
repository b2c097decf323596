import EditionWatch.Proofs.Deliveries

/-!
# Watches that differ in failures only

What depends on whether calls fail is little of a watch: at which editions listeners fail, how many
deliveries returned, the reports of failures, and the ends of rounds that a failure keeps from a
listener. Two watches that differ only in this resemble each other. Whatever is done to both of
them, they still do, and there is one lemma for each function of a watch that says so; of most
functions all that has to be known is that they do not look at what is left aside.
-/

namespace EditionWatch

namespace Records

/-- The records but for how many deliveries returned. -/
def uncounted (r : Records) : Records :=
  { r with tally := { r.tally with notificationsDelivered := 0 } }

/-- A callback is registered without regard to how many deliveries returned. -/
theorem uncounted_register (r : Records) (key : DocumentKey) (callback : CallbackId)
    (requested : Edition) :
    (r.register key callback requested).uncounted =
      (r.uncounted.register key callback requested).uncounted := by
  have hstanding : (r.uncounted.enrol key callback requested).standing key =
      (r.enrol key callback requested).standing key := rfl
  unfold register
  dsimp only
  rw [hstanding]
  cases (r.enrol key callback requested).standing key <;> rfl

/-- A document is covered without regard to how many deliveries returned. -/
theorem uncounted_cover (r : Records) (key : DocumentKey) (callback : CallbackId) :
    (r.cover key callback).uncounted = (r.uncounted.cover key callback).uncounted := by
  have hcoverage : r.uncounted.coverage key = r.coverage key := rfl
  unfold cover
  rw [hcoverage]
  cases r.coverage key <;> rfl

theorem uncounted_noteSlot (r : Records) (now : Instant) (uri : EditionUri) :
    (r.noteSlot now uri).uncounted = (r.uncounted.noteSlot now uri).uncounted := by
  have hfrontier : r.uncounted.frontier uri.key = r.frontier uri.key := rfl
  unfold noteSlot
  rw [hfrontier]
  cases (r.frontier uri.key).raiseSlot? uri.edition <;> rfl

theorem uncounted_noteGood (r : Records) (now : Instant) (uri : EditionUri) :
    (r.noteGood now uri).uncounted = (r.uncounted.noteGood now uri).uncounted := by
  have hfrontier : r.uncounted.frontier uri.key = r.frontier uri.key := rfl
  unfold noteGood
  rw [hfrontier]
  cases (r.frontier uri.key).raiseGood? uri.edition with
  | none => rfl
  | some rise =>
    dsimp only
    cases rise.slotRose <;> rfl

theorem uncounted_resolve (r : Records) (now : Instant) (key : DocumentKey) (prefetch : Bool) :
    (r.resolve now key prefetch).uncounted =
      (r.uncounted.resolve now key prefetch).uncounted := by
  have hpool : r.uncounted.pool = r.pool := rfl
  have hcache : r.uncounted.cache = r.cache := rfl
  unfold resolve
  rw [hpool, hcache]
  cases r.pool.poller? key <;> cases r.cache.poller? key <;> cases prefetch <;> rfl

theorem uncounted_removePoller (r : Records) (key : DocumentKey) (poller : PollerId)
    (cancelled : Bool) :
    (r.removePoller key poller cancelled).uncounted =
      (r.uncounted.removePoller key poller cancelled).uncounted := by
  have hpool : r.uncounted.pool = r.pool := rfl
  have hcache : r.uncounted.cache = r.cache := rfl
  unfold removePoller
  rw [hpool, hcache]
  dsimp only
  split
  · cases cancelled <;> rfl
  · split
    · cases cancelled <;> rfl
    · rfl

/-- No change depends on how many deliveries returned. -/
theorem uncounted_apply (r : Records) (change : Change) :
    (r.apply change).uncounted = (r.uncounted.apply change).uncounted := by
  cases change with
  | subscribe key callback requested polls =>
    have hregister := uncounted_register r key callback requested
    cases polls with
    | false => exact hregister
    | true =>
      simp only [apply, if_true]
      rw [uncounted_cover, hregister, ← uncounted_cover]
  | noteSlot now uri => exact uncounted_noteSlot r now uri
  | noteGood now uri => exact uncounted_noteGood r now uri
  | resolve now key prefetch => exact uncounted_resolve r now key prefetch
  | removePoller key poller cancelled => exact uncounted_removePoller r key poller cancelled
  | takeDelivery =>
    have hqueue : r.uncounted.queue = r.queue := rfl
    simp only [apply, takeDelivery?]
    rw [hqueue]
    cases r.queue.pop? <;> rfl
  | countVerdict verdict => cases verdict <;> rfl
  | _ => rfl

end Records


/-- A listener as if none of its calls failed. -/
def Listener.steady (l : Listener) : Listener := { l with failsAt := [] }

/-- Whether an event is seen whoever fails: that a call failed is not, and the end of a round may
be lost on the listeners that are `spoilt`. -/
def Event.isFirm (spoilt : String → Bool) : Event → Bool
  | .callFailed => false
  | .round listener _ => !spoilt listener
  | _ => true

namespace Watch

variable {spoilt : String → Bool} {w v w' v' w'' v'' : Watch}

/-- What of a watch does not depend on failures, if some listeners are spoilt. -/
def firm (spoilt : String → Bool) (w : Watch) : Watch :=
  { w with
    records := w.records.uncounted
    listeners := w.listeners.map Listener.steady
    journal := w.journal.filter (Event.isFirm spoilt) }

/-- Two watches differ only in what depends on failures. -/
def Resembles (spoilt : String → Bool) (w v : Watch) : Prop := w.firm spoilt = v.firm spoilt

/-- How the listener of a name takes what it is told: the editions at which it fails, and what it
does about others. Nobody fails or does anything under a name that no listener has. -/
def temper (w : Watch) (name : String) : List Edition × Option Reaction :=
  match w.listener? name with
  | none => ([], none)
  | some l => (l.failsAt, l.reaction)

/-- The listeners of two watches fail at the same editions, but for listeners that do nothing about
editions anyway. -/
def Kin (w v : Watch) : Prop :=
  ∀ name, w.temper name = v.temper name ∨ (w.temper name).2 = none

theorem kin_of_temper (same : w.temper = v.temper) : Kin w v :=
  fun name => .inl (congrFun same name)

/-- The delivery that is taken out is the first of the queue. -/
theorem first_takeDelivery? (w : Watch) :
    w.takeDelivery?.map Prod.fst = w.records.queue.pop?.map Prod.fst := by
  simp only [takeDelivery?, Records.takeDelivery?, Option.map_map]
  rfl

/-- What is seen of a watch does not change its listeners. -/
theorem listener?_log (w : Watch) (event : Event) (name : String) :
    (w.log event).listener? name = w.listener? name := rfl

/-- A listener that does nothing about editions leaves the watch as it is. -/
theorem react_of_none {l : Listener} (idle : l.reaction = none) (found : Found) :
    w.react l found = w := by
  rw [react, idle]
  exact ite_self w

/-- Two watches become two that resemble each other, while listeners keep their temper. -/
structure InStep (spoilt : String → Bool) (w v w' v' : Watch) : Prop where
  /-- What becomes of the two is the same but for failures. -/
  like : Resembles spoilt w' v'
  /-- The listeners of the first take what they are told as before. -/
  left : w'.temper = w.temper
  /-- So do those of the second. -/
  right : v'.temper = v.temper

namespace Resembles

/-- What does not depend on failures is the same in both. -/
theorem same {α : Type} (h : Resembles spoilt w v) (view : Watch → α)
    (blind : ∀ u : Watch, view (u.firm spoilt) = view u) : view w = view v := by
  rw [← blind w, ← blind v, show w.firm spoilt = v.firm spoilt from h]

theorem now (h : Resembles spoilt w v) : w.now = v.now := h.same Watch.now fun _ => rfl

theorem settings (h : Resembles spoilt w v) : w.settings = v.settings :=
  h.same Watch.settings fun _ => rfl

theorem callbacks (h : Resembles spoilt w v) : w.callbacks = v.callbacks :=
  h.same Watch.callbacks fun _ => rfl

/-- Executors of watches that resemble each other take the same work. -/
theorem takes (h : Resembles spoilt w v) (kind : JobKind) : w.takes kind = v.takes kind :=
  h.same (·.takes kind) fun _ => rfl

/-- Of watches that resemble each other, both are held or none is. -/
theorem isAlive (h : Resembles spoilt w v) : w.isAlive = v.isAlive :=
  h.same Watch.isAlive fun _ => rfl

/-- Watches that resemble each other have the same delivery to hand out next. -/
theorem first (h : Resembles spoilt w v) :
    w.takeDelivery?.map Prod.fst = v.takeDelivery?.map Prod.fst := by
  rw [first_takeDelivery?, first_takeDelivery?]
  exact h.same (·.records.queue.pop?.map Prod.fst) fun _ => rfl

/-- Listeners of watches that resemble each other differ in their failures only. -/
theorem listener? (h : Resembles spoilt w v) (name : String) :
    (w.listener? name).map Listener.steady = (v.listener? name).map Listener.steady := by
  refine h.same (fun u => (u.listener? name).map Listener.steady) fun u => ?_
  simp only [Watch.listener?, firm, List.find?_map, Option.map_map]
  rfl

end Resembles

namespace InStep

/-- Watches that stay as they are stay in step. -/
theorem refl (h : Resembles spoilt w v) : InStep spoilt w v w v := ⟨h, rfl, rfl⟩

/-- One thing after the other. -/
theorem andThen (h : InStep spoilt w v w' v')
    (next : Resembles spoilt w' v' → InStep spoilt w' v' w'' v'') :
    InStep spoilt w v w'' v'' where
  like := (next h.like).like
  left := (next h.like).left.trans h.left
  right := (next h.like).right.trans h.right

/-- Listeners that are kin remain so in step. -/
theorem kin (h : InStep spoilt w v w' v') (kin : Kin w v) : Kin w' v' := fun name => by
  rw [h.left, h.right]
  exact kin name

/-- The same is done to both, and has nothing to do with failures. -/
theorem same (h : Resembles spoilt w v) (change : Watch → Watch)
    (blind : ∀ u : Watch, (change u).firm spoilt = change (u.firm spoilt))
    (keeps : ∀ u : Watch, (change u).temper = u.temper) :
    InStep spoilt w v (change w) (change v) where
  like := by
    rw [Resembles, blind, blind, show w.firm spoilt = v.firm spoilt from h]
  left := keeps w
  right := keeps v

/-- Both take the same branch. -/
theorem branch {p q : Prop} [Decidable p] [Decidable q] (same : p ↔ q) {u u' : Watch}
    (yes : InStep spoilt w v w' v') (no : InStep spoilt w v u u') :
    InStep spoilt w v (if p then w' else u) (if q then v' else u') := by
  by_cases hp : p
  · rw [if_pos hp, if_pos (same.mp hp)]
    exact yes
  · rw [if_neg hp, if_neg fun hq => hp (same.mpr hq)]
    exact no

/-- The same change of the records. -/
theorem record (h : Resembles spoilt w v) (change : Records.Change) :
    InStep spoilt w v { w with records := w.records.apply change }
      { v with records := v.records.apply change } := by
  have hfirm (u : Watch) : ({ u with records := u.records.apply change } : Watch).firm spoilt =
      { u.firm spoilt with records := ((u.firm spoilt).records.apply change).uncounted } :=
    congrArg (fun r => { u.firm spoilt with records := r }) (u.records.uncounted_apply change)
  refine ⟨?_, rfl, rfl⟩
  rw [Resembles, hfirm, hfirm, show w.firm spoilt = v.firm spoilt from h]

/-- The same change of the records, as either watch has it. -/
theorem recordSame (h : Resembles spoilt w v) {change change' : Records.Change}
    (same : change = change') :
    InStep spoilt w v { w with records := w.records.apply change }
      { v with records := v.records.apply change' } :=
  same ▸ record h change

/-- The same can be seen. -/
theorem log (h : Resembles spoilt w v) {event event' : Event} (same : event = event') :
    InStep spoilt w v (w.log event) (v.log event') := by
  subst same
  have hfirm (u : Watch) : (u.log event).firm spoilt =
      { u.firm spoilt with
        journal :=
          if event.isFirm spoilt then (u.firm spoilt).journal.push event
          else (u.firm spoilt).journal } := by
    simp only [firm, Watch.log, Array.filter_push]
  refine ⟨?_, rfl, rfl⟩
  rw [Resembles, hfirm, hfirm, show w.firm spoilt = v.firm spoilt from h]

/-- Both watches need a delivery job, or none does. -/
theorem flush (h : Resembles spoilt w v) : InStep spoilt w v w.flush v.flush := by
  have hneeds : w.records.queue.needsJob = v.records.queue.needsJob :=
    h.same (·.records.queue.needsJob) fun _ => rfl
  have hclaim : InStep spoilt w v w.claimJob v.claimJob := record h .claimQueue
  unfold Watch.flush submitJob
  rw [hneeds, hclaim.like.takes]
  split
  · split
    · exact hclaim.andThen fun h =>
        same h (fun u => { u with deliveryJobs := u.deliveryJobs + 1 }.countSubmission)
          (fun _ => rfl) fun _ => rfl
    · exact hclaim
  · exact refl h

theorem noteSlot (h : Resembles spoilt w v) (uri : EditionUri) :
    InStep spoilt w v (w.noteSlot uri) (v.noteSlot uri) :=
  (recordSame h (congrArg (Records.Change.noteSlot · uri) h.now)).andThen flush

/-- Both watches are given up for good, or none is. -/
theorem reap (h : Resembles spoilt w v) : InStep spoilt w v w.reap v.reap := by
  unfold Watch.reap
  rw [h.isAlive]
  split
  · exact refl h
  · exact same h (fun u => { u with stopped := true, records := u.records.forgetPollers })
      (fun _ => rfl) fun _ => rfl

theorem noteGood (h : Resembles spoilt w v) (uri : EditionUri) :
    InStep spoilt w v (w.noteGood uri) (v.noteGood uri) :=
  (recordSame h (congrArg (Records.Change.noteGood · uri) h.now)).andThen flush

theorem noteFetched (h : Resembles spoilt w v) (uri : EditionUri) (metadata : Bool) :
    InStep spoilt w v (w.noteFetched uri metadata) (v.noteFetched uri metadata) := by
  cases metadata with
  | true => exact noteSlot h uri
  | false => exact noteGood h uri

theorem release (h : Resembles spoilt w v) : InStep spoilt w v w.release v.release :=
  (same h (fun u => { u with held := false }) (fun _ => rfl) fun _ => rfl).andThen reap

/-- The same pollers are cancelled in both watches. -/
theorem cancelPollers (h : Resembles spoilt w v) (ids : List PollerId) :
    InStep spoilt w v (w.cancelPollers ids) (v.cancelPollers ids) := by
  rw [cancelPollers_eq, cancelPollers_eq]
  exact same h (fun u => { u with pollers := Roster.cancelAll ids u.pollers }) (fun _ => rfl)
    fun _ => rfl

theorem unsubscribe (h : Resembles spoilt w v) (s : Subscription) :
    InStep spoilt w v (w.unsubscribe s) (v.unsubscribe s) := by
  have hidle : w.records.idleWithout s.key s.callback = v.records.idleWithout s.key s.callback :=
    h.same (·.records.idleWithout s.key s.callback) fun _ => rfl
  unfold Watch.unsubscribe
  rw [hidle]
  exact (record h (.unsubscribe s.key s.callback)).andThen (cancelPollers · _)

theorem unsubscribeContent (h : Resembles spoilt w v) (s : ContentSubscription) :
    InStep spoilt w v (w.unsubscribeContent s) (v.unsubscribeContent s) :=
  (unsubscribe h s.inner).andThen fun h => same h (·.cancelFeed s.feed) (fun _ => rfl) fun _ => rfl

theorem modifyPoller (h : Resembles spoilt w v) (id : PollerId) (change : Poller → Poller) :
    InStep spoilt w v (w.modifyPoller id change) (v.modifyPoller id change) :=
  same h (·.modifyPoller id change) (fun _ => rfl) fun _ => rfl

/-- Equal pollers are taken by both executors, or by none. -/
theorem submitPoller (h : Resembles spoilt w v) {poller poller' : Poller}
    (equal : poller = poller') (evicted : List PollerId) :
    InStep spoilt w v (w.submitPoller poller evicted) (v.submitPoller poller' evicted) := by
  subst equal
  have hmade : w.pollers = v.pollers := h.same Watch.pollers fun _ => rfl
  have hlog := log h (congrArg (fun made => Event.pollerSubmitted made.length poller.key) hmade)
  unfold Watch.submitPoller
  dsimp only
  rw [hlog.like.takes]
  split
  · exact hlog.andThen fun h => same h
      (fun u =>
        { u with
          pollers := u.pollers ++ [{ poller with stage := .submitted evicted }] }.countSubmission)
      (fun _ => rfl) fun _ => rfl
  · exact hlog.andThen fun h => same h
      (fun u => { u with pollers := u.pollers ++ [{ poller with stage := .ended }] })
      (fun _ => rfl) fun _ => rfl

/-! ## Subscriptions -/

/-- A subscription finds the same poller, or none, in both watches. -/
theorem attach (h : Resembles spoilt w v) (key : DocumentKey) (callback : CallbackId)
    (options : SubscribeOptions) :
    InStep spoilt w v (w.attach key callback options) (v.attach key callback options) := by
  have hrecord (polls : Bool) := record h (.subscribe key callback options.requested polls)
  unfold Watch.attach
  cases options.polls with
  | false => exact (hrecord false).andThen flush
  | true =>
    have hcoverage : (w.records.register key callback options.requested).coverage key =
        (v.records.register key callback options.requested).coverage key :=
      h.same (fun u => (u.records.register key callback options.requested).coverage key)
        fun u => (congrArg (Records.coverage · key)
          (u.records.uncounted_register key callback options.requested)).symm
    simp only [if_true, Watch.cover]
    rw [hcoverage]
    cases (v.records.register key callback options.requested).coverage key with
    | joined => exact (hrecord true).andThen flush
    | promoted poller =>
      exact ((hrecord true).andThen (modifyPoller · poller (·.send .pollForever))).andThen flush
    | started poller =>
      have hpoller := congrArg (Poller.create · key options.requested .forever) h.settings
      exact ((hrecord true).andThen flush).andThen fun h => submitPoller h hpoller _

/-- A target gets the same callback in both watches. -/
theorem callbackFor (h : Resembles spoilt w v) (target : Target) (sparse : Bool) :
    (w.callbackFor target sparse).callback = (v.callbackFor target sparse).callback ∧
      InStep spoilt w v (w.callbackFor target sparse).watch
        (v.callbackFor target sparse).watch := by
  have hmake (gate : Option SparseGate) :
      InStep spoilt w v (w.makeCallback gate target).watch (v.makeCallback gate target).watch :=
    same h (fun u => (u.makeCallback gate target).watch) (fun _ => rfl) fun _ => rfl
  have hnumber (gate : Option SparseGate) :
      (w.makeCallback gate target).callback = (v.makeCallback gate target).callback :=
    congrArg List.length h.callbacks
  unfold Watch.callbackFor
  split
  · exact ⟨hnumber _, hmake _⟩
  · rw [h.callbacks]
    split
    · exact ⟨rfl, refl h⟩
    · exact ⟨hnumber _, hmake _⟩

/-- A target gets the same subscription in both watches. -/
theorem subscribeTarget (h : Resembles spoilt w v) (key : DocumentKey) (target : Target)
    (options : SubscribeOptions) :
    (w.subscribeTarget key target options).subscription =
        (v.subscribeTarget key target options).subscription ∧
      InStep spoilt w v (w.subscribeTarget key target options).watch
        (v.subscribeTarget key target options).watch := by
  obtain ⟨hcallback, hchoice⟩ := callbackFor h target options.sparse
  unfold Watch.subscribeTarget
  dsimp only
  rw [hcallback]
  exact ⟨rfl, hchoice.andThen fun h => attach h key _ options⟩

/-- A listener that is new neither fails nor reacts, just as if it were not there. -/
theorem temper_addListener (w : Watch) (name : String) :
    (w.addListener name).temper = w.temper := by
  unfold Watch.addListener
  split
  · rfl
  case isFalse hnew =>
    funext other
    unfold temper listener?
    dsimp only
    rw [List.find?_append]
    cases hfind : w.listeners.find? fun l => l.name = other with
    | some l => rfl
    | none =>
      rw [Option.none_or, List.find?_singleton]
      by_cases hname : name = other <;> simp [hname]

/-- A listener is added to both watches, or was there in both. -/
theorem addListener (h : Resembles spoilt w v) (name : String) :
    InStep spoilt w v (w.addListener name) (v.addListener name) := by
  refine ⟨?_, temper_addListener w name, temper_addListener v name⟩
  have hfirm (u : Watch) : (u.addListener name).firm spoilt = (u.firm spoilt).addListener name := by
    have hsame : ((u.firm spoilt).listeners.any fun l => l.name = name) =
        u.listeners.any fun l => l.name = name := List.any_map
    unfold Watch.addListener
    rw [hsame]
    split
    · rfl
    · simp only [firm, List.map_append]
      rfl
  rw [Resembles, hfirm, hfirm, show w.firm spoilt = v.firm spoilt from h]

/-- The latest subscription of a listener has nothing to do with its temper. -/
theorem temper_modifyListener (w : Watch) (name : String) (s : Option Subscription) :
    (w.modifyListener name fun l => { l with subscription := s }).temper = w.temper := by
  funext other
  have hname : (fun l : Listener => decide (l.name = other)) ∘
      (fun l => if l.name = name then { l with subscription := s } else l) =
        fun l => decide (l.name = other) := by
    funext l
    rw [Function.comp_apply]
    split <;> rfl
  unfold temper listener? Watch.modifyListener
  dsimp only
  rw [List.find?_map, hname]
  cases w.listeners.find? fun l => l.name = other with
  | none => rfl
  | some l =>
    by_cases hl : l.name = name <;> simp [hl]

/-- The subscription of a listener has nothing to do with its failures. -/
theorem modifyListener (h : Resembles spoilt w v) (name : String) (s : Option Subscription) :
    InStep spoilt w v (w.modifyListener name fun l => { l with subscription := s })
      (v.modifyListener name fun l => { l with subscription := s }) := by
  refine ⟨?_, temper_modifyListener w name s, temper_modifyListener v name s⟩
  have hfirm (u : Watch) :
      (u.modifyListener name fun l => { l with subscription := s }).firm spoilt =
        (u.firm spoilt).modifyListener name fun l => { l with subscription := s } := by
    simp only [Watch.modifyListener, firm, List.map_map]
    congr 1
    refine List.map_congr_left fun l _ => ?_
    simp only [Function.comp_apply, apply_ite Listener.steady]
    rfl
  rw [Resembles, hfirm, hfirm, show w.firm spoilt = v.firm spoilt from h]

theorem subscribe (h : Resembles spoilt w v) (key : DocumentKey) (name : String)
    (options : SubscribeOptions) :
    InStep spoilt w v (w.perform (.subscribe key name options))
      (v.perform (.subscribe key name options)) := by
  cases hp : options.persistent with
  | true =>
    simp only [perform, Watch.subscribe, hp, if_true]
    exact refl h
  | false =>
    have hadd := addListener h name
    obtain ⟨hsubscription, hjoined⟩ := subscribeTarget hadd.like key (.listener name) options
    simp only [perform, Watch.subscribe, hp, Bool.false_eq_true, if_false]
    rw [hsubscription]
    exact (hadd.andThen fun _ => hjoined).andThen fun h => modifyListener h name _

theorem subscribeContent (h : Resembles spoilt w v) (key : DocumentKey) (name : String)
    (quiet : Bool) (options : SubscribeOptions) :
    InStep spoilt w v (w.perform (.subscribeContent key name quiet options))
      (v.perform (.subscribeContent key name quiet options)) := by
  have hnumber : w.feeds.length = v.feeds.length := h.same (·.feeds.length) fun _ => rfl
  cases hp : options.persistent with
  | true =>
    simp only [perform, Watch.subscribeContent, hp, if_true]
    exact refl h
  | false =>
    have hfeed := same h (fun u => { u with feeds := u.feeds ++ [ContentFeed.fresh name quiet] })
      (fun _ => rfl) fun _ => rfl
    simp only [perform, Watch.subscribeContent, hp, Bool.false_eq_true, if_false]
    rw [hnumber]
    exact hfeed.andThen fun h => (subscribeTarget h key _ _).2

/-- A lookup is served by the same poller in both watches. -/
theorem resolve (h : Resembles spoilt w v) (uri : EditionUri) (prefetch : Bool) :
    (w.resolve uri prefetch).poller = (v.resolve uri prefetch).poller ∧
      InStep spoilt w v (w.resolve uri prefetch).watch (v.resolve uri prefetch).watch := by
  have hlookup : w.records.lookup uri.key = v.records.lookup uri.key :=
    h.same (·.records.lookup uri.key) fun _ => rfl
  have hrecord := recordSame h (congrArg (Records.Change.resolve · uri.key prefetch) h.now)
  unfold Watch.resolve
  dsimp only
  rw [hlookup]
  cases v.records.lookup uri.key with
  | hinted poller => exact ⟨rfl, hrecord.andThen fun h => modifyPoller h poller _⟩
  | started poller evicted =>
    have hpoller := congrArg (Poller.create · uri.key uri.edition .once) h.settings
    exact ⟨rfl, hrecord.andThen fun h => submitPoller h hpoller _⟩

/-! ## Errands, hints and the end -/

/-- An errand is taken by both executors, or by none. -/
theorem submitErrand (h : Resembles spoilt w v) (kind : JobKind) (purpose : Purpose)
    (uri : EditionUri) :
    InStep spoilt w v (w.submitErrand kind purpose uri) (v.submitErrand kind purpose uri) := by
  unfold Watch.submitErrand
  rw [h.takes]
  split
  · exact same h (fun u => (u.addErrand purpose uri).countSubmission) (fun _ => rfl) fun _ => rfl
  · exact refl h

theorem hint (h : Resembles spoilt w v) (uri : EditionUri) :
    InStep spoilt w v (w.hint uri) (v.hint uri) := by
  have hslot : (w.records.frontier uri.key).slot = (v.records.frontier uri.key).slot :=
    h.same (fun u => (u.records.frontier uri.key).slot) fun _ => rfl
  unfold Watch.hint
  rw [hslot]
  split
  · split
    · exact refl h
    · exact submitErrand h _ _ uri
  · exact submitErrand h _ _ uri

theorem shutdown (h : Resembles spoilt w v) : InStep spoilt w v w.shutdown v.shutdown := by
  have hpollers : w.records.pollers = v.records.pollers :=
    h.same (·.records.pollers) fun _ => rfl
  unfold Watch.shutdown
  dsimp only
  rw [hpollers]
  exact (same h (fun u => { u with stopped := true, records := u.records.removePollers })
    (fun _ => rfl) fun _ => rfl).andThen (cancelPollers · _)

/-! ## Polling -/

theorem setStage (h : Resembles spoilt w v) (id : PollerId) (stage : Poller.Stage) :
    InStep spoilt w v (w.setStage id stage) (v.setStage id stage) := modifyPoller h id _

theorem finishPoller (h : Resembles spoilt w v) (id : PollerId) :
    InStep spoilt w v (w.finishPoller id) (v.finishPoller id) := modifyPoller h id _

theorem endPoller (h : Resembles spoilt w v) (id : PollerId) (key : DocumentKey)
    (cancelled : Bool) :
    InStep spoilt w v (w.endPoller id key cancelled).watch
      (v.endPoller id key cancelled).watch := by
  have hset := finishPoller h id
  have hindexes : (w.finishPoller id).records.indexes key id =
      (v.finishPoller id).records.indexes key id :=
    hset.like.same (·.records.indexes key id) fun _ => rfl
  unfold Watch.endPoller
  dsimp only
  rw [hset.like.isAlive, hindexes]
  split
  · exact (hset.andThen (record · (.removePoller key id cancelled))).andThen
      (modifyPoller · id Poller.cancel)
  · exact hset

theorem countVerdict (h : Resembles spoilt w v) (verdict : Verdict) :
    InStep spoilt w v { w with records := w.records.countVerdict verdict }
      { v with records := v.records.countVerdict verdict } :=
  record h (.countVerdict verdict)

/-- A reply means the same to both watches. -/
theorem takeReply (h : Resembles spoilt w v) (id : PollerId) (key : DocumentKey) (round : Round)
    (reply : Reply) :
    InStep spoilt w v (w.takeReply id key round reply).watch
      (v.takeReply id key round reply).watch := by
  have hcount := countVerdict h reply.verdict
  have hraises (e : Edition) :
      (w.records.countVerdict reply.verdict).raisesSlot ⟨key, e⟩ =
        (v.records.countVerdict reply.verdict).raisesSlot ⟨key, e⟩ :=
    hcount.like.same (·.records.raisesSlot ⟨key, e⟩) fun _ => rfl
  have hset (stage : Poller.Stage) := hcount.andThen (setStage · id stage)
  have hgone := hcount.andThen (finishPoller · id)
  have hnoted (e : Edition) (stage : Poller.Stage) :=
    (hcount.andThen (noteSlot · ⟨key, e⟩)).andThen (setStage · id stage)
  unfold Watch.takeReply
  split
  · dsimp only
    rw [hcount.like.isAlive, hraises]
    split
    · split
      · exact hnoted _ _
      · exact hgone
    · exact hset _
  · dsimp only
    rw [hcount.like.isAlive, hraises]
    split
    · split
      · exact hnoted _ _
      · exact hgone
    · exact hset _
  · dsimp only
    rw [h.isAlive]
    split
    · exact (noteGood h _).andThen (setStage · id _)
    · exact setStage h id _
  · exact setStage h id _

/-- The network gives both watches the same flight. -/
theorem issue (h : Resembles spoilt w v) (request : Request) :
    (w.issue request).flight = (v.issue request).flight ∧
      InStep spoilt w v (w.issue request).watch (v.issue request).watch := by
  have hnetwork : w.network = v.network := h.same Watch.network fun _ => rfl
  have hlog := log h (congrArg (Event.fetched · request) h.now)
  have hrelease {probed probed' : Watch} (hp : InStep spoilt w v probed probed')
      (hnetwork : probed.network = probed'.network) :
      InStep spoilt w v (if probed.network.releases request then probed.release else probed)
        (if probed'.network.releases request then probed'.release else probed') := by
    rw [hnetwork]
    split
    · exact hp.andThen release
    · exact hp
  refine ⟨?_, ?_⟩
  · unfold Watch.issue
    dsimp only
    rw [hnetwork, h.now]
  · unfold Watch.issue
    dsimp only
    cases request.kind with
    | block => exact hrelease (hlog.andThen (record · .countProbe)) hnetwork
    | content => exact hrelease hlog hnetwork

theorem sendRequest (h : Resembles spoilt w v) (id : PollerId) (key : DocumentKey) (round : Round)
    (request : Request) :
    InStep spoilt w v (w.sendRequest id key round request).watch
      (v.sendRequest id key round request).watch := by
  obtain ⟨hflight, hissue⟩ := issue h request
  unfold Watch.sendRequest
  dsimp only
  rw [hflight, h.now]
  split
  · exact hissue.andThen (takeReply · id key round _)
  · exact hissue.andThen (setStage · id _)

/-- A poller rests until the same time in both. -/
theorem restUntil (h : Resembles spoilt w v) (id : PollerId) (p : Poller) {wake wake' : Instant}
    (equal : wake = wake') :
    InStep spoilt w v (w.rest id p (some wake)).watch (v.rest id p (some wake')).watch :=
  equal ▸ setStage h id _

/-- A round ends with the same pause in both watches. -/
theorem closeRound (h : Resembles spoilt w v) (id : PollerId) (p : Poller) (found : Bool) :
    InStep spoilt w v (w.closeRound id p found).watch (v.closeRound id p found).watch := by
  let counted (u : Watch) : Watch :=
    { u with records := u.records.countRound }.modifyPoller id fun p =>
      { p with rounds := p.rounds + 1 }
  let closed (u : Watch) : Watch :=
    { counted u with records := (counted u).records.finishRound p.key }.flush
  have hcounted : InStep spoilt w v (counted w) (counted v) :=
    (record h .countRound).andThen (modifyPoller · id _)
  have hclosed : InStep spoilt w v (closed w) (closed v) :=
    (hcounted.andThen (record · (.finishRound p.key))).andThen flush
  have halive : (counted w).isAlive = true ↔ (counted v).isAlive = true := by
    rw [hcounted.like.isAlive]
  have hpause := congrArg (Backoff.pause? · p.backoff found) hclosed.like.settings
  unfold Watch.closeRound
  dsimp only
  simp only [apply_ite Turn.watch]
  refine branch halive ?_ (hcounted.andThen (finishPoller · id))
  cases p.mode with
  | once => exact hclosed.andThen (setStage · id _)
  | forever =>
    dsimp only
    -- The pause is the same in both, so two of the four cases cannot be.
    split
    case h_1 hw =>
      split
      case h_1 => exact hclosed.andThen (finishPoller · id)
      case h_2 pause hv => exact absurd (hw.symm.trans (hpause.trans hv)) nofun
    case h_2 pause hw =>
      split
      case h_1 hv => exact absurd (hw.symm.trans (hpause.trans hv)) nofun
      case h_2 pause' hv =>
        obtain rfl : pause = pause' := Option.some.inj (hw.symm.trans (hpause.trans hv))
        exact (hclosed.andThen (modifyPoller · id _)).andThen fun h =>
          restUntil h id p (congrArg (· + pause.wait.nanoseconds) h.now)

/-- A round goes on alike in both watches. -/
theorem stepRound (h : Resembles spoilt w v) (id : PollerId) (p : Poller) (round : Round) :
    InStep spoilt w v (w.stepRound id p round).watch (v.stepRound id p round).watch := by
  have hfrontier : w.records.frontier p.key = v.records.frontier p.key :=
    h.same (·.records.frontier p.key) fun _ => rfl
  have hset (stage : Poller.Stage) :
      InStep spoilt w v (w.setStage id stage) (v.setStage id stage) := setStage h id stage
  have hgone : InStep spoilt w v (w.abandon id).watch (v.abandon id).watch := finishPoller h id
  unfold Watch.stepRound
  rw [hfrontier, h.settings, h.isAlive]
  cases round with
  | hinting hints =>
    cases hints with
    | nil => exact hset _
    | cons e hints =>
      dsimp only
      split
      · exact hset _
      · exact hgone
  | «over» found => exact closeRound h id p found
  | askingHint e hints => exact sendRequest h id p.key _ _
  | asking found e misses probes => exact sendRequest h id p.key _ _
  | fetching slot => exact sendRequest h id p.key _ _
  | walking found e misses probes => exact hset _
  | confirming => exact hset _
  | opening hints =>
    dsimp only
    split
    · exact hset _
    · exact hgone
  | aligning found =>
    dsimp only
    split
    · exact hset _
    · exact hgone

/-- A poller takes the same turn in both watches. -/
theorem stepPoller (h : Resembles spoilt w v) (id : PollerId) :
    InStep spoilt w v (w.stepPoller id).watch (v.stepPoller id).watch := by
  have hpoller : w.pollers[id]? = v.pollers[id]? := h.same (·.pollers[id]?) fun _ => rfl
  unfold Watch.stepPoller
  rw [hpoller]
  cases v.pollers[id]? with
  | none => exact refl h
  | some p =>
    have hcancelled : w.isCancelled p = v.isCancelled p := h.same (·.isCancelled p) fun _ => rfl
    have hreferred : w.isReferred id = v.isReferred id := h.same (·.isReferred id) fun _ => rfl
    dsimp only
    cases p.stage with
    | submitted evicted =>
      have hbegun := (setStage h id (.resting none)).andThen (cancelPollers · evicted)
      have hcancelled := hbegun.like.same (·.isCancelled p) fun _ => rfl
      dsimp only
      rw [hcancelled]
      split
      · exact hbegun.andThen (endPoller · id p.key true)
      · exact hbegun.andThen (modifyPoller · id _)
    | rounding round => exact stepRound h id p round
    | waiting round flight =>
      dsimp only
      rw [hcancelled, h.now]
      split
      · exact endPoller h id p.key true
      · split
        · exact refl h
        · exact takeReply h id p.key round _
    | resting wake =>
      have hdue : w.isDue wake = v.isDue wake := h.same (·.isDue wake) fun _ => rfl
      dsimp only
      rw [hcancelled, hreferred, hdue, h.settings]
      split
      · exact endPoller h id p.key true
      · split
        · exact (modifyPoller h id _).andThen (modifyPoller · id _)
        · split
          · exact endPoller h id p.key false
          · split
            · exact modifyPoller h id _
            · exact refl h
    | ended => exact refl h

/-- A poller wakes in both watches, or in none. -/
theorem wake (h : Resembles spoilt w v) (id : PollerId) :
    InStep spoilt w v (w.wake id) (v.wake id) := by
  have hpoller : w.pollers[id]? = v.pollers[id]? := h.same (·.pollers[id]?) fun _ => rfl
  unfold Watch.wake
  rw [hpoller]
  cases v.pollers[id]? with
  | none => exact refl h
  | some p =>
    have hcancelled : w.isCancelled p = v.isCancelled p := h.same (·.isCancelled p) fun _ => rfl
    dsimp only
    cases p.stage with
    | resting due =>
      have hdue : w.isDue due = v.isDue due := h.same (·.isDue due) fun _ => rfl
      dsimp only
      rw [hcancelled, hdue]
      split
      · exact modifyPoller h id _
      · exact refl h
    | _ => exact refl h

/-! ## Errands and the sweeper -/

theorem dismiss (h : Resembles spoilt w v) (id : Nat) :
    InStep spoilt w v (w.dismiss id) (v.dismiss id) :=
  (same h (fun u => { u with errands := u.errands.filter fun errand => errand.id ≠ id })
    (fun _ => rfl) fun _ => rfl).andThen reap

/-- Content reaches the same listener in both watches. -/
theorem bringContent (h : Resembles spoilt w v) (feed : ContentFeed) (uri : EditionUri)
    (reply : Reply) :
    InStep spoilt w v (w.bringContent feed uri reply) (v.bringContent feed uri reply) := by
  unfold Watch.bringContent
  cases reply with
  | data =>
    dsimp only
    rw [h.isAlive]
    split
    · exact (noteGood h uri).andThen (log · rfl)
    · exact log h rfl
  | fault cause =>
    dsimp only
    split
    · exact refl h
    · exact log h rfl

/-- An errand concludes alike in both watches. -/
theorem conclude (h : Resembles spoilt w v) (errand : Errand) (reply : Reply) :
    InStep spoilt w v (w.conclude errand reply) (v.conclude errand reply) := by
  have hcount := countVerdict h reply.verdict
  have hprobed {u u' : Watch} (h : InStep spoilt w v u u') :
      InStep spoilt w v { u with probed := some reply.verdict }
        { u' with probed := some reply.verdict } :=
    h.andThen fun h =>
      same h (fun u => { u with probed := some reply.verdict }) (fun _ => rfl) fun _ => rfl
  unfold Watch.conclude
  dsimp only
  cases errand.purpose with
  | hint =>
    dsimp only
    split
    · exact hcount.andThen (noteSlot · _)
    · exact hcount
  | check listener =>
    dsimp only
    split
    · exact (hcount.andThen (noteSlot · _)).andThen (log · rfl)
    · exact hcount.andThen (log · rfl)
  | probe good =>
    dsimp only
    split
    · split
      · exact hprobed (hcount.andThen (noteGood · _))
      · exact hprobed (hcount.andThen (noteSlot · _))
    · exact hprobed hcount
  | prefetch =>
    dsimp only
    rw [h.isAlive]
    split
    · exact (record h .countPrefetched).andThen (noteGood · _)
    · exact refl h
  | retrieval id =>
    have hfeed : w.feeds[id]? = v.feeds[id]? := h.same (·.feeds[id]?) fun _ => rfl
    dsimp only
    rw [hfeed]
    split
    · exact refl h
    · exact bringContent h _ _ reply

theorem beginErrand (h : Resembles spoilt w v) (errand : Errand) :
    InStep spoilt w v (w.beginErrand errand).watch (v.beginErrand errand).watch := by
  obtain ⟨hflight, hissue⟩ := issue h ⟨errand.purpose.fetches, errand.uri⟩
  have hpointless := hissue.like.same (·.isPointless errand) fun _ => rfl
  have hanswer := congr (congrArg Flight.answer hflight) hissue.like.now
  unfold Watch.beginErrand
  dsimp only
  rw [hpointless, hanswer, hflight]
  split
  · exact hissue.andThen (dismiss · _)
  · split
    · exact (hissue.andThen (conclude · errand _)).andThen (dismiss · _)
    · let depart (e : Errand) : Errand :=
        if e.id = errand.id then
          { e with flight := some (v.issue ⟨errand.purpose.fetches, errand.uri⟩).flight }
        else e
      exact hissue.andThen fun h =>
        same h (fun u => { u with errands := u.errands.map depart }) (fun _ => rfl) fun _ => rfl

/-- An errand takes the same turn in both watches. -/
theorem stepErrand (h : Resembles spoilt w v) (id : Nat) :
    InStep spoilt w v (w.stepErrand id).watch (v.stepErrand id).watch := by
  have herrands : w.errands = v.errands := h.same Watch.errands fun _ => rfl
  unfold Watch.stepErrand
  rw [herrands]
  split
  · exact refl h
  case h_2 errand _ =>
    have hpointless : w.isPointless errand = v.isPointless errand :=
      h.same (·.isPointless errand) fun _ => rfl
    rw [hpointless, h.now]
    split
    · exact beginErrand h errand
    · split
      · exact dismiss h id
      · split
        · exact refl h
        · exact (conclude h errand _).andThen (dismiss · id)

theorem probe (h : Resembles spoilt w v) (uri : EditionUri) (good : Bool) :
    InStep spoilt w v (w.probe uri good) (v.probe uri good) := by
  let sent (u : Watch) : Watch := { u with probed := none }.addErrand (.probe good) uri
  have hprobe (u : Watch) : u.probe uri good = ((sent u).stepErrand u.errandsSent).watch := rfl
  have hsent : w.errandsSent = v.errandsSent := h.same Watch.errandsSent fun _ => rfl
  rw [hprobe, hprobe, hsent]
  exact (same h sent (fun _ => rfl) fun _ => rfl).andThen (stepErrand · _)

theorem dropProbe (h : Resembles spoilt w v) : InStep spoilt w v w.dropProbe v.dropProbe := by
  have hkeep (keeps : Errand → Bool) :
      InStep spoilt w v { w with errands := w.errands.filter keeps }
        { v with errands := v.errands.filter keeps } :=
    same h (fun u => { u with errands := u.errands.filter keeps }) (fun _ => rfl) fun _ => rfl
  exact (hkeep _).andThen reap

/-- The same marks are stale in both watches. -/
theorem sweep (h : Resembles spoilt w v) : InStep spoilt w v w.sweep v.sweep := by
  have hsend (due : List EditionUri) {u u' : Watch} (h : Resembles spoilt u u') :
      InStep spoilt u u' (due.foldl (fun w uri => w.submitErrand .prefetch .prefetch uri) u)
        (due.foldl (fun w uri => w.submitErrand .prefetch .prefetch uri) u') := by
    induction due generalizing u u' with
    | nil => exact refl h
    | cons uri rest ih => exact (submitErrand h _ _ uri).andThen ih
  have hdue : w.records.dueForPrefetch w.now w.settings.prefetchDelay.nanoseconds =
      v.records.dueForPrefetch v.now v.settings.prefetchDelay.nanoseconds :=
    h.same (fun u => u.records.dueForPrefetch u.now u.settings.prefetchDelay.nanoseconds)
      fun _ => rfl
  have hchange : Records.Change.sweep w.now w.settings.prefetchDelay.nanoseconds =
      .sweep v.now v.settings.prefetchDelay.nanoseconds := by rw [h.now, h.settings]
  unfold Watch.sweep
  dsimp only
  rw [hdue]
  exact (recordSame h hchange).andThen (hsend _)

theorem stepSweeper (h : Resembles spoilt w v) :
    InStep spoilt w v w.stepSweeper.watch v.stepSweeper.watch := by
  have hsweeper : w.sweeper = v.sweeper := h.same Watch.sweeper fun _ => rfl
  have hstopped : w.stopped = true ↔ v.stopped = true := by
    rw [h.same Watch.stopped fun _ => rfl]
  have hend : InStep spoilt w v { w with sweeper := .ended } { v with sweeper := .ended } :=
    same h (fun u => { u with sweeper := .ended }) (fun _ => rfl) fun _ => rfl
  have hsleep {u u' : Watch} (h : Resembles spoilt u u') :
      InStep spoilt u u' u.sleepSweeper u'.sleepSweeper :=
    same h Watch.sleepSweeper (fun _ => rfl) fun _ => rfl
  unfold Watch.stepSweeper
  rw [hsweeper]
  cases v.sweeper with
  | ended => exact refl h
  | submitted =>
    simp only [apply_ite Turn.watch]
    exact branch hstopped hend (hsleep h)
  | sleeping wake =>
    have hdue : wake ≤ w.now ↔ wake ≤ v.now := by rw [h.now]
    simp only [apply_ite Turn.watch]
    exact branch hstopped hend (branch hdue ((sweep h).andThen hsleep) (refl h))

/-- A job breaks down in both watches, or in none. -/
theorem crash (h : Resembles spoilt w v) (job : Job) :
    InStep spoilt w v (w.crash job) (v.crash job) := by
  have hpollers : w.pollers = v.pollers := h.same Watch.pollers fun _ => rfl
  have herrands : w.errands = v.errands := h.same Watch.errands fun _ => rfl
  unfold Watch.crash
  rw [hpollers, herrands]
  split
  · split
    · exact finishPoller h _
    · exact refl h
  · split
    · exact dismiss h _
    · exact refl h
  · exact refl h

/-! ## Actions that hand out nothing -/

/-- A job that hands nothing out takes the same turn in both watches. -/
theorem takeTurn (h : Resembles spoilt w v) {job : Job} (idle : w.handOut? (.work job) = none) :
    InStep spoilt w v (w.takeTurn job) (v.takeTurn job) := by
  cases job with
  | sweeper => exact stepSweeper h
  | poller id => exact stepPoller h id
  | errand id => exact stepErrand h id
  | delivery =>
    have hjobs : w.deliveryJobs = v.deliveryJobs := h.same Watch.deliveryJobs fun _ => rfl
    have hfirst := h.first
    unfold handOut? at idle
    dsimp only at idle
    unfold Watch.takeTurn
    dsimp only
    rw [hjobs] at idle ⊢
    split
    case isFalse => exact refl h
    case isTrue hjob =>
      rw [if_pos hjob, Option.map_eq_none_iff] at idle
      have hnone : v.takeDelivery? = none := by
        rw [idle] at hfirst
        exact Option.map_eq_none_iff.mp hfirst.symm
      rw [deliverNext, deliverNext, idle, hnone]
      exact (record h .releaseQueue).andThen fun h =>
        same h (fun u => { u with deliveryJobs := u.deliveryJobs - 1 }) (fun _ => rfl) fun _ => rfl

/-- An action that hands nothing out does the same in both watches. -/
theorem perform (h : Resembles spoilt w v) {action : Action} (idle : w.handOut? action = none) :
    InStep spoilt w v (w.perform action) (v.perform action) := by
  cases action with
  | work job => exact takeTurn h idle
  | wake id => exact wake h id
  | crash job => exact crash h job
  | elapse span =>
    exact same h (fun u => { u with now := u.now + span }) (fun _ => rfl) fun _ => rfl
  | setNetwork network =>
    exact same h (fun u => { u with network := network }) (fun _ => rfl) fun _ => rfl
  | refuse kinds => exact same h (fun u => { u with refused := kinds }) (fun _ => rfl) fun _ => rfl
  | letGo name => exact same h (·.letGo name) (fun _ => rfl) fun _ => rfl
  | dropProbe => exact dropProbe h
  | release => exact release h
  | subscribe key name options => exact subscribe h key name options
  | unsubscribe subscription => exact unsubscribe h subscription
  | subscribeContent key name quiet options => exact subscribeContent h key name quiet options
  | unsubscribeContent subscription => exact unsubscribeContent h subscription
  | noteSlot uri => exact noteSlot h uri
  | noteGood uri => exact noteGood h uri
  | noteFetched uri metadata => exact noteFetched h uri metadata
  | resolve uri prefetch name =>
    obtain ⟨hpoller, hresolve⟩ := resolve h uri prefetch
    simp only [Watch.perform]
    rw [hpoller]
    exact hresolve.andThen fun h => same h (·.bind name _) (fun _ => rfl) fun _ => rfl
  | probe uri good => exact probe h uri good
  | hint uri => exact hint h uri
  | check uri listener => exact submitErrand h _ _ uri
  | shutdown => exact shutdown h

/-- An action that hands nothing out keeps both watches in step, ignored or not. -/
theorem act (h : Resembles spoilt w v) {action : Action} (idle : w.handOut? action = none) :
    InStep spoilt w v (w.act action) (v.act action) := by
  have hheld : w.held = v.held := h.same Watch.held fun _ => rfl
  unfold Watch.act
  rw [hheld]
  split
  · exact refl h
  · exact perform h idle

/-! ## Telling targets -/

/-- A listener that does the same in reply keeps both watches in step. -/
theorem react (h : Resembles spoilt w v) {l l' : Listener} (same : l.steady = l'.steady)
    (found : Found) : InStep spoilt w v (w.react l found) (v.react l' found) := by
  have hreaction : l.reaction = l'.reaction :=
    show l.steady.reaction = l'.steady.reaction from congrArg Listener.reaction same
  have hsubscription : l.subscription = l'.subscription :=
    show l.steady.subscription = l'.steady.subscription from congrArg Listener.subscription same
  unfold Watch.react
  rw [h.isAlive, hreaction, hsubscription]
  split
  · split
    · exact refl h
    · exact noteGood h _
    · split
      · exact noteSlot h _
      · exact refl h
    · split
      · exact refl h
      · exact unsubscribe h _
    · exact hint h _
    · exact shutdown h
  · exact refl h

/-- A listener may fail in one watch only, but then it would have done nothing in the other. -/
theorem callListener (h : Resembles spoilt w v) (kin : Kin w v) (name : String) (signal : Signal) :
    InStep spoilt w v (w.callListener name signal).watch (v.callListener name signal).watch := by
  cases signal with
  | round key => exact log h rfl
  | found found =>
    have hlog := log h (rfl : Event.found name found = _)
    have hlistener := h.listener? name
    have hkin := kin name
    simp only [Watch.callListener, listener?_log]
    unfold temper at hkin
    cases hw : w.listener? name with
    | none =>
      rw [hw, Option.map_none, eq_comm, Option.map_eq_none_iff] at hlistener
      rw [hlistener]
      exact hlog
    | some l =>
      rw [hw, Option.map_some, eq_comm, Option.map_eq_some_iff] at hlistener
      obtain ⟨l', hv, hsame⟩ := hlistener
      rw [hw, hv] at hkin
      rw [hv]
      dsimp only at hkin ⊢
      rcases hkin with hkin | hkin
      · obtain ⟨hfails, -⟩ := Prod.mk.inj hkin
        rw [hfails]
        split
        · exact hlog
        · exact hlog.andThen fun h => react h hsame.symm found
      · have hkin' : l'.reaction = none := by
          rw [← hkin]
          exact show l'.steady.reaction = l.steady.reaction from congrArg Listener.reaction hsame
        rw [react_of_none hkin, react_of_none hkin']
        split <;> split <;> exact hlog

/-- A feed goes for the same editions in both watches. -/
theorem callFeed (h : Resembles spoilt w v) (id : FeedId) (signal : Signal) :
    InStep spoilt w v (w.callFeed id signal) (v.callFeed id signal) := by
  cases signal with
  | round key => exact refl h
  | found found =>
    have hfeed : w.feeds[id]? = v.feeds[id]? := h.same (·.feeds[id]?) fun _ => rfl
    have hstopped : w.stopped = v.stopped := h.same Watch.stopped fun _ => rfl
    have hpursue :=
      same h (fun u => { u with feeds := u.feeds.modify id (·.pursue found.edition) })
        (fun _ => rfl) fun _ => rfl
    simp only [Watch.callFeed]
    rw [hfeed]
    cases v.feeds[id]? with
    | none => exact refl h
    | some feed =>
      have hgoes : (feed.wants found.edition && !w.stopped) = true ↔
          (feed.wants found.edition && !v.stopped) = true := by rw [hstopped]
      exact branch hgoes (hpursue.andThen (submitErrand · _ _ _)) (refl h)

/-- A target that is told the same keeps both watches in step. -/
theorem callTarget (h : Resembles spoilt w v) (kin : Kin w v) (target : Target) (signal : Signal) :
    InStep spoilt w v (w.callTarget target signal).watch (v.callTarget target signal).watch := by
  cases target with
  | listener name => exact callListener h kin name signal
  | feed id => exact callFeed h id signal

end InStep

end Watch

end EditionWatch
