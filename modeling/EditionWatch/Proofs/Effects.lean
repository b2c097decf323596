import EditionWatch.Proofs.Moves
import Mathlib.Data.List.Nodup
import Mathlib.Logic.Relation

/-!
# The effects behind an action

All that happens in an action comes down to undivided effects: the records change, something is
seen, work is taken up or laid down, a feed goes for an edition. They are listed here once, each
with what has to hold for it to happen, and there is one lemma for each function of a watch that
takes it apart into effects. The one thing that is left out is what the reply to a fetch of
content means for its feed.
-/

namespace EditionWatch

/-- The time that a change of the records tells, if it tells one. -/
def Records.Change.time? : Records.Change → Option Instant
  | .noteSlot now _ => some now
  | .noteGood now _ => some now
  | .resolve now _ _ => some now
  | .sweep now _ => some now
  | _ => none

/-- How long a mark has to have been armed for a change of the records, if that matters. -/
def Records.Change.delay? : Records.Change → Option Nat
  | .sweep _ delay => some delay
  | _ => none

/-- Whether a listener of content hears something. -/
def Event.isContentNews : Event → Bool
  | .content _ _ => true
  | .failed _ _ _ => true
  | _ => false

/-- Whether a poller is in a round and not waiting for anything. -/
def Poller.isRounding (p : Poller) : Bool :=
  match p.stage with
  | .rounding _ => true
  | _ => false

/-- What others can do to a poller: they send it commands, which it takes unless its work is over,
and they cancel it. -/
def Poller.IsTold (p q : Poller) : Prop :=
  ∃ commands cancelled,
    q = { p with
      inbox := if p.isOver then p.inbox else p.inbox ++ commands
      cancelled := cancelled }

namespace Poller.IsTold

variable {p q r : Poller}

/-- A poller is told nothing if at most its cancellation differs. -/
theorem marked (p : Poller) (cancelled : Bool) : p.IsTold { p with cancelled := cancelled } :=
  ⟨[], cancelled, by rw [List.append_nil, ite_self]⟩

theorem refl (p : Poller) : p.IsTold p := marked p p.cancelled

theorem trans (h : p.IsTold q) (h' : q.IsTold r) : p.IsTold r := by
  obtain ⟨commands, cancelled, rfl⟩ := h
  obtain ⟨more, cancelled', rfl⟩ := h'
  let kept : List Command := if p.isOver then p.inbox else p.inbox ++ commands
  have hinbox : (if p.isOver then kept else kept ++ more) =
      if p.isOver then p.inbox else p.inbox ++ (commands ++ more) := by
    cases hover : p.isOver with
    | true => simp [kept, hover]
    | false => simp [kept, hover]
  exact ⟨commands ++ more, cancelled',
    congrArg (fun inbox => { p with inbox := inbox, cancelled := cancelled' }) hinbox⟩

/-- A poller that is cancelled is told so, and nothing else becomes of it. -/
theorem cancel (p : Poller) : p.IsTold p.cancel := marked p true

/-- A command that is sent to a poller that goes on waits in its inbox. -/
theorem send (p : Poller) (command : Command) : p.IsTold (p.send command) :=
  ⟨[command], p.cancelled, rfl⟩

theorem key (h : p.IsTold q) : q.key = p.key := by
  obtain ⟨_, _, rfl⟩ := h
  rfl

/-- A poller keeps its origin when it is told something. -/
theorem origin (h : p.IsTold q) : q.origin = p.origin := by
  obtain ⟨_, _, rfl⟩ := h
  rfl

/-- A poller stands where it stood when it is told something. -/
theorem stage (h : p.IsTold q) : q.stage = p.stage := by
  obtain ⟨_, _, rfl⟩ := h
  rfl

/-- A poller takes no hint before its own turn. -/
theorem hints (h : p.IsTold q) : q.hints = p.hints := by
  obtain ⟨_, _, rfl⟩ := h
  rfl

end Poller.IsTold

/-- Whether an errand is to bring content to a feed. -/
def Purpose.isRetrieval : Purpose → Bool
  | .retrieval _ => true
  | _ => false

/-- An errand after the one of some number has come to wait for a fetch. -/
def Errand.departed (e : Errand) (id : Nat) (flight : Flight) : Errand :=
  if e.id = id then { e with flight := some flight } else e

@[simp] theorem Errand.id_departed (id : Nat) (flight : Flight) (e : Errand) :
    (e.departed id flight).id = e.id := by
  unfold departed
  split <;> rfl

namespace Watch

variable {actor : Option PollerId} {bearing : Bool} {v w : Watch}

/-- A change of the records could be made now: it tells the present time and keeps to the
prefetch delay, so far as it tells them. -/
structure Admits (w : Watch) (change : Records.Change) : Prop where
  time : ∀ now, change.time? = some now → now = w.now
  delay : ∀ delay, change.delay? = some delay → delay = w.settings.prefetchDelay.nanoseconds

/-- Two watches do not differ in what they know, in their pollers, errands and feeds, or in what
could be seen of them. -/
structure Alike (w v : Watch) : Prop where
  settings : v.settings = w.settings
  records : v.records = w.records
  stopped : v.stopped = w.stopped
  pollers : v.pollers = w.pollers
  errands : v.errands = w.errands
  errandsSent : v.errandsSent = w.errandsSent
  feeds : v.feeds = w.feeds
  journal : v.journal = w.journal

/-- A poller that was just made: it was handed over, or is over if the executor refuses it. -/
def IsNew (w : Watch) (p : Poller) : Prop :=
  (∃ evicted, p.stage = .submitted evicted) ∨ (w.takes .poller = false ∧ p.stage = .ended)

/-- The watch once the errand of some number waits for a fetch. -/
def depart (w : Watch) (id : Nat) (flight : Flight) : Watch :=
  { w with errands := w.errands.map (·.departed id flight) }

/-- An undivided effect on a watch. Only the `actor` among its pollers goes on with its work, and
it takes up a round only as long as not everything was stopped; the others are only told things,
and a new poller has not been told any. Only if the effect is that of an
errand `bearing` content does such an errand depart, or some listener hear of content. -/
inductive Effect (actor : Option PollerId) (bearing : Bool) : Watch → Watch → Prop where
  /-- Something else is affected. -/
  | alike (w v : Watch) (same : Alike w v) (now : v.now = w.now) (refused : v.refused = w.refused) :
      Effect actor bearing w v
  /-- The records change. -/
  | record (w : Watch) (change : Records.Change) (admits : w.Admits change) :
      Effect actor bearing w { w with records := w.records.apply change }
  /-- Something is seen. -/
  | see (w : Watch) (event : Event) (own : event.isContentNews = true → bearing = true) :
      Effect actor bearing w (w.log event)
  /-- A poller is changed, but its work stands where it stood. -/
  | touch (w : Watch) (id : PollerId) (change : Poller → Poller)
      (stage : ∀ p, (change p).stage = p.stage)
      (telling : actor = some id ∨ ∀ p : Poller, p.IsTold (change p)) :
      Effect actor bearing w (w.modifyPoller id change)
  /-- A poller goes on with its work. -/
  | advance (w : Watch) (id : PollerId) (change : Poller → Poller) (acting : actor = some id)
      (free : ∀ p, w.pollers[id]? = some p → (change p).isRounding = true →
        w.stopped = false ∨ p.isRounding = true) :
      Effect actor bearing w (w.modifyPoller id change)
  /-- A poller is made. -/
  | make (w : Watch) (p : Poller) (new : w.IsNew p) (hints : p.hints = []) (inbox : p.inbox = []) :
      Effect actor bearing w { w with pollers := w.pollers ++ [p] }
  /-- An errand is sent, but not for content. -/
  | send (w : Watch) (purpose : Purpose) (uri : EditionUri) (other : purpose.isRetrieval = false) :
      Effect actor bearing w (w.addErrand purpose uri)
  /-- A feed goes for an edition. -/
  | pursue (w : Watch) (id : FeedId) (feed : ContentFeed) (uri : EditionUri)
      (found : w.feeds[id]? = some feed) (wants : feed.wants uri.edition = true)
      (running : w.stopped = false) :
      Effect actor bearing w
        ({ w with feeds := w.feeds.modify id (·.pursue uri.edition) }.submitErrand .retrieval
          (.retrieval id) uri)
  /-- A feed is made. -/
  | openFeed (w : Watch) (name : String) (quiet : Bool) :
      Effect actor bearing w { w with feeds := w.feeds ++ [ContentFeed.fresh name quiet] }
  /-- A feed is cancelled. -/
  | cancelFeed (w : Watch) (id : FeedId) : Effect actor bearing w (w.cancelFeed id)
  /-- An errand comes to wait for its fetch. -/
  | depart (w : Watch) (id : Nat) (flight : Flight)
      (own : ∀ errand ∈ w.errands, errand.id = id → errand.purpose.isRetrieval = true →
        bearing = true) :
      Effect actor bearing w (w.depart id flight)
  /-- Errands are given up. -/
  | giveUp (w : Watch) (keep : Errand → Bool) :
      Effect actor bearing w { w with errands := w.errands.filter keep }
  /-- Everything is stopped. -/
  | stop (w : Watch) : Effect actor bearing w { w with stopped := true }

/-- One watch comes to be another by undivided effects. -/
abbrev Effects (actor : Option PollerId) (bearing : Bool) : Watch → Watch → Prop :=
  Relation.ReflTransGen (Effect actor bearing)

/-- Errands are numbered as they are sent. -/
structure Numbered (w : Watch) : Prop where
  distinct : (w.errands.map Errand.id).Nodup
  below : ∀ errand ∈ w.errands, errand.id < w.errandsSent

/-- A poller may take up a round: not everything was stopped, or it is in one. -/
def MayRound (w : Watch) (id : PollerId) : Prop :=
  w.stopped = false ∨ ∀ p, w.pollers[id]? = some p → p.isRounding = true

/-- To issue a fetch gives up no errand, also if it releases the watch. -/
theorem errands_issue (w : Watch) (request : Request) :
    (w.issue request).watch.errands = w.errands := by
  have hrelease (probed : Watch) (h : probed.errands = w.errands) :
      (if w.network.releases request then probed.release else probed).errands = w.errands := by
    split
    · unfold release reap
      split <;> exact h
    · exact h
  unfold issue
  dsimp only
  cases request.kind with
  | block => exact hrelease _ rfl
  | content => exact hrelease _ rfl

namespace Effects

theorem refl (w : Watch) : Effects actor bearing w w := Relation.ReflTransGen.refl

/-- What cannot be told apart is as good as the same. -/
theorem alike (h : Alike w v) (now : v.now = w.now) (refused : v.refused = w.refused) :
    Effects actor bearing w v := .single (.alike w v h now refused)

/-- A change of the records is an effect if it could be made now. -/
theorem record (w : Watch) (change : Records.Change) (admits : w.Admits change) :
    Effects actor bearing w { w with records := w.records.apply change } :=
  .single (.record w change admits)

/-- A change of the records that tells neither a time nor a delay. -/
theorem recordTimeless (w : Watch) (change : Records.Change) (time : change.time? = none)
    (delay : change.delay? = none) :
    Effects actor bearing w { w with records := w.records.apply change } := by
  refine record w change ⟨fun now h => ?_, fun d h => ?_⟩
  · rw [time] at h
    cases h
  · rw [delay] at h
    cases h

/-- A change of the records that tells the time alone. -/
theorem recordDated (w : Watch) (change : Records.Change) (time : change.time? = some w.now)
    (delay : change.delay? = none) :
    Effects actor bearing w { w with records := w.records.apply change } := by
  refine record w change ⟨fun now h => ?_, fun d h => ?_⟩
  · rw [time] at h
    exact (Option.some.inj h).symm
  · rw [delay] at h
    cases h

/-- Something is seen that is not news of content. -/
theorem see (w : Watch) (event : Event) (other : event.isContentNews = false) :
    Effects actor bearing w (w.log event) :=
  .single (.see w event fun h => by rw [other] at h; cases h)

/-- A poller is told something. -/
theorem tell (w : Watch) (id : PollerId) {change : Poller → Poller}
    (told : ∀ p : Poller, p.IsTold (change p)) :
    Effects actor bearing w (w.modifyPoller id change) :=
  .single (.touch w id change (fun p => (told p).stage) (.inr told))

/-- A poller changes something about itself, but its work stands where it stood. -/
theorem touch (w : Watch) (id : PollerId) {change : Poller → Poller}
    (stage : ∀ p, (change p).stage = p.stage) :
    Effects (some id) bearing w (w.modifyPoller id change) :=
  .single (.touch w id change stage (.inl rfl))

/-! ## Calls -/

/-- To submit the delivery job affects no poller, errand or feed. -/
theorem flush (w : Watch) : Effects actor bearing w w.flush := by
  unfold Watch.flush
  split
  case isTrue =>
    have hclaim : Effects actor bearing w w.claimJob := recordTimeless w .claimQueue rfl rfl
    refine hclaim.trans ?_
    unfold submitJob
    split
    · exact alike ⟨rfl, rfl, rfl, rfl, rfl, rfl, rfl, rfl⟩ rfl rfl
    · exact refl _
  case isFalse => exact refl w

/-- A slot is noted at the present time. -/
theorem noteSlot (w : Watch) (uri : EditionUri) : Effects actor bearing w (w.noteSlot uri) :=
  (recordDated w (.noteSlot w.now uri) rfl rfl).trans (flush _)

theorem noteGood (w : Watch) (uri : EditionUri) : Effects actor bearing w (w.noteGood uri) :=
  (recordDated w (.noteGood w.now uri) rfl rfl).trans (flush _)

theorem noteFetched (w : Watch) (uri : EditionUri) (metadata : Bool) :
    Effects actor bearing w (w.noteFetched uri metadata) := by
  cases metadata with
  | true => exact noteSlot w uri
  | false => exact noteGood w uri

/-- Pollers are cancelled one by one, and each is only told so. -/
theorem cancelPollers (w : Watch) (ids : List PollerId) :
    Effects actor bearing w (w.cancelPollers ids) := by
  induction ids generalizing w with
  | nil => exact refl w
  | cons id rest ih =>
    have hfirst : Effects actor bearing w (w.cancelPoller id) := tell w id .cancel
    exact hfirst.trans (ih _)

/-- A poller without hints and commands may be submitted; those it is to cancel come with it. -/
theorem submitPoller (w : Watch) {poller : Poller} (hints : poller.hints = [])
    (inbox : poller.inbox = []) (evicted : List PollerId) :
    Effects actor bearing w (w.submitPoller poller evicted) := by
  let logged := w.log (.pollerSubmitted w.pollers.length poller.key)
  have hlogged : Effects actor bearing w logged := see w _ rfl
  unfold Watch.submitPoller
  dsimp only
  split
  case isTrue =>
    have hmade := hlogged.tail
      (.make logged { poller with stage := .submitted evicted } (.inl ⟨evicted, rfl⟩) hints inbox)
    exact hmade.trans (alike ⟨rfl, rfl, rfl, rfl, rfl, rfl, rfl, rfl⟩ rfl rfl)
  case isFalse hrefused =>
    exact hlogged.tail (.make logged { poller with stage := .ended }
      (.inr ⟨Bool.eq_false_iff.mpr hrefused, rfl⟩) hints inbox)

/-- A subscription changes the records, and sends a command or makes a poller. -/
theorem attach (w : Watch) (key : DocumentKey) (callback : CallbackId)
    (options : SubscribeOptions) : Effects actor bearing w (w.attach key callback options) := by
  let change (polls : Bool) : Records.Change :=
    .subscribe key callback options.requested polls
  let v : Watch := { w with records := w.records.apply (change true) }
  have hv : Effects actor bearing w v := recordTimeless w (change true) rfl rfl
  unfold Watch.attach
  cases options.polls with
  | false => exact (recordTimeless w (change false) rfl rfl).trans (flush _)
  | true =>
    simp only [if_true]
    unfold cover
    dsimp only
    split
    · exact hv.trans (flush v)
    case h_2 poller _ =>
      have hsent : Effects actor bearing v (v.modifyPoller poller (·.send .pollForever)) :=
        tell v poller (.send · .pollForever)
      exact (hv.trans hsent).trans (flush _)
    · exact (hv.trans (flush v)).trans (submitPoller _ rfl rfl _)

/-- A target is given a callback before it is subscribed. -/
theorem subscribeTarget (w : Watch) (key : DocumentKey) (target : Target)
    (options : SubscribeOptions) :
    Effects actor bearing w (w.subscribeTarget key target options).watch := by
  have hchoice : Effects actor bearing w (w.callbackFor target options.sparse).watch := by
    unfold callbackFor
    split
    · exact alike ⟨rfl, rfl, rfl, rfl, rfl, rfl, rfl, rfl⟩ rfl rfl
    · split
      · exact refl w
      · exact alike ⟨rfl, rfl, rfl, rfl, rfl, rfl, rfl, rfl⟩ rfl rfl
  exact hchoice.trans (attach _ key _ options)

/-- A listener is there before it is subscribed. -/
theorem subscribe (w : Watch) (key : DocumentKey) (name : String) (options : SubscribeOptions) :
    Effects actor bearing w (w.perform (.subscribe key name options)) := by
  have hlistener : Effects actor bearing w (w.addListener name) := by
    unfold addListener
    split
    · exact refl w
    · exact alike ⟨rfl, rfl, rfl, rfl, rfl, rfl, rfl, rfl⟩ rfl rfl
  simp only [perform, Watch.subscribe]
  cases options.persistent with
  | true => exact refl w
  | false =>
    exact (hlistener.trans (subscribeTarget _ key (.listener name) options)).trans
      (alike ⟨rfl, rfl, rfl, rfl, rfl, rfl, rfl, rfl⟩ rfl rfl)

/-- A feed is opened before it is subscribed. -/
theorem subscribeContent (w : Watch) (key : DocumentKey) (name : String) (quiet : Bool)
    (options : SubscribeOptions) :
    Effects actor bearing w (w.perform (.subscribeContent key name quiet options)) := by
  simp only [perform, Watch.subscribeContent]
  cases options.persistent with
  | true => exact refl w
  | false => exact .head (.openFeed w name quiet) (subscribeTarget _ key _ _)

/-- A subscription that is removed cancels an idle poller at most. -/
theorem unsubscribe (w : Watch) (s : Subscription) : Effects actor bearing w (w.unsubscribe s) :=
  (recordTimeless w (.unsubscribe s.key s.callback) rfl rfl).trans (cancelPollers _ _)

theorem unsubscribeContent (w : Watch) (s : ContentSubscription) :
    Effects actor bearing w (w.unsubscribeContent s) :=
  (unsubscribe w s.inner).tail (.cancelFeed _ s.feed)

/-- A lookup sends a hint to a poller, or makes one. -/
theorem resolve (w : Watch) (uri : EditionUri) (prefetch : Bool) :
    Effects actor bearing w (w.resolve uri prefetch).watch := by
  let looked : Watch := { w with records := w.records.resolve w.now uri.key prefetch }
  have hrecord : Effects actor bearing w looked :=
    recordDated w (.resolve w.now uri.key prefetch) rfl rfl
  unfold Watch.resolve
  dsimp only
  split
  · exact hrecord.trans (tell _ _ (.send · (.hint uri.edition)))
  · exact hrecord.trans (submitPoller _ rfl rfl _)

/-- An errand is sent unless the executor refuses it. -/
theorem submitErrand (w : Watch) (kind : JobKind) {purpose : Purpose} (uri : EditionUri)
    (other : purpose.isRetrieval = false) :
    Effects actor bearing w (w.submitErrand kind purpose uri) := by
  unfold Watch.submitErrand
  split
  · exact .head (.send w purpose uri other)
      (alike ⟨rfl, rfl, rfl, rfl, rfl, rfl, rfl, rfl⟩ rfl rfl)
  · exact refl w

/-- A hint sends an errand at most. -/
theorem hint (w : Watch) (uri : EditionUri) : Effects actor bearing w (w.hint uri) := by
  unfold Watch.hint
  split
  · split
    · exact refl w
    · exact submitErrand w _ uri rfl
  · exact submitErrand w _ uri rfl

/-- A shutdown stops everything first and then cancels all pollers. -/
theorem shutdown (w : Watch) : Effects actor bearing w w.shutdown := by
  let stopped : Watch := { w with stopped := true, records := w.records.removePollers }
  have hstopped : Effects actor bearing w stopped :=
    .head (.stop w) (recordTimeless _ .removePollers rfl rfl)
  exact hstopped.trans (cancelPollers _ _)

/-- When nobody holds the watch any more, everything is stopped. -/
theorem reap (w : Watch) : Effects actor bearing w w.reap := by
  unfold Watch.reap
  split
  · exact refl w
  · exact .head (.stop w) (recordTimeless _ .forgetPollers rfl rfl)

theorem release (w : Watch) : Effects actor bearing w w.release := by
  have hreleased : Effects actor bearing w { w with held := false } :=
    alike ⟨rfl, rfl, rfl, rfl, rfl, rfl, rfl, rfl⟩ rfl rfl
  exact hreleased.trans (reap _)

/-! ## Telling targets -/

/-- A listener has no other effects in reply than its calls have. -/
theorem react (w : Watch) (l : Listener) (found : Found) :
    Effects actor bearing w (w.react l found) := by
  unfold Watch.react
  split
  · split
    · exact refl w
    · exact noteGood w _
    · split
      · exact noteSlot w _
      · exact refl w
    · split
      · exact refl w
      · exact unsubscribe w _
    · exact hint w _
    · exact shutdown w
  · exact refl w

/-- A feed that is told of an edition it wants goes for it as long as the watch runs. -/
theorem callFeed (w : Watch) (id : FeedId) (signal : Signal) :
    Effects actor bearing w (w.callFeed id signal) := by
  unfold Watch.callFeed
  split
  case h_1 found =>
    split
    · exact refl w
    case h_2 feed hfeed =>
      split
      case isTrue hwants =>
        rw [Bool.and_eq_true, Bool.not_eq_true'] at hwants
        exact .single (.pursue w id feed found.uri hfeed hwants.1 hwants.2)
      case isFalse => exact refl w
  · exact refl w

/-- A target has the effects of its listener or of its feed. -/
theorem callTarget (w : Watch) (target : Target) (signal : Signal) :
    Effects actor bearing w (w.callTarget target signal).watch := by
  cases target with
  | feed id => exact callFeed w id signal
  | listener name =>
    cases signal with
    | round key => exact see w _ rfl
    | found found =>
      have hlog : Effects actor bearing w (w.log (.found name found)) := see w _ rfl
      simp only [Watch.callTarget, callListener]
      split
      · exact hlog
      · split
        · exact hlog
        · exact hlog.trans (react _ _ found)

/-- What a target does after each call adds up. -/
theorem callAll (w : Watch) (target : Target) (signals : List Signal) :
    Effects actor bearing w (w.callAll target signals).watch := by
  induction signals generalizing w with
  | nil => exact refl w
  | cons signal rest ih =>
    unfold Watch.callAll
    dsimp only
    split
    · exact (callTarget w target signal).trans (ih _)
    · exact callTarget w target signal

/-- A callback passes its gate and then has the effects of its target. -/
theorem callBack (w : Watch) (id : CallbackId) (signal : Signal) :
    Effects actor bearing w (w.callBack id signal).watch := by
  unfold Watch.callBack
  split
  · exact refl w
  · split
    · exact callTarget w _ signal
    case h_2 gate _ =>
      let fed : Watch :=
        { w with callbacks := w.callbacks.modify id fun c =>
            { c with gate := some (gate.feed signal).gate } }
      have hfed : Effects actor bearing w fed :=
        alike ⟨rfl, rfl, rfl, rfl, rfl, rfl, rfl, rfl⟩ rfl rfl
      exact hfed.trans (callAll fed _ _)

/-- A call is counted or its failure is seen. -/
theorem settleCall (call : Call) : Effects actor bearing call.watch (settleCall call) := by
  unfold Watch.settleCall
  split
  · exact recordTimeless _ .countDelivered rfl rfl
  · exact see _ _ rfl

/-- A delivery is taken out before its calls have their effects. -/
theorem deliverNext (w : Watch) : Effects actor bearing w w.deliverNext.watch := by
  unfold Watch.deliverNext
  split
  · exact (recordTimeless w .releaseQueue rfl rfl).trans
      (alike ⟨rfl, rfl, rfl, rfl, rfl, rfl, rfl, rfl⟩ rfl rfl)
  case h_2 delivery v htaken =>
    have hv : Effects actor bearing w v := by
      obtain ⟨taken, hpop, he⟩ := Option.map_eq_some_iff.mp htaken
      obtain ⟨-, rfl⟩ := Prod.mk.inj he
      have happly : taken.2 = w.records.apply .takeDelivery := by
        rw [Records.apply, hpop]
        rfl
      rw [happly]
      exact recordTimeless w .takeDelivery rfl rfl
    have hmade : Effects actor bearing v (v.deliver delivery).watch := by
      cases delivery with
      | found callback found => exact callBack v callback _
      | round callback key => exact callBack v callback _
    exact (hv.trans hmade).trans (settleCall _)

/-! ## Polling -/

variable {id : PollerId}

/-- A poller goes on to a stage that is not a round. -/
theorem setStage (w : Watch) (id : PollerId) {stage : Poller.Stage}
    (other : ∀ round, stage ≠ .rounding round) :
    Effects (some id) bearing w (w.setStage id stage) := by
  refine .single (.advance w id _ rfl fun p _ hround => ?_)
  cases stage with
  | rounding round => exact absurd rfl (other round)
  | _ => cases hround

/-- A poller goes on with a round, or takes one up. -/
theorem goRound (may : w.MayRound id) (change : Poller → Poller) :
    Effects (some id) bearing w (w.modifyPoller id change) :=
  .single (.advance w id change rfl fun p hp _ => may.imp_right fun h => h p hp)

/-- A poller whose work is over is in no round. -/
theorem finishPoller (w : Watch) (id : PollerId) :
    Effects (some id) bearing w (w.finishPoller id) :=
  .single (.advance w id Poller.finish rfl fun _ _ hround => nomatch hround)

/-- A poller may abandon its own work. -/
theorem abandon (w : Watch) (id : PollerId) : Effects (some id) bearing w (w.abandon id).watch :=
  finishPoller w id

/-- A poller that ends takes itself out of the records. -/
theorem endPoller (w : Watch) (id : PollerId) (key : DocumentKey) (cancelled : Bool) :
    Effects (some id) bearing w (w.endPoller id key cancelled).watch := by
  have hended : Effects (some id) bearing w (w.finishPoller id) := finishPoller w id
  unfold Watch.endPoller
  dsimp only
  split
  · exact (hended.trans (recordTimeless _ (.removePoller key id cancelled) rfl rfl)).trans
      (touch _ id fun _ => rfl)
  · exact hended

/-- To submit the delivery job does not keep a poller from its round. -/
theorem mayRound_flush (may : w.MayRound id) : w.flush.MayRound id := by
  unfold Watch.flush
  split
  · unfold submitJob
    split <;> exact may
  · exact may

theorem countVerdict (w : Watch) (verdict : Verdict) :
    Effects actor bearing w { w with records := w.records.countVerdict verdict } :=
  recordTimeless w (.countVerdict verdict) rfl rfl

/-- A poller that may take up a round goes on with it after a reply. -/
theorem takeReply (may : w.MayRound id) (key : DocumentKey) (round : Round) (reply : Reply) :
    Effects (some id) bearing w (w.takeReply id key round reply).watch := by
  let counted : Watch := { w with records := w.records.countVerdict reply.verdict }
  have hcount : Effects (some id) bearing w counted := countVerdict w reply.verdict
  have hslot (uri : EditionUri) (round : Round) :
      Effects (some id) bearing w ((counted.noteSlot uri).setRound id round).watch := by
    have hmay : (counted.noteSlot uri).MayRound id :=
      mayRound_flush (w := { counted with records := counted.records.noteSlot counted.now uri }) may
    exact (hcount.trans (noteSlot counted uri)).trans (goRound hmay _)
  have hgone : Effects (some id) bearing w (counted.abandon id).watch :=
    hcount.trans (abandon counted id)
  unfold Watch.takeReply
  split
  · dsimp only
    split
    · split
      · exact hslot _ _
      · exact hgone
    · exact hcount.trans (goRound (w := counted) may _)
  · dsimp only
    split
    · split
      · exact hslot _ _
      · exact hgone
    · exact hcount.trans (goRound (w := counted) may _)
  case h_3 slot =>
    dsimp only
    split
    · have hmay : (w.noteGood ⟨key, slot⟩).MayRound id :=
        mayRound_flush (w := { w with records := w.records.noteGood w.now ⟨key, slot⟩ }) may
      exact (noteGood w _).trans (goRound hmay _)
    · exact goRound may _
  · exact goRound may _

/-- A fetch that is issued is seen, and may release the watch. -/
theorem issue (w : Watch) (request : Request) :
    Effects actor bearing w (w.issue request).watch := by
  let logged := w.log (.fetched w.now request)
  have hlogged : Effects actor bearing w logged := see w _ rfl
  have hrelease (probed : Watch) (h : Effects actor bearing w probed) :
      Effects actor bearing w (if w.network.releases request then probed.release else probed) := by
    split
    · exact h.trans (release probed)
    · exact h
  unfold Watch.issue
  dsimp only
  cases request.kind with
  | block => exact hrelease _ (hlogged.trans (recordTimeless logged .countProbe rfl rfl))
  | content => exact hrelease _ hlogged

/-- A fetch is issued from within a round, so the round may be taken up again. -/
theorem sendRequest (inRound : ∀ p, w.pollers[id]? = some p → p.isRounding = true)
    (key : DocumentKey) (round : Round) (request : Request) :
    Effects (some id) bearing w (w.sendRequest id key round request).watch := by
  have hmay : (w.issue request).watch.MayRound id := by
    refine .inr fun p hp => inRound p ?_
    rw [pollers_issue] at hp
    exact hp
  unfold Watch.sendRequest
  dsimp only
  split
  · exact (issue w request).trans (takeReply hmay key round _)
  · exact (issue w request).trans (setStage _ id fun _ h => by cases h)

/-- A poller closes its own round, and rests or ends. -/
theorem closeRound (w : Watch) (id : PollerId) (p : Poller) (found : Bool) :
    Effects (some id) bearing w (w.closeRound id p found).watch := by
  let counted : Watch := { w with records := w.records.countRound }
  let closed : Watch := counted.modifyPoller id fun p => { p with rounds := p.rounds + 1 }
  let told : Watch := { closed with records := closed.records.finishRound p.key }
  have hcounted : Effects (some id) bearing w counted := recordTimeless w .countRound rfl rfl
  have hclosed : Effects (some id) bearing w closed :=
    hcounted.trans (touch counted id fun _ => rfl)
  have htold : Effects (some id) bearing w told.flush :=
    (hclosed.trans (recordTimeless closed (.finishRound p.key) rfl rfl)).trans (flush told)
  have hrest (v : Watch) (wake : Option Instant) :
      Effects (some id) bearing v (v.rest id p wake).watch := setStage v id fun _ h => by cases h
  unfold Watch.closeRound
  dsimp only
  split
  · split
    · exact htold.trans (hrest _ none)
    · split
      · exact htold.trans (abandon _ id)
      case h_2 pause _ =>
        have hback : Effects (some id) bearing told.flush
            (told.flush.modifyPoller id fun p => { p with backoff := pause.next }) :=
          touch _ id fun _ => rfl
        exact (htold.trans hback).trans (hrest _ _)
  · exact hclosed.trans (abandon closed id)

/-- A poller goes on with its own round only. -/
theorem stepRound (inRound : ∀ p, w.pollers[id]? = some p → p.isRounding = true) (p : Poller)
    (round : Round) : Effects (some id) bearing w (w.stepRound id p round).watch := by
  have hset (round : Round) : Effects (some id) bearing w (w.setRound id round).watch :=
    goRound (.inr inRound) _
  unfold Watch.stepRound
  cases round with
  | hinting hints =>
    cases hints with
    | nil => exact hset _
    | cons e hints =>
      dsimp only
      split
      · exact hset _
      · exact abandon w id
  | «over» found => exact closeRound w id p found
  | askingHint e hints => exact sendRequest inRound _ _ _
  | asking found e misses probes => exact sendRequest inRound _ _ _
  | fetching slot => exact sendRequest inRound _ _ _
  | walking found e misses probes => exact hset _
  | confirming => exact hset _
  | opening hints =>
    dsimp only
    split
    · exact hset _
    · exact abandon w id
  | aligning found =>
    dsimp only
    split
    · exact hset _
    · exact abandon w id

/-- Not everything was stopped if some poller does not count as cancelled. -/
theorem running_of_not_isCancelled {p : Poller} (h : ¬w.isCancelled p = true) :
    w.stopped = false := by
  rw [isCancelled, Bool.or_eq_true, not_or] at h
  exact Bool.eq_false_iff.mpr h.2

/-- In its own turn, a poller is the only one to act. -/
theorem stepPoller (w : Watch) (id : PollerId) :
    Effects (some id) bearing w (w.stepPoller id).watch := by
  unfold Watch.stepPoller
  cases hfound : w.pollers[id]? with
  | none => exact refl w
  | some p =>
    dsimp only
    cases hstage : p.stage with
    | submitted evicted =>
      have hbegun : Effects (some id) bearing w
          ((w.setStage id (.resting none)).cancelPollers evicted) :=
        (setStage w id fun _ h => by cases h).trans (cancelPollers _ _)
      dsimp only
      split
      case isTrue => exact hbegun.trans (endPoller _ _ _ _)
      case isFalse hc => exact hbegun.trans (goRound (.inl (running_of_not_isCancelled hc)) _)
    | rounding round =>
      refine stepRound (fun q hq => ?_) p round
      rw [hfound, Option.some.injEq] at hq
      rw [← hq, Poller.isRounding, hstage]
    | waiting round flight =>
      dsimp only
      split
      case isTrue => exact endPoller w _ _ _
      case isFalse hc =>
        split
        · exact refl w
        · exact takeReply (.inl (running_of_not_isCancelled hc)) _ _ _
    | resting wake =>
      dsimp only
      split
      case isTrue => exact endPoller w _ _ _
      case isFalse hc =>
        have hbegin (v : Watch) (hv : v.stopped = w.stopped) :
            Effects (some id) bearing v (v.beginRound id).watch :=
          goRound (.inl (hv.trans (running_of_not_isCancelled hc))) _
        split
        · have htaken :
              Effects (some id) bearing w (w.modifyPoller id (·.takeCommands w.settings)) :=
            touch w id fun q => (q.takeCommands_same w.settings).2.2
          exact htaken.trans (hbegin _ rfl)
        · split
          · exact endPoller w _ _ _
          · split
            · exact hbegin w rfl
            · exact refl w
    | ended => exact refl w

/-- A poller that notices its time to wake takes up a round, so not everything was stopped. -/
theorem wake (w : Watch) (id : PollerId) : Effects (some id) bearing w (w.wake id) := by
  rcases w.wake_cases id with hsame | ⟨p, due, -, -, hlive, -, hbegins⟩
  · rw [hsame]
  · rw [hbegins]
    have hrunning : w.stopped = false := (Bool.or_eq_false_iff.mp hlive).2
    exact goRound (.inl hrunning) _

/-! ## Errands and the sweeper -/

theorem dismiss (w : Watch) (id : Nat) : Effects actor bearing w (w.dismiss id) :=
  .head (.giveUp w fun errand => errand.id ≠ id) (reap _)

theorem dropProbe (w : Watch) : Effects actor bearing w w.dropProbe := .head (.giveUp w _) (reap _)

/-- What follows from the reply to an errand; content is news for a listener. -/
theorem conclude (w : Watch) (errand : Errand)
    (own : errand.purpose.isRetrieval = true → bearing = true) (reply : Reply) :
    Effects actor bearing w (w.conclude errand reply) := by
  let counted : Watch := { w with records := w.records.countVerdict reply.verdict }
  have hcount : Effects actor bearing w counted := countVerdict w reply.verdict
  have hslot : Effects actor bearing w (counted.noteSlot errand.uri) :=
    hcount.trans (noteSlot counted _)
  unfold Watch.conclude
  cases hpurpose : errand.purpose with
  | hint =>
    dsimp only
    split
    · exact hslot
    · exact hcount
  | check listener =>
    dsimp only
    split
    · exact hslot.trans (see _ _ rfl)
    · exact hcount.trans (see _ _ rfl)
  | probe good =>
    have hprobed (v : Watch) : Effects actor bearing v { v with probed := some reply.verdict } :=
      alike ⟨rfl, rfl, rfl, rfl, rfl, rfl, rfl, rfl⟩ rfl rfl
    dsimp only
    split
    · split
      · exact (hcount.trans (noteGood counted _)).trans (hprobed _)
      · exact hslot.trans (hprobed _)
    · exact hcount.trans (hprobed _)
  | prefetch =>
    dsimp only
    split
    · exact (recordTimeless w .countPrefetched rfl rfl).trans (noteGood _ _)
    · exact refl w
  | retrieval id =>
    rw [hpurpose] at own
    have hnews (v : Watch) (event : Event) : Effects actor bearing v (v.log event) :=
      .single (.see v event fun _ => own rfl)
    dsimp only
    split
    · exact refl w
    · unfold bringContent
      split
      · dsimp only
        split
        · exact (noteGood w _).trans (hnews _ _)
        · exact hnews w _
      · split
        · exact refl w
        · exact hnews w _

/-- An errand that takes a turn bears content only if it is one for content. -/
theorem stepErrand (w : Watch) (id : Nat)
    (own : ∀ errand ∈ w.errands, errand.id = id → errand.purpose.isRetrieval = true →
      bearing = true) : Effects actor bearing w (w.stepErrand id).watch := by
  unfold Watch.stepErrand
  split
  · exact refl w
  case h_2 errand hfound =>
    have hid : errand.id = id := by simpa using List.find?_some hfound
    have hown := own errand (List.mem_of_find?_eq_some hfound) hid
    split
    · let request : Request := ⟨errand.purpose.fetches, errand.uri⟩
      have hissue : Effects actor bearing w (w.issue request).watch := issue w request
      unfold beginErrand
      dsimp only
      split
      · exact hissue.trans (dismiss _ _)
      · split
        · exact (hissue.trans (conclude _ errand hown _)).trans (dismiss _ _)
        · refine hissue.tail (.depart _ errand.id _ fun e he hsame => ?_)
          rw [errands_issue] at he
          exact own e he (hsame.trans hid)
    · split
      · exact dismiss w id
      · split
        · exact refl w
        · exact (conclude w errand hown _).trans (dismiss _ id)

/-- A sweep is made at the present time and keeps to the prefetch delay. -/
theorem sweep (w : Watch) : Effects actor bearing w w.sweep := by
  have hsend (due : List EditionUri) (v : Watch) :
      Effects actor bearing v
        (due.foldl (fun w uri => w.submitErrand .prefetch .prefetch uri) v) := by
    induction due generalizing v with
    | nil => exact refl v
    | cons uri rest ih => exact (submitErrand v _ uri rfl).trans (ih _)
  let change : Records.Change := .sweep w.now w.settings.prefetchDelay.nanoseconds
  have hswept : Effects actor bearing w { w with records := w.records.apply change } :=
    record w change ⟨fun _ h => (Option.some.inj h).symm, fun _ h => (Option.some.inj h).symm⟩
  exact hswept.trans (hsend _ _)

theorem stepSweeper (w : Watch) : Effects actor bearing w w.stepSweeper.watch := by
  have hsweeper (v : Watch) (sweeper : Sweeper) :
      Effects actor bearing v { v with sweeper := sweeper } :=
    alike ⟨rfl, rfl, rfl, rfl, rfl, rfl, rfl, rfl⟩ rfl rfl
  unfold Watch.stepSweeper
  split
  · exact refl w
  · split
    · exact hsweeper w _
    · exact hsweeper w _
  · split
    · exact hsweeper w _
    · split
      · exact (sweep w).trans (hsweeper w.sweep _)
      · exact refl w

end Effects

/-! ## Actions -/

/-- The poller whose work an action carries on or breaks off. -/
def Action.actor? : Action → Option PollerId
  | .work (.poller id) => some id
  | .wake id => some id
  | .crash (.poller id) => some id
  | _ => none

/-- Only turns of a poller, its waking and the crash of its fetch are its own. -/
theorem own_of_actor? {action : Action} {id : PollerId} (h : action.actor? = some id) :
    action = .work (.poller id) ∨ action = .wake id ∨ action = .crash (.poller id) := by
  cases action with
  | work job =>
    cases job with
    | poller other => exact .inl (by cases h; rfl)
    | _ => cases h
  | wake other => exact .inr (.inl (by cases h; rfl))
  | crash job =>
    cases job with
    | poller other => exact .inr (.inr (by cases h; rfl))
    | _ => cases h
  | _ => cases h

/-- Whether an action is the turn of an errand that brings content to a feed. -/
def bears (w : Watch) : Action → Bool
  | .work (.errand id) =>
    (w.errands.find? fun errand => errand.id = id).any (·.purpose.isRetrieval)
  | _ => false

/-- Whether an action changes the surroundings of a watch: the time, the network, or what the
executor takes. -/
def Action.isOutside : Action → Bool
  | .elapse _ => true
  | .setNetwork _ => true
  | .refuse _ => true
  | _ => false

/-- Errands of one number are one errand. -/
theorem Numbered.eq_of_id (numbered : w.Numbered) {errand other : Errand}
    (mem : errand ∈ w.errands) (mem' : other ∈ w.errands) (same : other.id = errand.id) :
    other = errand :=
  List.inj_on_of_nodup_map numbered.distinct mem' mem same

/-- A number leads to the errand that has it. -/
theorem Numbered.find?_eq (numbered : w.Numbered) {errand : Errand} (mem : errand ∈ w.errands) :
    (w.errands.find? fun other => other.id = errand.id) = some errand := by
  cases hfound : w.errands.find? fun other => other.id = errand.id with
  | none => exact absurd (decide_eq_true rfl) (List.find?_eq_none.mp hfound errand mem)
  | some other =>
    have hid : other.id = errand.id := by simpa using List.find?_some hfound
    rw [numbered.eq_of_id mem (List.mem_of_find?_eq_some hfound) hid]

namespace Effects

/-- The owner's probe is sent, and has its first turn at once. -/
theorem probe (numbered : w.Numbered) (uri : EditionUri) (good : Bool) :
    Effects actor bearing w (w.probe uri good) := by
  let asked : Watch := { w with probed := none }
  have hasked : Effects actor bearing w asked :=
    alike ⟨rfl, rfl, rfl, rfl, rfl, rfl, rfl, rfl⟩ rfl rfl
  refine (hasked.tail (.send asked (.probe good) uri rfl)).trans ?_
  refine stepErrand _ _ fun errand mem hid hretrieval => ?_
  rcases List.mem_append.mp mem with hold | hnew
  · exact absurd hid (Nat.ne_of_lt (numbered.below errand hold))
  · rw [List.mem_singleton.mp hnew] at hretrieval
    cases hretrieval

/-- A poller that breaks down acts for the last time; an errand is given up. -/
theorem crash (w : Watch) (job : Job) :
    Effects (Action.crash job).actor? bearing w (w.crash job) := by
  unfold Watch.crash
  cases job with
  | poller id =>
    dsimp only
    split
    · exact finishPoller w id
    · exact refl w
  | errand id =>
    dsimp only
    split
    · exact dismiss w id
    · exact refl w
  | sweeper => exact refl w
  | delivery => exact refl w

/-- In the turn of a job only its own poller acts, and only its own errand bears content. -/
theorem takeTurn (numbered : w.Numbered) (job : Job) :
    Effects (Action.work job).actor? (w.bears (.work job)) w (w.takeTurn job) := by
  cases job with
  | sweeper => exact stepSweeper w
  | poller id => exact stepPoller w id
  | errand id =>
    refine stepErrand w id fun errand mem hid hretrieval => ?_
    have hfound := numbered.find?_eq mem
    rw [hid] at hfound
    rw [bears, hfound]
    exact hretrieval
  | delivery =>
    unfold Watch.takeTurn
    dsimp only
    split
    · exact deliverNext w
    · exact refl w

end Effects

/-- An action that does not change the surroundings comes down to undivided effects. -/
theorem effects_act (numbered : w.Numbered) {action : Action} (inside : action.isOutside = false) :
    Effects action.actor? (w.bears action) w (w.act action) := by
  unfold act
  split
  case isTrue => exact Effects.refl w
  case isFalse =>
    cases action with
    | work job => exact Effects.takeTurn numbered job
    | wake id => exact Effects.wake w id
    | crash job => exact Effects.crash w job
    | elapse span => cases inside
    | setNetwork network => cases inside
    | refuse kinds => cases inside
    | letGo name => exact Effects.alike ⟨rfl, rfl, rfl, rfl, rfl, rfl, rfl, rfl⟩ rfl rfl
    | dropProbe => exact Effects.dropProbe w
    | release => exact Effects.release w
    | subscribe key name options => exact Effects.subscribe w key name options
    | unsubscribe subscription => exact Effects.unsubscribe w subscription
    | subscribeContent key name quiet options =>
      exact Effects.subscribeContent w key name quiet options
    | unsubscribeContent subscription => exact Effects.unsubscribeContent w subscription
    | noteSlot uri => exact Effects.noteSlot w uri
    | noteGood uri => exact Effects.noteGood w uri
    | noteFetched uri metadata => exact Effects.noteFetched w uri metadata
    | resolve uri prefetch name =>
      exact (Effects.resolve w uri prefetch).trans
        (Effects.alike ⟨rfl, rfl, rfl, rfl, rfl, rfl, rfl, rfl⟩ rfl rfl)
    | probe uri good => exact Effects.probe numbered uri good
    | hint uri => exact Effects.hint w uri
    | check uri listener => exact Effects.submitErrand w _ uri rfl
    | shutdown => exact Effects.shutdown w

/-- A change of the surroundings changes nothing else. -/
theorem alike_act {action : Action} (outside : action.isOutside = true) :
    Alike w (w.act action) := by
  cases action with
  | elapse span => exact ⟨rfl, rfl, rfl, rfl, rfl, rfl, rfl, rfl⟩
  | setNetwork network => exact ⟨rfl, rfl, rfl, rfl, rfl, rfl, rfl, rfl⟩
  | refuse kinds => exact ⟨rfl, rfl, rfl, rfl, rfl, rfl, rfl, rfl⟩
  | _ => cases outside

/-! ## What effects keep -/

/-- A submitted errand is added, or the watch stays as it is. -/
theorem submitErrand_cases (w : Watch) (kind : JobKind) (purpose : Purpose) (uri : EditionUri) :
    w.submitErrand kind purpose uri = (w.addErrand purpose uri).countSubmission ∨
      w.submitErrand kind purpose uri = w := by
  unfold submitErrand
  split
  · exact .inl rfl
  · exact .inr rfl

/-- Nothing but the errands and the count of submissions shows that an errand was submitted. -/
theorem submitErrand_eq (w : Watch) (kind : JobKind) (purpose : Purpose) (uri : EditionUri) :
    ∃ errands sent submissions, w.submitErrand kind purpose uri =
      { w with errands := errands, errandsSent := sent, submissions := submissions } := by
  rcases submitErrand_cases w kind purpose uri with h | h
  · exact ⟨_, _, _, h⟩
  · exact ⟨w.errands, w.errandsSent, w.submissions, h⟩

/-- What every effect keeps, all effects keep. -/
theorem Effects.keep {P : Watch → Prop} (step : ∀ w v, Effect actor bearing w v → P w → P v)
    (h : Effects actor bearing w v) (hw : P w) : P v := by
  induction h with
  | refl => exact hw
  | tail _ effect ih => exact step _ _ effect ih

theorem Numbered.of_same (numbered : w.Numbered) (errands : v.errands = w.errands)
    (sent : v.errandsSent = w.errandsSent) : v.Numbered := by
  constructor
  · rw [errands]
    exact numbered.distinct
  · rw [errands, sent]
    exact numbered.below

/-- A new errand takes the next number. -/
theorem Numbered.add (numbered : w.Numbered) (purpose : Purpose) (uri : EditionUri) :
    (w.addErrand purpose uri).Numbered := by
  constructor
  · rw [addErrand, List.map_append, List.nodup_append]
    refine ⟨numbered.distinct, List.nodup_singleton _, fun id mem other mem' => ?_⟩
    obtain ⟨errand, hold, rfl⟩ := List.mem_map.mp mem
    rw [List.mem_singleton.mp mem']
    exact Nat.ne_of_lt (numbered.below errand hold)
  · intro errand mem
    rcases List.mem_append.mp mem with hold | hnew
    · exact Nat.lt_succ_of_lt (numbered.below errand hold)
    · rw [List.mem_singleton.mp hnew]
      exact Nat.lt_succ_self w.errandsSent

/-- No effect upsets the numbers of errands. -/
theorem Numbered.effect (effect : Effect actor bearing w v) (numbered : w.Numbered) :
    v.Numbered := by
  cases effect with
  | alike _ same => exact numbered.of_same same.errands same.errandsSent
  | send purpose uri other => exact numbered.add purpose uri
  | pursue id feed uri found wants running =>
    let pursuing : Watch := { w with feeds := w.feeds.modify id (·.pursue uri.edition) }
    have hpursuing : pursuing.Numbered := numbered.of_same rfl rfl
    rcases submitErrand_cases pursuing .retrieval (.retrieval id) uri with hs | hs
    · rw [hs]
      exact (hpursuing.add _ uri).of_same rfl rfl
    · rw [hs]
      exact hpursuing
  | depart id flight own =>
    constructor
    · change ((w.errands.map (·.departed id flight)).map Errand.id).Nodup
      rw [List.map_map]
      simpa only [Function.comp_def, Errand.id_departed] using numbered.distinct
    · intro errand mem
      obtain ⟨old, hold, rfl⟩ := List.mem_map.mp mem
      rw [Errand.id_departed]
      exact numbered.below old hold
  | giveUp keep =>
    constructor
    · exact numbered.distinct.sublist (List.filter_sublist.map Errand.id)
    · exact fun errand mem => numbered.below errand (List.mem_filter.mp mem).1
  | _ => exact numbered.of_same rfl rfl

/-- Work that was stopped stays stopped. -/
theorem stopped_effect (effect : Effect actor bearing w v) (stopped : w.stopped = true) :
    v.stopped = true := by
  cases effect with
  | alike _ same => rw [same.stopped, stopped]
  | pursue id feed uri found wants running =>
    rw [running] at stopped
    cases stopped
  | stop => rfl
  | _ => exact stopped

/-- No action upsets the numbers of errands. -/
theorem numbered_act (numbered : w.Numbered) (action : Action) : (w.act action).Numbered := by
  cases houtside : action.isOutside with
  | true =>
    have same := alike_act (w := w) houtside
    exact numbered.of_same same.errands same.errandsSent
  | false => exact (effects_act numbered houtside).keep (fun _ _ => Numbered.effect) numbered

/-- Errands are numbered after every run. -/
theorem numbered_run (settings : Settings) (listeners : List Listener) (actions : List Action) :
    ((initial settings listeners).run actions).Numbered := by
  have hrun (w : Watch) (numbered : w.Numbered) (actions : List Action) :
      (w.run actions).Numbered := by
    induction actions generalizing w with
    | nil => exact numbered
    | cons action rest ih => exact ih _ (numbered_act numbered action)
  have hinitial : (initial settings listeners).Numbered :=
    ⟨List.nodup_nil, fun _ mem => by cases mem⟩
  exact hrun _ hinitial actions

/-- What was stopped stays stopped. -/
theorem stopped_act (numbered : w.Numbered) (action : Action) (stopped : w.stopped = true) :
    (w.act action).stopped = true := by
  cases houtside : action.isOutside with
  | true => rw [(alike_act houtside).stopped, stopped]
  | false => exact (effects_act numbered houtside).keep (fun _ _ => stopped_effect) stopped

/-- An effect leaves time and settings alone, and changes the records once at most. -/
theorem records_effect (effect : Effect actor bearing w v) :
    (v.now = w.now ∧ v.settings = w.settings) ∧
      (v.records = w.records ∨
        ∃ change, w.Admits change ∧ v.records = w.records.apply change) := by
  cases effect with
  | alike _ same now refused => exact ⟨⟨now, same.settings⟩, .inl same.records⟩
  | record change admits => exact ⟨⟨rfl, rfl⟩, .inr ⟨change, admits, rfl⟩⟩
  | pursue id feed uri found wants running =>
    obtain ⟨_, _, _, hs⟩ := submitErrand_eq
      { w with feeds := w.feeds.modify id (·.pursue uri.edition) } .retrieval (.retrieval id) uri
    rw [hs]
    exact ⟨⟨rfl, rfl⟩, .inl rfl⟩
  | _ => exact ⟨⟨rfl, rfl⟩, .inl rfl⟩

/-- Effects reach the records by changes that could be made now. -/
theorem Effects.records (h : Effects actor bearing w v) :
    (v.now = w.now ∧ v.settings = w.settings) ∧
      ∃ changes, (∀ change ∈ changes, w.Admits change) ∧ v.records = w.records.run changes := by
  induction h with
  | refl => exact ⟨⟨rfl, rfl⟩, [], fun _ mem => absurd mem List.not_mem_nil, rfl⟩
  | tail _ effect ih =>
    obtain ⟨⟨hnow, hsettings⟩, changes, hadmits, hrecords⟩ := ih
    obtain ⟨⟨hnow', hsettings'⟩, hlast⟩ := records_effect effect
    refine ⟨⟨hnow'.trans hnow, hsettings'.trans hsettings⟩, ?_⟩
    rcases hlast with hsame | ⟨change, admits, happly⟩
    · exact ⟨changes, hadmits, hsame.trans hrecords⟩
    · refine ⟨changes ++ [change], fun other mem => ?_, ?_⟩
      · rcases List.mem_append.mp mem with hold | hnew
        · exact hadmits other hold
        · rw [List.mem_singleton.mp hnew]
          exact ⟨fun now ht => (admits.time now ht).trans hnow,
            fun delay hd => (admits.delay delay hd).trans (by rw [hsettings])⟩
      · rw [happly, hrecords, Records.run_append]
        rfl

/-- Whatever an action changes in the records, it changes at the present time. -/
theorem records_act (numbered : w.Numbered) (action : Action) :
    w.now ≤ (w.act action).now ∧ (w.act action).settings = w.settings ∧
      ∃ changes, (∀ change ∈ changes, w.Admits change) ∧
        (w.act action).records = w.records.run changes := by
  cases houtside : action.isOutside with
  | true =>
    have same := alike_act (w := w) houtside
    refine ⟨?_, same.settings, [], fun _ mem => absurd mem List.not_mem_nil, same.records⟩
    cases action with
    | elapse span => exact Nat.le_add_right w.now span
    | setNetwork network => exact Nat.le_refl _
    | refuse kinds => exact Nat.le_refl _
    | _ => cases houtside
  | false =>
    obtain ⟨⟨hnow, hsettings⟩, hchanges⟩ := (effects_act numbered houtside).records
    exact ⟨Nat.le_of_eq hnow.symm, hsettings, hchanges⟩

end Watch

end EditionWatch
