import EditionWatch.Proofs.Convergence
import EditionWatch.Proofs.Coverage
import EditionWatch.Proofs.Hearing

/-!
# Where pollers walk from

The settings of a watch and the editions from which its pollers walk never change. A poller is
made by one call that names an edition, be it a subscription or a lookup, and from there it
walks for good, for whomever it polls later. So it serves a subscriber in full if that edition
is not above the first one that the subscriber is still to hear of; else it passes over what lies
between the two, until the slot has caught up.
-/

namespace EditionWatch.Watch

variable {u v w : Watch}

/-- The documents of all pollers ever made, with the editions from which they walk. -/
def departures (w : Watch) : List EditionUri := w.pollers.map fun p => ⟨p.key, p.origin⟩

/-- One watch comes to be another with the same settings, and with these pollers made. -/
structure Departs (w : Watch) (made : List EditionUri) (v : Watch) : Prop where
  settings : v.settings = w.settings
  departures : v.departures = w.departures ++ made

/-- One watch comes to be another with the same settings and no more pollers. -/
abbrev Abides (w v : Watch) : Prop := Departs w [] v

/-- Pollers that were made in two steps were made in their order. -/
theorem Departs.trans {made more : List EditionUri} (h : Departs w made v)
    (h' : Departs v more u) : Departs w (made ++ more) u :=
  ⟨h'.settings.trans h.settings, by rw [h'.departures, h.departures, List.append_assoc]⟩

namespace Abides

/-- A watch that differs in neither settings nor pollers. -/
theorem same (settings : v.settings = w.settings) (pollers : v.pollers = w.pollers) :
    Abides w v where
  settings := settings
  departures := by rw [Watch.departures, pollers, List.append_nil, Watch.departures]

theorem refl (w : Watch) : Abides w w := same rfl rfl

theorem trans (h : Abides w v) (h' : Abides v u) : Abides w u := Departs.trans h h'

/-- What comes before pollers are made. -/
theorem after {made : List EditionUri} (h : Abides w v) (h' : Departs v made u) :
    Departs w made u := Departs.trans h h'

/-- What comes after pollers were made. -/
theorem before {made : List EditionUri} (h : Departs w made v) (h' : Abides v u) :
    Departs w made u := List.append_nil made ▸ h.trans h'

/-- A change of the records makes no poller. -/
theorem record (w : Watch) (records : Records) : Abides w { w with records := records } :=
  same rfl rfl

/-- A poller stays with its document and its edition in whatever is done to it. -/
theorem modifyPoller (w : Watch) (id : PollerId) {change : Poller → Poller}
    (key : ∀ p, (change p).key = p.key) (origin : ∀ p, (change p).origin = p.origin) :
    Abides w (w.modifyPoller id change) where
  settings := rfl
  departures := by
    rw [List.append_nil, Watch.departures, Watch.departures]
    refine List.ext_getElem? fun i => ?_
    rw [List.getElem?_map, List.getElem?_map, Watch.modifyPoller, List.getElem?_modify]
    cases w.pollers[i]? with
    | none => rfl
    | some p =>
      by_cases hi : id = i
      · simp [hi, key, origin]
      · simp [hi]

/-! ## Calls -/

/-- To submit the delivery job makes no poller. -/
theorem flush (w : Watch) : Abides w w.flush := same (settings_flush w) (pollers_flush w)

theorem noteSlot (w : Watch) (uri : EditionUri) : Abides w (w.noteSlot uri) :=
  same (settings_flush _) (pollers_noteSlot w uri)

theorem noteGood (w : Watch) (uri : EditionUri) : Abides w (w.noteGood uri) :=
  same (settings_flush _) (pollers_noteGood w uri)

theorem noteFetched (w : Watch) (uri : EditionUri) (metadata : Bool) :
    Abides w (w.noteFetched uri metadata) := by
  cases metadata with
  | true => exact noteSlot w uri
  | false => exact noteGood w uri

/-- Pollers that are cancelled keep their places and their origins. -/
theorem cancelPollers (w : Watch) (ids : List PollerId) : Abides w (w.cancelPollers ids) := by
  induction ids generalizing w with
  | nil => exact refl w
  | cons id rest ih =>
    have hfirst : Abides w (w.cancelPoller id) := modifyPoller w id (fun _ => rfl) fun _ => rfl
    exact hfirst.trans (ih _)

theorem unsubscribe (w : Watch) (s : Subscription) : Abides w (w.unsubscribe s) :=
  (record w (w.records.unregister s.key s.callback)).trans (cancelPollers _ _)

theorem unsubscribeContent (w : Watch) (s : ContentSubscription) :
    Abides w (w.unsubscribeContent s) :=
  (unsubscribe w s.inner).trans (same rfl rfl)

theorem submitErrand (w : Watch) (kind : JobKind) (purpose : Purpose) (uri : EditionUri) :
    Abides w (w.submitErrand kind purpose uri) := by
  unfold Watch.submitErrand
  split <;> exact same rfl rfl

/-- A hint makes no poller, even if nobody polls the document. -/
theorem hint (w : Watch) (uri : EditionUri) : Abides w (w.hint uri) := by
  unfold Watch.hint
  split
  · split
    · exact refl w
    · exact submitErrand w _ _ _
  · exact submitErrand w _ _ _

/-- A shutdown makes no poller and keeps those that are there in their places. -/
theorem shutdown (w : Watch) : Abides w w.shutdown := by
  have hstopped : Abides w { w with stopped := true, records := w.records.removePollers } :=
    same rfl rfl
  exact hstopped.trans (cancelPollers _ _)

theorem reap (w : Watch) : Abides w w.reap := by
  unfold Watch.reap
  split <;> exact same rfl rfl

theorem release (w : Watch) : Abides w w.release := by
  have hreleased : Abides w { w with held := false } := same rfl rfl
  exact hreleased.trans (reap _)

/-! ## Telling targets -/

/-- What a listener does in reply makes no poller. -/
theorem react (w : Watch) (l : Listener) (found : Found) : Abides w (w.react l found) := by
  unfold Watch.react
  split
  · split
    · exact refl w
    · exact noteGood w _
    · split
      · exact noteSlot w _
      · exact refl w
    · split
      · exact refl w
      · exact unsubscribe w _
    · exact hint w _
    · exact shutdown w
  · exact refl w

theorem callTarget (w : Watch) (target : Target) (signal : Signal) :
    Abides w (w.callTarget target signal).watch := by
  have hlog (event : Event) : Abides w (w.log event) := same rfl rfl
  cases target with
  | listener name =>
    cases signal with
    | round key => exact hlog _
    | found found =>
      simp only [Watch.callTarget, callListener]
      split
      · exact hlog _
      · split
        · exact hlog _
        · exact (hlog _).trans (react _ _ found)
  | feed id =>
    cases signal with
    | round key => exact refl w
    | found found =>
      simp only [Watch.callTarget, callFeed]
      split
      · exact refl w
      · split
        · let wants : Watch := { w with feeds := w.feeds.modify id (·.pursue found.edition) }
          have hwants : Abides w wants := same rfl rfl
          exact hwants.trans (submitErrand wants _ _ _)
        · exact refl w

theorem callAll (w : Watch) (target : Target) (signals : List Signal) :
    Abides w (w.callAll target signals).watch := by
  induction signals generalizing w with
  | nil => exact refl w
  | cons signal rest ih =>
    unfold Watch.callAll
    dsimp only
    split
    · exact (callTarget w target signal).trans (ih _)
    · exact callTarget w target signal

theorem callBack (w : Watch) (id : CallbackId) (signal : Signal) :
    Abides w (w.callBack id signal).watch := by
  unfold Watch.callBack
  split
  · exact refl w
  · split
    · exact callTarget w _ signal
    case h_2 gate _ =>
      let fed : Watch :=
        { w with callbacks := w.callbacks.modify id fun c =>
            { c with gate := some (gate.feed signal).gate } }
      have hfed : Abides w fed := same rfl rfl
      exact hfed.trans (callAll fed _ _)

/-- A delivery that is handed out makes no poller. -/
theorem deliverNext (w : Watch) : Abides w w.deliverNext.watch := by
  unfold Watch.deliverNext
  split
  · exact same rfl rfl
  case h_2 delivery v htaken =>
    have hv : Abides w v := by
      obtain ⟨taken, -, he⟩ := Option.map_eq_some_iff.mp htaken
      obtain ⟨-, rfl⟩ := Prod.mk.inj he
      exact same rfl rfl
    have hmade : Abides v (v.deliver delivery).watch := by
      cases delivery with
      | found callback found => exact callBack v callback _
      | round callback key => exact callBack v callback _
    refine (hv.trans hmade).trans ?_
    unfold settleCall
    split <;> exact same rfl rfl

/-! ## Polling -/

theorem setStage (w : Watch) (id : PollerId) (stage : Poller.Stage) :
    Abides w (w.setStage id stage) := modifyPoller w id (fun _ => rfl) fun _ => rfl

theorem finishPoller (w : Watch) (id : PollerId) : Abides w (w.finishPoller id) :=
  modifyPoller w id (fun _ => rfl) fun _ => rfl

theorem endPoller (w : Watch) (id : PollerId) (key : DocumentKey) (cancelled : Bool) :
    Abides w (w.endPoller id key cancelled).watch := by
  unfold Watch.endPoller
  dsimp only
  split
  · exact ((finishPoller w id).trans (record _ _)).trans
      (modifyPoller _ id (fun _ => rfl) fun _ => rfl)
  · exact finishPoller w id

/-- A poller that takes a reply keeps its origin. -/
theorem takeReply (w : Watch) (id : PollerId) (key : DocumentKey) (round : Round)
    (reply : Reply) : Abides w (w.takeReply id key round reply).watch := by
  have hcount := record w (w.records.countVerdict reply.verdict)
  unfold Watch.takeReply
  split
  · dsimp only
    split
    · split
      · exact (hcount.trans (noteSlot _ _)).trans (setStage _ _ _)
      · exact hcount.trans (finishPoller _ _)
    · exact hcount.trans (setStage _ _ _)
  · dsimp only
    split
    · split
      · exact (hcount.trans (noteSlot _ _)).trans (setStage _ _ _)
      · exact hcount.trans (finishPoller _ _)
    · exact hcount.trans (setStage _ _ _)
  · dsimp only
    split
    · exact (noteGood w _).trans (setStage _ _ _)
    · exact setStage w id _
  · exact setStage w id _

theorem issue (w : Watch) (request : Request) : Abides w (w.issue request).watch := by
  have hrelease (probed : Watch) (h : Abides w probed) :
      Abides w (if w.network.releases request then probed.release else probed) := by
    split
    · exact h.trans (release probed)
    · exact h
  unfold Watch.issue
  dsimp only
  cases request.kind with
  | block => exact hrelease _ (same rfl rfl)
  | content => exact hrelease _ (same rfl rfl)

theorem sendRequest (w : Watch) (id : PollerId) (key : DocumentKey) (round : Round)
    (request : Request) : Abides w (w.sendRequest id key round request).watch := by
  unfold Watch.sendRequest
  dsimp only
  split
  · exact (issue w request).trans (takeReply _ _ _ _ _)
  · exact (issue w request).trans (setStage _ _ _)

/-- A poller that closes a round keeps its origin, whether it rests or ends. -/
theorem closeRound (w : Watch) (id : PollerId) (p : Poller) (found : Bool) :
    Abides w (w.closeRound id p found).watch := by
  let counted : Watch := { w with records := w.records.countRound }
  let closed : Watch := counted.modifyPoller id fun p => { p with rounds := p.rounds + 1 }
  have hclosed : Abides w closed :=
    (record w w.records.countRound).trans (modifyPoller counted id (fun _ => rfl) fun _ => rfl)
  have htold : Abides w { closed with records := closed.records.finishRound p.key }.flush :=
    (hclosed.trans (record closed (closed.records.finishRound p.key))).trans (flush _)
  unfold Watch.closeRound
  dsimp only
  split
  · split
    · exact htold.trans (setStage _ _ _)
    · split
      · exact htold.trans (finishPoller _ _)
      case h_2 pause _ =>
        have hback (v : Watch) :
            Abides v (v.modifyPoller id fun p => { p with backoff := pause.next }) :=
          modifyPoller v id (fun _ => rfl) fun _ => rfl
        exact (htold.trans (hback _)).trans (setStage _ _ _)
  · exact hclosed.trans (finishPoller _ _)

theorem stepRound (w : Watch) (id : PollerId) (p : Poller) (round : Round) :
    Abides w (w.stepRound id p round).watch := by
  have hset (stage : Poller.Stage) : Abides w (w.setStage id stage) := setStage w id stage
  have hgone : Abides w (w.abandon id).watch := finishPoller w id
  unfold Watch.stepRound
  cases round with
  | hinting hints =>
    cases hints with
    | nil => exact hset _
    | cons e hints =>
      dsimp only
      split
      · exact hset _
      · exact hgone
  | «over» found => exact closeRound w id p found
  | askingHint e hints => exact sendRequest w _ _ _ _
  | asking found e misses probes => exact sendRequest w _ _ _ _
  | fetching slot => exact sendRequest w _ _ _ _
  | walking found e misses probes => exact hset _
  | confirming => exact hset _
  | opening hints =>
    dsimp only
    split
    · exact hset _
    · exact hgone
  | aligning found =>
    dsimp only
    split
    · exact hset _
    · exact hgone

theorem beginRound (w : Watch) (id : PollerId) : Abides w (w.beginRound id).watch :=
  modifyPoller w id (fun _ => rfl) fun _ => rfl

/-- A poller that takes its commands keeps its origin: hints are kept apart from it. -/
theorem takeCommands (w : Watch) (id : PollerId) :
    Abides w (w.modifyPoller id (·.takeCommands w.settings)) := by
  have hfold (commands : List Poller.Command) (p : Poller) :
      (commands.foldl (Poller.apply w.settings) p).key = p.key ∧
        (commands.foldl (Poller.apply w.settings) p).origin = p.origin := by
    induction commands generalizing p with
    | nil => exact ⟨rfl, rfl⟩
    | cons command rest ih => cases command <;> exact ih _
  exact modifyPoller w id (fun p => (hfold p.inbox p).1) fun p => (hfold p.inbox p).2

/-- A poller that takes a turn keeps its origin. -/
theorem stepPoller (w : Watch) (id : PollerId) : Abides w (w.stepPoller id).watch := by
  unfold Watch.stepPoller
  cases w.pollers[id]? with
  | none => exact refl w
  | some p =>
    dsimp only
    cases p.stage with
    | submitted evicted =>
      have hbegun : Abides w ((w.setStage id (.resting none)).cancelPollers evicted) :=
        (setStage w id _).trans (cancelPollers _ _)
      dsimp only
      split
      · exact hbegun.trans (endPoller _ _ _ _)
      · exact hbegun.trans (beginRound _ _)
    | rounding round => exact stepRound w id p round
    | waiting round flight =>
      dsimp only
      split
      · exact endPoller w _ _ _
      · split
        · exact refl w
        · exact takeReply w _ _ _ _
    | resting wake =>
      dsimp only
      split
      · exact endPoller w _ _ _
      · split
        · exact (takeCommands w id).trans (beginRound _ _)
        · split
          · exact endPoller w _ _ _
          · split
            · exact beginRound w id
            · exact refl w
    | ended => exact refl w

/-! ## Errands and the sweeper -/

theorem dismiss (w : Watch) (id : Nat) : Abides w (w.dismiss id) := by
  have hless : Abides w { w with errands := w.errands.filter fun errand => errand.id ≠ id } :=
    same rfl rfl
  exact hless.trans (reap _)

theorem conclude (w : Watch) (errand : Errand) (reply : Reply) :
    Abides w (w.conclude errand reply) := by
  have hcount := record w (w.records.countVerdict reply.verdict)
  unfold Watch.conclude
  dsimp only
  cases errand.purpose with
  | hint =>
    dsimp only
    split
    · exact hcount.trans (noteSlot _ _)
    · exact hcount
  | check listener =>
    dsimp only
    split
    · exact (hcount.trans (noteSlot _ _)).trans (same rfl rfl)
    · exact hcount.trans (same rfl rfl)
  | probe good =>
    dsimp only
    split
    · split
      · exact (hcount.trans (noteGood _ _)).trans (same rfl rfl)
      · exact (hcount.trans (noteSlot _ _)).trans (same rfl rfl)
    · exact hcount.trans (same rfl rfl)
  | prefetch =>
    dsimp only
    split
    · exact (record w w.records.countPrefetched).trans (noteGood _ _)
    · exact refl w
  | retrieval id =>
    dsimp only
    split
    · exact refl w
    · unfold bringContent
      split
      · dsimp only
        split
        · exact (noteGood w _).trans (same rfl rfl)
        · exact same rfl rfl
      · split <;> exact same rfl rfl

theorem stepErrand (w : Watch) (id : Nat) : Abides w (w.stepErrand id).watch := by
  unfold Watch.stepErrand
  split
  · exact refl w
  case h_2 errand _ =>
    split
    · have hissue : Abides w (w.issue ⟨errand.purpose.fetches, errand.uri⟩).watch := issue w _
      unfold Watch.beginErrand
      dsimp only
      split
      · exact hissue.trans (dismiss _ _)
      · split
        · exact (hissue.trans (conclude _ _ _)).trans (dismiss _ _)
        · exact hissue.trans (same rfl rfl)
    · split
      · exact dismiss w id
      · split
        · exact refl w
        · exact (conclude w _ _).trans (dismiss _ id)

theorem probe (w : Watch) (uri : EditionUri) (good : Bool) : Abides w (w.probe uri good) := by
  have hsent : Abides w ({ w with probed := none }.addErrand (.probe good) uri) := same rfl rfl
  exact hsent.trans (stepErrand _ _)

theorem dropProbe (w : Watch) : Abides w w.dropProbe := by
  have hless (errands : List Errand) : Abides w { w with errands := errands } := same rfl rfl
  exact (hless _).trans (reap _)

theorem stepSweeper (w : Watch) : Abides w w.stepSweeper.watch := by
  have hsend (due : List EditionUri) (v : Watch) :
      Abides v (due.foldl (fun w uri => w.submitErrand .prefetch .prefetch uri) v) := by
    induction due generalizing v with
    | nil => exact refl v
    | cons uri rest ih => exact (submitErrand v _ _ uri).trans (ih _)
  have hsweep : Abides w w.sweep :=
    (record w (w.records.sweep w.now w.settings.prefetchDelay.nanoseconds)).trans (hsend _ _)
  unfold Watch.stepSweeper
  split
  · exact refl w
  · split <;> exact same rfl rfl
  · split
    · exact same rfl rfl
    · split
      · exact hsweep.trans (same rfl rfl)
      · exact refl w

theorem wake (w : Watch) (id : PollerId) : Abides w (w.wake id) := by
  rcases w.wake_cases id with hsame | ⟨-, -, -, -, -, -, hbegins⟩
  · rw [hsame]
    exact refl w
  · rw [hbegins]
    exact beginRound w id

theorem crash (w : Watch) (job : Job) : Abides w (w.crash job) := by
  unfold Watch.crash
  split
  · split
    · exact finishPoller w _
    · exact refl w
  · split
    · exact dismiss w _
    · exact refl w
  · exact refl w

/-- No turn of a job makes a poller. -/
theorem takeTurn (w : Watch) (job : Job) : Abides w (w.takeTurn job) := by
  cases job with
  | sweeper => exact stepSweeper w
  | errand id => exact stepErrand w id
  | poller id => exact stepPoller w id
  | delivery =>
    unfold Watch.takeTurn
    dsimp only
    split
    · exact deliverNext w
    · exact refl w

end Abides

/-! ## Calls that make pollers -/

/-- The edition from which an action asks for a document to be polled. -/
def Action.departure? : Action → Option EditionUri
  | .subscribe key _ options => if options.polls then some ⟨key, options.requested⟩ else none
  | .subscribeContent key _ _ options =>
    if options.polls then some ⟨key, options.requested⟩ else none
  | .resolve uri _ _ => some uri
  | _ => none

/-- A watch abides, or one poller is made that walks from where it was asked to. -/
def Founds (w : Watch) (departure? : Option EditionUri) (v : Watch) : Prop :=
  Abides w v ∨ ∃ departure, departure? = some departure ∧ Departs w [departure] v

/-- A poller that is submitted departs from its origin. -/
theorem departs_submitPoller (w : Watch) (poller : Poller) (evicted : List PollerId) :
    Departs w [⟨poller.key, poller.origin⟩] (w.submitPoller poller evicted) := by
  unfold submitPoller
  dsimp only
  split <;> exact ⟨rfl, List.map_append⟩

/-- To cover a document makes a poller that departs from what was asked for, or makes none. -/
theorem founds_cover (w : Watch) (key : DocumentKey) (callback : CallbackId)
    (requested : Edition) :
    Founds w (some ⟨key, requested⟩) (w.cover key callback requested) := by
  let covered : Watch := { w with records := w.records.cover key callback }
  have hcovered : Abides w covered := Abides.record w (w.records.cover key callback)
  have hmade := departs_submitPoller covered.flush
    (.create covered.settings key requested .forever) []
  unfold cover
  dsimp only
  cases w.records.coverage key with
  | joined => exact .inl (hcovered.trans (Abides.flush covered))
  | promoted poller =>
    have hsend : Abides covered (covered.modifyPoller poller (·.send .pollForever)) :=
      Abides.modifyPoller covered poller (fun _ => rfl) fun _ => rfl
    exact .inl ((hcovered.trans hsend).trans (Abides.flush _))
  | started poller => exact .inr ⟨_, rfl, (hcovered.trans (Abides.flush covered)).after hmade⟩

/-- What comes before or after does not matter if it makes no poller. -/
theorem Founds.between {departure? : Option EditionUri} (before : Abides w v)
    (h : Founds v departure? u) {x : Watch} (after : Abides u x) : Founds w departure? x := by
  rcases h with h | ⟨departure, hd, h⟩
  · exact .inl ((before.trans h).trans after)
  · exact .inr ⟨departure, hd, Abides.before (before.after h) after⟩

/-- A target that is subscribed with background polling may found a poller. -/
theorem founds_subscribeTarget (w : Watch) (key : DocumentKey) (target : Target)
    (options : SubscribeOptions) :
    Founds w (if options.polls then some ⟨key, options.requested⟩ else none)
      (w.subscribeTarget key target options).watch := by
  have hchoice : Abides w (w.callbackFor target options.sparse).watch := by
    unfold callbackFor
    split
    · exact Abides.same rfl rfl
    · split <;> exact Abides.same rfl rfl
  unfold subscribeTarget attach
  dsimp only
  cases options.polls with
  | false => exact .inl ((hchoice.trans (Abides.record _ _)).trans (Abides.flush _))
  | true =>
    simp only [if_true]
    exact Founds.between (hchoice.trans (Abides.record _ _)) (founds_cover _ _ _ _)
      (Abides.refl _)

/-- A listener that is subscribed with background polling may found a poller. -/
theorem founds_subscribe (w : Watch) (key : DocumentKey) (name : String)
    (options : SubscribeOptions) :
    Founds w (Action.subscribe key name options).departure?
      (w.perform (.subscribe key name options)) := by
  have hlistener : Abides w (w.addListener name) := by
    unfold addListener
    split <;> exact Abides.same rfl rfl
  simp only [perform, subscribe]
  cases options.persistent with
  | true => exact .inl (Abides.refl w)
  | false =>
    exact Founds.between hlistener (founds_subscribeTarget _ key (.listener name) options)
      (Abides.same rfl rfl)

/-- A feed that is subscribed with background polling may found a poller. -/
theorem founds_subscribeContent (w : Watch) (key : DocumentKey) (name : String) (quiet : Bool)
    (options : SubscribeOptions) :
    Founds w (Action.subscribeContent key name quiet options).departure?
      (w.perform (.subscribeContent key name quiet options)) := by
  let v : Watch := { w with feeds := w.feeds ++ [ContentFeed.fresh name quiet] }
  have hv : Abides w v := Abides.same rfl rfl
  let content : SubscribeOptions :=
    { options with sparse := options.sparse || options.background }
  have hpolls : content.polls = options.polls := by
    change (options.background || (options.sparse || options.background)) =
      (options.background || options.sparse)
    cases options.background <;> cases options.sparse <;> rfl
  have htarget := founds_subscribeTarget v key (.feed w.feeds.length) content
  rw [hpolls] at htarget
  simp only [perform, subscribeContent]
  cases options.persistent with
  | true => exact .inl (Abides.refl w)
  | false => exact Founds.between hv htarget (Abides.refl _)

/-- A lookup may found a poller that departs from the edition that was looked up. -/
theorem founds_resolve (w : Watch) (uri : EditionUri) (prefetch : Bool) :
    Founds w (some uri) (w.resolve uri prefetch).watch := by
  have hrecord := Abides.record w (w.records.resolve w.now uri.key prefetch)
  unfold resolve
  dsimp only
  cases w.records.lookup uri.key with
  | hinted poller =>
    exact .inl (hrecord.trans (Abides.modifyPoller _ poller (fun _ => rfl) fun _ => rfl))
  | started poller evicted =>
    have hmade := departs_submitPoller
      { w with records := w.records.resolve w.now uri.key prefetch }
      (.create w.settings uri.key uri.edition .once) evicted.toList
    exact .inr ⟨uri, rfl, hrecord.after hmade⟩

/-- An action makes one poller at most, which walks from where the action asked for. -/
theorem founds_act (w : Watch) (action : Action) : Founds w action.departure? (w.act action) := by
  unfold act
  split
  case isTrue => exact .inl (Abides.refl w)
  case isFalse =>
    cases action with
    | work job => exact .inl (Abides.takeTurn w job)
    | wake id => exact .inl (Abides.wake w id)
    | crash job => exact .inl (Abides.crash w job)
    | elapse span => exact .inl (Abides.same rfl rfl)
    | setNetwork network => exact .inl (Abides.same rfl rfl)
    | refuse kinds => exact .inl (Abides.same rfl rfl)
    | letGo name => exact .inl (Abides.same rfl rfl)
    | dropProbe => exact .inl (Abides.dropProbe w)
    | release => exact .inl (Abides.release w)
    | subscribe key name options => exact founds_subscribe w key name options
    | unsubscribe subscription => exact .inl (Abides.unsubscribe w subscription)
    | subscribeContent key name quiet options =>
      exact founds_subscribeContent w key name quiet options
    | unsubscribeContent subscription => exact .inl (Abides.unsubscribeContent w subscription)
    | noteSlot uri => exact .inl (Abides.noteSlot w uri)
    | noteGood uri => exact .inl (Abides.noteGood w uri)
    | noteFetched uri metadata => exact .inl (Abides.noteFetched w uri metadata)
    | resolve uri prefetch name =>
      exact Founds.between (Abides.refl w) (founds_resolve w uri prefetch) (Abides.same rfl rfl)
    | probe uri good => exact .inl (Abides.probe w uri good)
    | hint uri => exact .inl (Abides.hint w uri)
    | check uri listener => exact .inl (Abides.submitErrand w _ _ uri)
    | shutdown => exact .inl (Abides.shutdown w)

/-- No run changes the settings. -/
theorem settings_run (w : Watch) (actions : List Action) :
    (w.run actions).settings = w.settings := by
  induction actions generalizing w with
  | nil => rfl
  | cons action rest ih =>
    refine (ih (w.act action)).trans ?_
    rcases founds_act w action with h | ⟨_, -, h⟩
    · exact h.settings
    · exact h.settings

/-! ## Who made a poller -/

/-- In some actions a poller was made, and the call that made it asked for this document from
this edition on. -/
def MadeFor (start : Watch) (actions : List Action) (id : PollerId) (uri : EditionUri) : Prop :=
  ∃ earlier action later, actions = earlier ++ action :: later ∧
    action.departure? = some uri ∧ (start.run earlier).pollers.length = id ∧
    (start.run (earlier ++ [action])).pollers.length = id + 1

/-- What made a poller in the rest of a run made it in the whole. -/
theorem MadeFor.cons {action : Action} {rest : List Action} {id : PollerId} {uri : EditionUri}
    (h : MadeFor (w.act action) rest id uri) : MadeFor w (action :: rest) id uri := by
  obtain ⟨earlier, made, later, rfl, hd, hbefore, hafter⟩ := h
  exact ⟨action :: earlier, made, later, rfl, hd, hbefore, hafter⟩

theorem length_departures (w : Watch) : w.departures.length = w.pollers.length :=
  List.length_map _

/-- A poller that is there has departed from its origin. -/
theorem departures_of_poller {id : PollerId} {p : Poller} (h : w.pollers[id]? = some p) :
    w.departures[id]? = some ⟨p.key, p.origin⟩ := by
  rw [departures, List.getElem?_map, h, Option.map_some]

/-- Every poller of a run was there from the start, or some call of the run made it. -/
theorem madeFor_run (w : Watch) (actions : List Action) {id : PollerId} {uri : EditionUri}
    (h : (w.run actions).departures[id]? = some uri) :
    w.departures[id]? = some uri ∨ MadeFor w actions id uri := by
  induction actions generalizing w with
  | nil => exact .inl h
  | cons action rest ih =>
    rcases ih (w.act action) h with hin | hmade
    · rcases founds_act w action with habides | ⟨departure, hd, hfounds⟩
      · rw [habides.departures, List.append_nil] at hin
        exact .inl hin
      · rcases Roster.getElem?_concat_cases (hfounds.departures ▸ hin) with hold | ⟨hid, huri⟩
        · exact .inl hold
        · subst huri
          have hlength := congrArg List.length hfounds.departures
          rw [List.length_append, length_departures, length_departures] at hlength
          rw [length_departures] at hid
          exact .inr ⟨[], action, rest, rfl, hd, hid.symm, hid ▸ hlength⟩
    · exact .inr hmade.cons

/-- Pollers that are there go on walking from where they do. -/
theorem departures_run (w : Watch) (actions : List Action) {id : PollerId} {uri : EditionUri}
    (h : w.departures[id]? = some uri) : (w.run actions).departures[id]? = some uri := by
  induction actions generalizing w with
  | nil => exact h
  | cons action rest ih =>
    refine ih (w.act action) ?_
    rcases founds_act w action with habides | ⟨departure, -, hfounds⟩
    · rw [habides.departures, List.append_nil]
      exact h
    · have hlt : id < w.departures.length := (List.getElem?_eq_some_iff.mp h).1
      rw [hfounds.departures, List.getElem?_append_left hlt]
      exact h

/-! ## Whom a walk serves -/

/-- A walk that begins here passes over no unknown edition above the one asked for. -/
def Serves (slot : Option Edition) (asked begin : Edition) : Prop :=
  ∀ e, asked < e → isAbove e slot = true → begin ≤ e

/-- A walk serves those whose first edition is not below its origin, and everyone as soon as the
first unknown edition is not. -/
theorem serves_walkStart_iff (slot : Option Edition) (asked origin : Edition) :
    Serves slot asked (Round.walkStart slot origin) ↔
      origin ≤ max (Frontier.nextUnknown ⟨slot, none⟩) (Edition.next asked) := by
  let first : Edition := max (Frontier.nextUnknown ⟨slot, none⟩) (Edition.next asked)
  constructor
  · intro h
    refine UInt64.not_lt.mp fun hfirst => ?_
    have hunknown : Frontier.nextUnknown ⟨slot, none⟩ < origin :=
      UInt64.lt_of_le_of_lt Std.left_le_max hfirst
    have hasked : Edition.next asked < origin :=
      UInt64.lt_of_le_of_lt Std.right_le_max hfirst
    have habove : isAbove first slot = true :=
      Frontier.isAbove_of_nextUnknown_lt Std.left_le_max hunknown
    have hnewer : asked < first :=
      UInt64.lt_of_lt_of_le (Edition.lt_next_of_next_lt hasked) Std.right_le_max
    have hbegin : origin ≤ first :=
      UInt64.le_trans Std.right_le_max (h first hnewer habove)
    exact UInt64.not_le.mpr hfirst hbegin
  · intro h e hasked habove
    have hfirst : first ≤ e :=
      Std.max_le_iff.mpr
      ⟨Frontier.nextUnknown_le_of_isAbove habove, Edition.next_le_of_lt hasked⟩
    exact Std.max_le_iff.mpr ⟨Frontier.nextUnknown_le_of_isAbove habove, UInt64.le_trans h hfirst⟩

/-- A poller that is about to walk sets out from the place where a walk starts. -/
theorem act_aligning {id : PollerId} {p : Poller} {raised : Bool} {key : DocumentKey}
    (alive : w.isAlive = true) (found : w.pollers[id]? = some p) (polls : p.key = key)
    (stage : p.stage = .rounding (.aligning raised)) :
    (w.act (.work (.poller id))).pollers[id]? = some { p with
      stage := .rounding (.walking raised
        (Round.walkStart (w.records.frontier key).slot p.origin) 0 0) } := by
  subst polls
  rw [Course.act_rounding found stage, stepRound, if_pos alive]
  exact getElem?_modify_self found _

/-- The background poller of a document walks from the edition that was named by the call that
made it, be it a subscription or a lookup, whoever joined later, or from the first unknown
edition if that is above. So it passes over nothing that a background subscriber is to hear of
exactly if that edition is not above the first one that is both unknown and above what the
subscriber asked for. -/
theorem walks_from_origin (settings : Settings) (listeners : List Listener)
    (actions : List Action) (key : DocumentKey) (id : PollerId)
    (polled : ((initial settings listeners).run actions).records.pool.poller? key = some id) :
    let start := initial settings listeners
    let w := start.run actions
    let slot := (w.records.frontier key).slot
    ∃ p, w.pollers[id]? = some p ∧ p.key = key ∧
      MadeFor start actions id ⟨key, p.origin⟩ ∧
      (∀ later q, (w.run later).pollers[id]? = some q → q.origin = p.origin) ∧
      (∀ raised, p.stage = .rounding (.aligning raised) →
        (w.act (.work (.poller id))).pollers[id]? = some { p with
          stage := .rounding (.walking raised (Round.walkStart slot p.origin) 0 0) }) ∧
      ∀ callback ∈ w.records.pool.subscribers key, ∃ asked,
        w.records.asked? key callback = some asked ∧
        (Round.walkStart slot p.origin ≤
            max (w.records.frontier key).nextUnknown (Edition.next asked) ↔
          p.origin ≤ max (w.records.frontier key).nextUnknown (Edition.next asked)) ∧
        (Serves slot asked (Round.walkStart slot p.origin) ↔
          p.origin ≤ max (w.records.frontier key).nextUnknown (Edition.next asked)) := by
  intro start w slot
  have hsound : w.roster.Sound := sound_run settings listeners actions
  have hstores : w.roster.Stores key id := .inl polled
  have halive : w.isAlive = true := by
    cases ha : w.isAlive with
    | true => rfl
    | false => exact absurd hstores ((hsound.gone ha).2 key id)
  obtain ⟨p, hp, hkey, -⟩ := hsound.own key id hstores
  have hdeparture := departures_of_poller hp
  refine ⟨p, hp, hkey, ?_, fun later q hq => ?_, fun raised hstage => ?_, fun callback hin => ?_⟩
  · rcases madeFor_run start actions hdeparture with hnone | hmade
    · cases hnone
    · exact hkey ▸ hmade
  · have hsame := (departures_of_poller hq).symm.trans (departures_run w later hdeparture)
    exact congrArg EditionUri.edition (Option.some.inj hsame)
  · exact act_aligning halive hp hkey hstage
  · obtain ⟨history, hhistory, -⟩ := records_run start actions
    obtain ⟨-, henlisted⟩ : w.records.pool.Staffed ∧ w.records.Enlisted := by
      rw [hhistory]
      exact Records.staffed_run (Records.staffed_initial _) (Records.enlisted_initial _) history
    have hasked : w.records.asked? key callback ≠ none := fun hn => by
      rw [Records.asked?_eq_none_iff, henlisted key callback hin] at hn
      cases hn
    obtain ⟨asked, hasked⟩ := Option.ne_none_iff_exists'.mp hasked
    refine ⟨asked, hasked, ?_, serves_walkStart_iff slot asked p.origin⟩
    exact Std.max_le_iff.trans (and_iff_right Std.left_le_max)

/-- A poller that was made to look a document up from the edition 3 on serves a background
subscriber that asked for editions above 5. -/
theorem walks_from_origin_of_lookup :
    let notes : DocumentKey := ⟨.uniform 7, "notes"⟩
    let actions : List Action :=
      [.resolve ⟨notes, 3⟩ false "mine",
        .subscribe notes "ann" { requested := 5, background := true }]
    MadeFor (initial .standard []) actions 0 ⟨notes, 3⟩ ∧
      Serves none 5 (Round.walkStart none 3) := by
  intro notes actions
  obtain ⟨p, hp, -, hmade, -, -, hserves⟩ :=
    walks_from_origin .standard [] actions notes 0 (by decide)
  have horigin : ((initial .standard []).run actions).pollers[0]?.map (·.origin) = some 3 := by
    decide
  rw [hp, Option.map_some, Option.some.injEq] at horigin
  obtain ⟨asked, hasked, -, hiff⟩ := hserves 0 (by decide)
  have hfive : asked = 5 := Option.some.inj (hasked.symm.trans (by decide))
  rw [horigin, hfive] at hiff
  exact ⟨horigin ▸ hmade, hiff.mpr (by decide)⟩

/-- A poller that was made for someone who asked for editions above 10 sets out from the edition
10, also for someone else who asked for all editions, and passes over those in between. -/
theorem skipped_after_join :
    let notes : DocumentKey := ⟨.uniform 7, "notes"⟩
    let w := (initial .standard []).run
      [.subscribe notes "ann" { requested := 10, background := true },
        .subscribe notes "bob" { background := true }]
    let ready := w.run (List.replicate 3 (.work (.poller 0)))
    w.stopped = false ∧ w.records.pool.poller? notes = some 0 ∧
      1 ∈ w.records.pool.subscribers notes ∧ w.records.asked? notes 1 = some 0 ∧
      (ready.pollers[0]?.map fun p => match p.stage with
        | .rounding (.aligning _) => true
        | _ => false) = some true ∧
      ((ready.act (.work (.poller 0))).pollers[0]?.map fun p => match p.stage with
        | .rounding (.walking _ e _ _) => e
        | _ => 0) = some 10 ∧
      ¬10 ≤ max (ready.records.frontier notes).nextUnknown (Edition.next 0) ∧
      ¬Serves (ready.records.frontier notes).slot 0 10 := by
  refine ⟨by decide, by decide, by decide, by decide, by decide, by decide, by decide, ?_⟩
  exact fun h => absurd (h 1 (by decide) (by decide)) (by decide)

end EditionWatch.Watch
