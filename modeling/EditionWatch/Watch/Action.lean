import EditionWatch.Watch.Work

/-!
# Runs of a watch

Everything that happens to a watch happens in actions: a call of its owner, a turn of a job,
or something from outside. Actions may come in any order, but the owner can call the watch
only as long as it holds it. What a run amounts to for polling is read off the calls: who began to
want a document polled, who ceased to, and what was looked up.

A poller that rests for a while waits for two things at once, a command and its time to wake. If
both have come when it takes up its work again, a turn of it takes the commands. That is one of two
ways to go on: it might as well notice the time first, and begin a round without the commands. Both
are actions, so what holds of all runs holds no matter which is noticed first.
-/

namespace EditionWatch

namespace Watch

/-- Something that happens to a watch. -/
inductive Action where
  /-- A job takes a turn. -/
  | work (job : Job)
  /-- A poller notices that its time to wake has come, whatever else has come. -/
  | wake (id : PollerId)
  /-- The fetch that a job waits for breaks down, and the job with it. -/
  | crash (job : Job)
  /-- Time passes. -/
  | elapse (span : Nat)
  /-- The network changes. -/
  | setNetwork (network : Network)
  /-- From now on the executor refuses exactly these kinds of work. -/
  | refuse (kinds : List JobKind)
  /-- The owner lets go of a poller that it held under a name. -/
  | letGo (name : String)
  /-- The owner waits no longer for its probe. -/
  | dropProbe
  /-- The owner gives up the watch. -/
  | release
  /-- The owner subscribes a listener. -/
  | subscribe (key : DocumentKey) (listener : String) (options : SubscribeOptions)
  /-- The owner removes a subscription. -/
  | unsubscribe (subscription : Subscription)
  /-- The owner subscribes a listener to content. -/
  | subscribeContent (key : DocumentKey) (listener : String) (quiet : Bool)
      (options : SubscribeOptions)
  /-- The owner removes a subscription to content. -/
  | unsubscribeContent (subscription : ContentSubscription)
  /-- The owner notes that an edition exists. -/
  | noteSlot (uri : EditionUri)
  /-- The owner notes that the content of an edition was fetched. -/
  | noteGood (uri : EditionUri)
  /-- The owner notes that an edition was fetched elsewhere. -/
  | noteFetched (uri : EditionUri) (metadata : Bool)
  /-- The owner looks a document up and holds the poller under a name. -/
  | resolve (uri : EditionUri) (prefetch : Bool) (name : String)
  /-- The owner begins a probe. -/
  | probe (uri : EditionUri) (good : Bool)
  /-- The owner passes on a hint. -/
  | hint (uri : EditionUri)
  /-- The owner has a hint checked. -/
  | check (uri : EditionUri) (listener : String)
  /-- The owner stops all background work. -/
  | shutdown

/-- Whether an action is a call on the watch, for which its owner has to hold it. -/
def Action.isCall : Action → Bool
  | .work _ => false
  | .wake _ => false
  | .crash _ => false
  | .elapse _ => false
  | .setNetwork _ => false
  | .refuse _ => false
  | .letGo _ => false
  | .dropProbe => false
  | .release => false
  | _ => true

/-- The turn of a job. Deliveries are handed out only by a delivery job. -/
def takeTurn (w : Watch) : Job → Watch
  | .delivery => if 0 < w.deliveryJobs then w.deliverNext.watch else w
  | job => (w.turn job).watch

/-- The end of a job whose fetch breaks down. -/
def crash (w : Watch) : Job → Watch
  | .poller id =>
    match (w.pollers[id]?).bind Poller.flight? with
    | some _ => w.finishPoller id
    | none => w
  | .errand id =>
    match (w.errands.find? fun errand => errand.id = id).bind Errand.flight with
    | some _ => w.dismiss id
    | none => w
  | _ => w

/-- The owner lets go of the poller that it holds under a name. -/
def letGo (w : Watch) (name : String) : Watch :=
  { w with handles := w.handles.filter fun handle => handle.1 ≠ name }

/-- What an action does, if the owner may call the watch. -/
def perform (w : Watch) : Action → Watch
  | .work job => w.takeTurn job
  | .wake id => w.wake id
  | .crash job => w.crash job
  | .elapse span => { w with now := w.now + span }
  | .setNetwork network => { w with network := network }
  | .refuse kinds => { w with refused := kinds }
  | .letGo name => w.letGo name
  | .dropProbe => w.dropProbe
  | .release => w.release
  | .subscribe key listener options =>
    match w.subscribe key listener options with
    | .error _ => w
    | .ok result => result.watch
  | .unsubscribe subscription => w.unsubscribe subscription
  | .subscribeContent key listener quiet options =>
    match w.subscribeContent key listener quiet options with
    | .error _ => w
    | .ok result => result.watch
  | .unsubscribeContent subscription => w.unsubscribeContent subscription
  | .noteSlot uri => w.noteSlot uri
  | .noteGood uri => w.noteGood uri
  | .noteFetched uri metadata => w.noteFetched uri metadata
  | .resolve uri prefetch name =>
    let result := w.resolve uri prefetch
    result.watch.bind name result.poller
  | .probe uri good => w.probe uri good
  | .hint uri => w.hint uri
  | .check uri listener => w.check uri listener
  | .shutdown => w.shutdown

/-- The watch after an action. -/
def act (w : Watch) (action : Action) : Watch :=
  if action.isCall && !w.held then w else w.perform action

/-- The watch after several actions. -/
def run (w : Watch) (actions : List Action) : Watch := actions.foldl act w

@[simp] theorem run_nil (w : Watch) : w.run [] = w := rfl

@[simp] theorem run_cons (w : Watch) (action : Action) (rest : List Action) :
    w.run (action :: rest) = (w.act action).run rest := rfl

/-- A longer run does what its parts do, one after the other. -/
theorem run_append (w : Watch) (earlier later : List Action) :
    w.run (earlier ++ later) = (w.run earlier).run later := List.foldl_append

/-! ## Who wants a document polled -/

/-- Someone begins or ceases to want a document polled in the background, or looks it up. -/
inductive Interest where
  /-- A callback was subscribed with background polling. -/
  | begins (key : DocumentKey) (callback : CallbackId)
  /-- A callback was removed, whatever it was subscribed with. -/
  | ends (key : DocumentKey) (callback : CallbackId)
  /-- A document was looked up. -/
  | looksUp (key : DocumentKey)
  deriving DecidableEq

/-- What it means for background polling that a subscription was made. -/
def interestOf (s : Subscription) : List Interest :=
  if s.background then [.begins s.key s.callback] else []

/-- What it means for background polling that a subscription was removed. -/
def farewell (s : Subscription) : Interest := .ends s.key s.callback

/-- The subscription that a listener ends when it is told something. -/
def leaving (w : Watch) (name : String) : Signal → List Interest
  | .found found =>
    match w.listener? name with
    | none => []
    | some l =>
      if !l.failsAt.contains found.edition && w.isAlive && l.reaction = some .leave then
        l.subscription.toList.map farewell
      else []
  | .round _ => []

/-- The subscriptions that end when a target is told one thing after the other. -/
def leavings (w : Watch) (target : Target) : List Signal → List Interest
  | [] => []
  | signal :: rest =>
    let call := w.callTarget target signal
    (match target with
      | .listener name => w.leaving name signal
      | .feed _ => [])
      ++ if call.returned then call.watch.leavings target rest else []

/-- The subscriptions that end when a callback is told something. -/
def farewells (w : Watch) (id : CallbackId) (signal : Signal) : List Interest :=
  match w.callbacks[id]? with
  | none => []
  | some callback =>
    match callback.gate with
    | none => w.leavings callback.target [signal]
    | some gate =>
      let passage := gate.feed signal
      let w :=
        { w with callbacks := w.callbacks.modify id fun c => { c with gate := some passage.gate } }
      w.leavings callback.target passage.through

/-- The subscriptions that end when the next delivery is handed out. -/
def farewellsOfNext (w : Watch) : List Interest :=
  match w.takeDelivery? with
  | none => []
  | some (.found callback found, w) => w.farewells callback (.found found)
  | some (.round callback key, w) => w.farewells callback (.round key)

/-- What an action means for polling, if the owner may call the watch. -/
def meaning (w : Watch) : Action → List Interest
  | .work .delivery => if 0 < w.deliveryJobs then w.farewellsOfNext else []
  | .subscribe key listener options =>
    match w.subscribe key listener options with
    | .error _ => []
    | .ok result => interestOf result.subscription
  | .unsubscribe subscription => [farewell subscription]
  | .subscribeContent key listener quiet options =>
    match w.subscribeContent key listener quiet options with
    | .error _ => []
    | .ok result => interestOf result.subscription.inner
  | .unsubscribeContent subscription => [farewell subscription.inner]
  | .resolve uri _ _ => [.looksUp uri.key]
  | _ => []

/-- What an action means for polling. -/
def interests (w : Watch) (action : Action) : List Interest :=
  if action.isCall && !w.held then [] else w.meaning action

/-- What several actions mean for polling, in order. -/
def story (w : Watch) : List Action → List Interest
  | [] => []
  | action :: rest => w.interests action ++ (w.act action).story rest

/-- Someone wants a document polled in the background: it began to and has not ceased. -/
def Wanted (story : List Interest) (key : DocumentKey) (callback : CallbackId) : Prop :=
  ∃ earlier later, story = earlier ++ .begins key callback :: later ∧
    .ends key callback ∉ later

/-! ## Runs without mishap -/

/-- Whether a poller is about to rest for longer than can be said. -/
def overflows (w : Watch) (id : PollerId) : Bool :=
  match w.pollers[id]? with
  | none => false
  | some p =>
    match p.stage, p.mode with
    | .rounding (.over found), .forever =>
      (Backoff.pause? w.settings p.backoff found).isNone
    | _, _ => false

/-- Whether an action goes without mishap for pollers: no fetch breaks down, no poller is
refused, and no wait is too long to be said. -/
def isSmooth (w : Watch) : Action → Bool
  | .crash _ => false
  | .refuse kinds => !kinds.contains .poller
  | .work (.poller id) => !w.overflows id
  | _ => true

/-- Whether several actions go without mishap for pollers. -/
def runsSmoothly (w : Watch) : List Action → Bool
  | [] => true
  | action :: rest => w.isSmooth action && (w.act action).runsSmoothly rest

/-- Whether an action lets pollers at work go on: no fetch breaks down, and no wait is too long
to be said. The executor may refuse whatever it likes. -/
def isSteady (w : Watch) : Action → Bool
  | .crash _ => false
  | .work (.poller id) => !w.overflows id
  | _ => true

/-- Whether several actions let pollers at work go on. -/
def runsSteadily (w : Watch) : List Action → Bool
  | [] => true
  | action :: rest => w.isSteady action && (w.act action).runsSteadily rest

end Watch

end EditionWatch
