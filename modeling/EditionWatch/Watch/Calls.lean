import EditionWatch.Watch.State

/-!
# Calls on a watch

What can be asked of a watch: to subscribe callbacks and to remove them, to take note of
editions, to look documents up, to follow hints, and to stop. A call only changes the records
and submits work; whatever takes time is done later.
-/

namespace EditionWatch.Watch

/-- Records that an edition exists. -/
def noteSlot (w : Watch) (uri : EditionUri) : Watch :=
  { w with records := w.records.noteSlot w.now uri }.flush

/-- Records that the content of an edition was fetched. -/
def noteGood (w : Watch) (uri : EditionUri) : Watch :=
  { w with records := w.records.noteGood w.now uri }.flush

/-- Takes note of an edition that was fetched elsewhere, in full or only its metadata. -/
def noteFetched (w : Watch) (uri : EditionUri) (metadata : Bool) : Watch :=
  if metadata then w.noteSlot uri else w.noteGood uri

/-- Makes a poller and submits it; it cancels `evicted` when it begins. A refused poller is
over at once, and then nobody cancels the evicted ones. -/
def submitPoller (w : Watch) (poller : Poller) (evicted : List PollerId) : Watch :=
  let w := w.log (.pollerSubmitted w.pollers.length poller.key)
  if w.takes .poller then
    { w with
      pollers := w.pollers ++ [{ poller with stage := .submitted evicted }] }.countSubmission
  else { w with pollers := w.pollers ++ [{ poller with stage := .ended }] }

/-- Has a document polled in the background for a callback that was just registered. -/
def cover (w : Watch) (key : DocumentKey) (callback : CallbackId) (requested : Edition) :
    Watch :=
  let coverage := w.records.coverage key
  let w := { w with records := w.records.cover key callback }
  match coverage with
  | .joined => w.flush
  | .promoted poller => (w.modifyPoller poller (·.send .pollForever)).flush
  | .started _ => w.flush.submitPoller (.create w.settings key requested .forever) []

/-- What someone asks for when subscribing a callback. -/
structure SubscribeOptions where
  /-- Only editions above this one are of interest. -/
  requested : Edition := 0
  /-- Whether the document is to be polled in the background. -/
  background : Bool := false
  /-- Whether only the newest slot of each round is of interest. -/
  sparse : Bool := false
  /-- Whether the subscription is to outlive the watch, which is not supported. -/
  persistent : Bool := false
  deriving DecidableEq

namespace SubscribeOptions

/-- The options that ask for editions above one. -/
def fromEdition (requested : Edition) : SubscribeOptions := { requested := requested }

/-- The options with background polling. -/
def withBackground (options : SubscribeOptions) : SubscribeOptions :=
  { options with background := true }

/-- The options with sparse delivery, which needs background polling. -/
def withSparse (options : SubscribeOptions) : SubscribeOptions :=
  { options with sparse := true, background := true }

/-- Whether the options come down to background polling. -/
def polls (options : SubscribeOptions) : Bool := options.background || options.sparse

end SubscribeOptions

/-- The cause for which a subscription is refused. -/
inductive SubscribeFault where
  /-- Subscriptions cannot outlive their watch. -/
  | persistent
  deriving DecidableEq, Repr

/-- The sentence that names the fault. -/
def SubscribeFault.message : SubscribeFault → String
  | .persistent => "persistent subscriptions are not supported"

/-- Registers a callback for a document, with background polling if asked for. -/
def attach (w : Watch) (key : DocumentKey) (callback : CallbackId)
    (options : SubscribeOptions) : Watch :=
  let w := { w with records := w.records.register key callback options.requested }
  if options.polls then w.cover key callback options.requested else w.flush

/-- A watch with one more callback, and its number. -/
structure CallbackChoice where
  /-- The watch. -/
  watch : Watch
  /-- The callback. -/
  callback : CallbackId

/-- Makes a new callback. -/
def makeCallback (w : Watch) (gate : Option SparseGate) (target : Target) : CallbackChoice :=
  ⟨{ w with callbacks := w.callbacks ++ [⟨gate, target⟩] }, w.callbacks.length⟩

/-- The callback through which a target is reached: behind a gate of its own if delivery is
to be sparse, else the same one every time. -/
def callbackFor (w : Watch) (target : Target) (sparse : Bool) : CallbackChoice :=
  if sparse then w.makeCallback (some .fresh) target
  else
    match w.callbacks.findIdx? fun c => c.gate.isNone && c.target = target with
    | some callback => ⟨w, callback⟩
    | none => w.makeCallback none target

/-- A watch with one more subscription. -/
structure Subscribed where
  /-- The watch. -/
  watch : Watch
  /-- The subscription. -/
  subscription : Subscription

/-- Subscribes a target to a document. -/
def subscribeTarget (w : Watch) (key : DocumentKey) (target : Target)
    (options : SubscribeOptions) : Subscribed :=
  let choice := w.callbackFor target options.sparse
  ⟨choice.watch.attach key choice.callback options, ⟨key, choice.callback, options.polls⟩⟩

/-- Adds a listener that neither fails nor reacts, if the name is new. -/
def addListener (w : Watch) (name : String) : Watch :=
  if w.listeners.any fun l => l.name = name then w
  else { w with listeners := w.listeners ++ [⟨name, [], none, none⟩] }

/-- Changes the listeners of a name. -/
def modifyListener (w : Watch) (name : String) (change : Listener → Listener) : Watch :=
  { w with listeners := w.listeners.map fun l => if l.name = name then change l else l }

/-- Subscribes a listener to a document. -/
def subscribe (w : Watch) (key : DocumentKey) (name : String) (options : SubscribeOptions) :
    Except SubscribeFault Subscribed :=
  if options.persistent then .error .persistent
  else
    let result := (w.addListener name).subscribeTarget key (.listener name) options
    .ok { result with
      watch := result.watch.modifyListener name fun l =>
        { l with subscription := some result.subscription } }

/-- A subscription to content: the subscription of its feed. -/
structure ContentSubscription where
  /-- The subscription. -/
  inner : Subscription
  /-- The feed. -/
  feed : FeedId
  deriving DecidableEq

/-- A watch with one more subscription to content. -/
structure ContentSubscribed where
  /-- The watch. -/
  watch : Watch
  /-- The subscription. -/
  subscription : ContentSubscription

/-- Subscribes to the content of a document; with background polling only the newest edition
of each round is fetched. -/
def subscribeContent (w : Watch) (key : DocumentKey) (name : String) (quiet : Bool)
    (options : SubscribeOptions) : Except SubscribeFault ContentSubscribed :=
  if options.persistent then .error .persistent
  else
    let feed := w.feeds.length
    let w := { w with feeds := w.feeds ++ [ContentFeed.fresh name quiet] }
    let options := { options with sparse := options.sparse || options.background }
    let result := w.subscribeTarget key (.feed feed) options
    .ok ⟨result.watch, ⟨result.subscription, feed⟩⟩

/-- Removes a subscription, and stops the background poller that nobody needs any more. -/
def unsubscribe (w : Watch) (s : Subscription) : Watch :=
  let idle := w.records.idleWithout s.key s.callback
  let w := { w with records := w.records.unregister s.key s.callback }
  w.cancelPollers idle.toList

/-- Cancels a content feed. -/
def cancelFeed (w : Watch) (feed : FeedId) : Watch :=
  { w with feeds := w.feeds.modify feed fun f => { f with cancelled := true } }

/-- Removes a subscription to content and cancels its feed. -/
def unsubscribeContent (w : Watch) (s : ContentSubscription) : Watch :=
  (w.unsubscribe s.inner).cancelFeed s.feed

/-- A watch after a lookup, and the poller that serves it. -/
structure Resolved where
  /-- The watch. -/
  watch : Watch
  /-- The poller. -/
  poller : PollerId

/-- Looks a document up from an edition on. A poller that is there already gets the edition
as a hint, else a temporary one is made. -/
def resolve (w : Watch) (uri : EditionUri) (prefetch : Bool) : Resolved :=
  let lookup := w.records.lookup uri.key
  let w := { w with records := w.records.resolve w.now uri.key prefetch }
  match lookup with
  | .hinted poller => ⟨w.modifyPoller poller (·.send (.hint uri.edition)), poller⟩
  | .started poller evicted =>
    ⟨w.submitPoller (.create w.settings uri.key uri.edition .once) evicted.toList, poller⟩

/-- Lets the owner hold a poller under a name, which until then may have stood for another. -/
def bind (w : Watch) (name : String) (poller : PollerId) : Watch :=
  { w with handles := (name, poller) :: w.handles.filter fun handle => handle.1 ≠ name }

/-- Adds an errand that has not begun. -/
def addErrand (w : Watch) (purpose : Purpose) (uri : EditionUri) : Watch :=
  { w with
    errands := w.errands ++ [⟨w.errandsSent, purpose, uri, none⟩]
    errandsSent := w.errandsSent + 1 }

/-- Submits an errand; a refused one is forgotten. -/
def submitErrand (w : Watch) (kind : JobKind) (purpose : Purpose) (uri : EditionUri) : Watch :=
  if w.takes kind then (w.addErrand purpose uri).countSubmission else w

/-- Follows up a hint, unless a newer slot is known. -/
def hint (w : Watch) (uri : EditionUri) : Watch :=
  match (w.records.frontier uri.key).slot with
  | some slot => if uri.edition < slot then w else w.submitErrand .hint .hint uri
  | none => w.submitErrand .hint .hint uri

/-- Checks a hint for a listener. -/
def check (w : Watch) (uri : EditionUri) (listener : String) : Watch :=
  w.submitErrand .hintCheck (.check listener) uri

/-- Stops all background work for good. -/
def shutdown (w : Watch) : Watch :=
  let pollers := w.records.pollers
  let w := { w with stopped := true, records := w.records.removePollers }
  w.cancelPollers pollers

end EditionWatch.Watch
