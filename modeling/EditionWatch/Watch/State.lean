import EditionWatch.Delivery.ContentFeed
import EditionWatch.Delivery.SparseGate
import EditionWatch.Poller.Basic
import EditionWatch.Records.Basic

/-!
# The state of a watch

A watch is its records together with all the work it has put off: pollers, errands of a
single fetch, and the job that hands out deliveries. Work is not done when it comes up but
submitted to an executor, which may refuse some kinds. The owner's hold on the watch keeps
it alive, and so do the errands that work on the owner's behalf; when the last hold goes,
everything that is left to do is cancelled.
-/

namespace EditionWatch

/-- The kinds of work that are submitted for execution. -/
inductive JobKind where
  /-- The sweeper of prefetch marks. -/
  | sweeper
  /-- Handing out deliveries. -/
  | delivery
  /-- A poller. -/
  | poller
  /-- Following up a hint. -/
  | hint
  /-- Checking a hint for someone. -/
  | hintCheck
  /-- Fetching the content of a stalled slot. -/
  | prefetch
  /-- Fetching content for a subscription. -/
  | retrieval
  deriving DecidableEq, Repr

/-- The name under which a kind of work is submitted. -/
def JobKind.text : JobKind → String
  | .sweeper => "prefetch_ticker"
  | .delivery => "dispatch"
  | .poller => "fetcher"
  | .hint => "hint"
  | .hintCheck => "hint_check"
  | .prefetch => "prefetch"
  | .retrieval => "retrieve"

/-- All kinds of work. -/
def JobKind.all : List JobKind :=
  [.sweeper, .delivery, .poller, .hint, .hintCheck, .prefetch, .retrieval]

/-- What an errand is for. -/
inductive Purpose where
  /-- To follow up a hint. -/
  | hint
  /-- To check a hint and report to someone. -/
  | check (listener : String)
  /-- To tell the owner, who waits for it, whether an edition exists; if it does it counts
  as known good or only as a slot. -/
  | probe (good : Bool)
  /-- To confirm a stalled slot. -/
  | prefetch
  /-- To bring content to a feed. -/
  | retrieval (feed : FeedId)
  deriving DecidableEq

/-- What an errand fetches. -/
def Purpose.fetches : Purpose → FetchKind
  | .prefetch => .content
  | .retrieval _ => .content
  | _ => .block

/-- Whether an errand keeps the watch alive. -/
def Purpose.holds : Purpose → Bool
  | .prefetch => false
  | .retrieval _ => false
  | _ => true

/-- Work that consists of a single fetch and what follows from its reply. -/
structure Errand where
  /-- The number of the errand. -/
  id : Nat
  /-- What it is for. -/
  purpose : Purpose
  /-- The edition it is about. -/
  uri : EditionUri
  /-- The fetch, once it has been issued. -/
  flight : Option Flight

/-- The sweeper of prefetch marks. -/
inductive Sweeper where
  /-- It was handed over for execution. -/
  | submitted
  /-- It sleeps until some time. -/
  | sleeping (wake : Instant)
  /-- It is over. -/
  | ended

/-- A registered callback as its holder sees it. -/
structure Subscription where
  /-- The document. -/
  key : DocumentKey
  /-- The callback. -/
  callback : CallbackId
  /-- Whether the document is polled in the background for it. -/
  background : Bool
  deriving DecidableEq

/-- The diagnostic form of a subscription; `mark` stands for the identity of the callback. -/
def Subscription.debugText (s : Subscription) (mark : String) : String :=
  "SubscriptionHandle \x7b key: " ++ s.key.debugText ++ ", callback: CallbackRef(" ++ mark
    ++ "), background_poll: " ++ (if s.background then "true" else "false") ++ " \x7d"

/-- Where the calls of a callback go. -/
inductive Target where
  /-- To a listener of the owner. -/
  | listener (name : String)
  /-- To a content feed. -/
  | feed (id : FeedId)
  deriving DecidableEq

/-- A callback: where its calls go, and the sparse gate they have to pass. -/
structure Callback where
  /-- The sparse gate, if there is one. -/
  gate : Option SparseGate
  /-- Where the calls go. -/
  target : Target

/-- What a listener does about an edition it is told of. -/
inductive Reaction where
  /-- It vouches for the content of the edition. -/
  | vouch
  /-- It announces the next edition, below some limit. -/
  | announceNext (limit : Edition)
  /-- It ends its latest subscription. -/
  | leave
  /-- It passes on a hint. -/
  | hint (uri : EditionUri)
  /-- It stops all background work. -/
  | stop
  deriving DecidableEq

/-- A listener of the owner. -/
structure Listener where
  /-- The name of the listener. -/
  name : String
  /-- The editions at which its call fails. -/
  failsAt : List Edition
  /-- What it does when it is told of an edition. -/
  reaction : Option Reaction
  /-- Its latest subscription. -/
  subscription : Option Subscription

/-- What can be seen of a watch at work. -/
inductive Event where
  /-- A listener was told of an edition. -/
  | found (listener : String) (found : Found)
  /-- A listener was told that a round is over. -/
  | round (listener : String) (key : DocumentKey)
  /-- A listener received content. -/
  | content (listener : String) (uri : EditionUri)
  /-- A listener was told that content could not be fetched. -/
  | failed (listener : String) (uri : EditionUri) (cause : FetchFault)
  /-- A listener learned whether an edition exists. -/
  | checked (listener : String) (uri : EditionUri) (result : HintResult)
  /-- A fetch was issued. -/
  | fetched (time : Instant) (request : Request)
  /-- The sweeper was submitted. -/
  | sweeperSubmitted
  /-- A poller was submitted. -/
  | pollerSubmitted (id : PollerId) (key : DocumentKey)
  /-- The call of a listener failed. -/
  | callFailed

/-- A watch with all its unfinished work. -/
structure Watch where
  /-- The settings. -/
  settings : Settings
  /-- The present time. -/
  now : Instant
  /-- The network that answers fetches. -/
  network : Network
  /-- The kinds of work that the executor refuses. -/
  refused : List JobKind
  /-- How many pieces of work the executor has taken. -/
  submissions : Nat
  /-- What the watch knows. -/
  records : Records
  /-- Whether the owner holds the watch. -/
  held : Bool
  /-- Whether all work has been cancelled. -/
  stopped : Bool
  /-- All pollers ever made, by number. -/
  pollers : List Poller
  /-- The errands that are not over. -/
  errands : List Errand
  /-- How many errands have been sent. -/
  errandsSent : Nat
  /-- How many jobs are handing out deliveries. -/
  deliveryJobs : Nat
  /-- The sweeper. -/
  sweeper : Sweeper
  /-- All callbacks ever made, by number. -/
  callbacks : List Callback
  /-- All content feeds ever made, by number. -/
  feeds : List ContentFeed
  /-- The listeners of the owner. -/
  listeners : List Listener
  /-- The pollers that the owner holds, each under a name. -/
  handles : List (String × PollerId)
  /-- What the owner's latest probe showed. -/
  probed : Option Verdict
  /-- Everything that could be seen so far. -/
  journal : Array Event

namespace Watch

/-- A new watch; its sweeper is already submitted. -/
def initial (settings : Settings) (listeners : List Listener) : Watch where
  settings := settings
  now := 0
  network := .quiet
  refused := []
  submissions := 1
  records := .initial settings.maxTemporary.toNat
  held := true
  stopped := false
  pollers := []
  errands := []
  errandsSent := 0
  deliveryJobs := 0
  sweeper := .submitted
  callbacks := []
  feeds := []
  listeners := listeners
  handles := []
  probed := none
  journal := #[.sweeperSubmitted]

/-- Adds to what could be seen. -/
def log (w : Watch) (event : Event) : Watch := { w with journal := w.journal.push event }

/-- Whether someone holds the watch. -/
def isAlive (w : Watch) : Bool := w.held || w.errands.any fun errand => errand.purpose.holds

/-- Changes one poller. -/
def modifyPoller (w : Watch) (id : PollerId) (change : Poller → Poller) : Watch :=
  { w with pollers := w.pollers.modify id change }

/-- Cancels one poller. -/
def cancelPoller (w : Watch) (id : PollerId) : Watch :=
  w.modifyPoller id Poller.cancel

/-- Cancels several pollers. -/
def cancelPollers (w : Watch) (ids : List PollerId) : Watch := ids.foldl cancelPoller w

/-- Whether a poller is cancelled, by itself or along with everything else. -/
def isCancelled (w : Watch) (p : Poller) : Bool := p.cancelled || w.stopped

/-- Whether someone can still send commands to a poller: it is in the records, the owner
holds it, or a poller that has not begun is going to cancel it. -/
def isReferred (w : Watch) (id : PollerId) : Bool :=
  id ∈ w.records.pollers || w.handles.any (fun handle => handle.2 = id)
    || w.pollers.any fun p => id ∈ p.evicted

/-- Stops everything if nobody holds the watch any more. The records of pollers go with it. -/
def reap (w : Watch) : Watch :=
  if w.isAlive then w else { w with stopped := true, records := w.records.forgetPollers }

/-- The owner gives up its hold. -/
def release (w : Watch) : Watch := { w with held := false }.reap

/-- Whether the executor takes a kind of work. -/
def takes (w : Watch) (kind : JobKind) : Bool := !w.refused.contains kind

/-- The watch after the executor took one more piece of work. -/
def countSubmission (w : Watch) : Watch := { w with submissions := w.submissions + 1 }

/-- The watch once someone has asked for a delivery job. -/
def claimJob (w : Watch) : Watch := { w with records := w.records.claimQueue }

/-- Submits the delivery job that was asked for. -/
def submitJob (w : Watch) : Watch :=
  if w.takes .delivery then { w with deliveryJobs := w.deliveryJobs + 1 }.countSubmission else w

/-- Asks for a delivery job if one is needed. -/
def flush (w : Watch) : Watch :=
  if w.records.queue.needsJob then w.claimJob.submitJob else w

/-- A fetch that has just been issued, and the watch after it. -/
structure Issue where
  /-- The watch. -/
  watch : Watch
  /-- The fetch. -/
  flight : Flight

/-- Issues a fetch; a probe is counted. -/
def issue (w : Watch) (request : Request) : Issue :=
  let flight := w.network.issue w.now request
  let w := w.log (.fetched w.now request)
  let w :=
    match request.kind with
    | .block => { w with records := w.records.countProbe }
    | .content => w
  ⟨if w.network.releases request then w.release else w, flight⟩

end Watch

end EditionWatch
