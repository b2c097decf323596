import EditionWatch.Watch.Delivery

/-!
# Doing the work

The work of a watch is divided into jobs, and the run of a job into turns. One turn makes at
most one change to the records. A job goes on turn by turn until it has to wait; whether it
was cancelled it notices only when it takes up its work again after waiting.
-/

namespace EditionWatch.Watch

/-- A job of the watch. -/
inductive Job where
  /-- Sweeping the prefetch marks. -/
  | sweeper
  /-- Handing out deliveries. -/
  | delivery
  /-- Polling. -/
  | poller (id : PollerId)
  /-- An errand. -/
  | errand (id : Nat)
  deriving DecidableEq

/-- Puts the work of a poller to another stage. -/
def setStage (w : Watch) (id : PollerId) (stage : Poller.Stage) : Watch :=
  w.modifyPoller id fun p => { p with stage := stage }

/-- Ends the work of a poller. -/
def finishPoller (w : Watch) (id : PollerId) : Watch := w.modifyPoller id Poller.finish

/-- The turn that takes a poller's round one step further. -/
def setRound (w : Watch) (id : PollerId) (round : Round) : Turn :=
  ⟨w.setStage id (.rounding round), true⟩

/-- The last turn of a poller that finds the watch gone, or cannot go on. -/
def abandon (w : Watch) (id : PollerId) : Turn := ⟨w.finishPoller id, false⟩

/-- The last turn of a poller: it takes itself out of the records. -/
def endPoller (w : Watch) (id : PollerId) (key : DocumentKey) (cancelled : Bool) : Turn :=
  let w := w.finishPoller id
  if w.isAlive && w.records.indexes key id then
    let w := { w with records := w.records.removePoller key id cancelled }
    ⟨w.cancelPoller id, false⟩
  else ⟨w, false⟩

/-- The turn in which a round receives the reply it waited for. -/
def takeReply (w : Watch) (id : PollerId) (key : DocumentKey) (round : Round) (reply : Reply) :
    Turn :=
  match round with
  | .askingHint e hints =>
    let w := { w with records := w.records.countVerdict reply.verdict }
    if reply.verdict = .present then
      if w.isAlive then
        let raised := w.records.raisesSlot ⟨key, e⟩
        (w.noteSlot ⟨key, e⟩).setRound id (.aligning raised)
      else w.abandon id
    else w.setRound id (.hinting hints)
  | .asking found e misses probes =>
    let w := { w with records := w.records.countVerdict reply.verdict }
    if reply.verdict = .present then
      if w.isAlive then
        let raised := w.records.raisesSlot ⟨key, e⟩
        (w.noteSlot ⟨key, e⟩).setRound id (.hit found raised e probes)
      else w.abandon id
    else w.setRound id (.miss found e misses probes)
  | .fetching slot =>
    let w := if reply = .data && w.isAlive then w.noteGood ⟨key, slot⟩ else w
    w.setRound id (.over true)
  | round => w.setRound id round

/-- The turn in which a round issues a fetch. A reply that is there at once is taken in the
same turn. -/
def sendRequest (w : Watch) (id : PollerId) (key : DocumentKey) (round : Round)
    (request : Request) : Turn :=
  let issue := w.issue request
  match issue.flight.answer w.now with
  | some reply => issue.watch.takeReply id key round reply
  | none => ⟨issue.watch.setStage id (.waiting round issue.flight), false⟩

/-- Whether a resting poller has something to do before its time. -/
def isCalled (w : Watch) (id : PollerId) (p : Poller) : Bool :=
  !p.inbox.isEmpty || !w.isReferred id

/-- The turn in which a poller goes to rest; it goes on if it is called already. -/
def rest (w : Watch) (id : PollerId) (p : Poller) (wake : Option Instant) : Turn :=
  let w := w.setStage id (.resting wake)
  ⟨w, w.isCalled id p⟩

/-- The turn in which a poller closes a round. -/
def closeRound (w : Watch) (id : PollerId) (p : Poller) (found : Bool) : Turn :=
  let w := { w with records := w.records.countRound }
  let w := w.modifyPoller id fun p => { p with rounds := p.rounds + 1 }
  if w.isAlive then
    let w := { w with records := w.records.finishRound p.key }.flush
    match p.mode with
    | .once => w.rest id p none
    | .forever =>
      match Backoff.pause? w.settings p.backoff found with
      | none => w.abandon id
      | some pause =>
        let w := w.modifyPoller id fun p => { p with backoff := pause.next }
        w.rest id p (some (w.now + pause.wait.nanoseconds))
  else w.abandon id

/-- One turn of a poller inside a round. -/
def stepRound (w : Watch) (id : PollerId) (p : Poller) (round : Round) : Turn :=
  let frontier := w.records.frontier p.key
  match round with
  | .opening hints =>
    if w.isAlive then w.setRound id (.selectHints frontier hints) else w.abandon id
  | .hinting [] => w.setRound id (.aligning false)
  | .hinting (e :: hints) =>
    if w.isAlive then w.setRound id (.tryHint frontier e hints) else w.abandon id
  | .aligning found =>
    if w.isAlive then w.setRound id (.align frontier p.origin found) else w.abandon id
  | .walking found e misses probes =>
    w.setRound id (.proceed w.settings found e misses probes)
  | .confirming => w.setRound id (if w.isAlive then .confirm frontier else .over true)
  | .over found => w.closeRound id p found
  | .askingHint e hints => w.sendRequest id p.key (.askingHint e hints) ⟨.block, ⟨p.key, e⟩⟩
  | .asking found e misses probes =>
    w.sendRequest id p.key (.asking found e misses probes) ⟨.block, ⟨p.key, e⟩⟩
  | .fetching slot => w.sendRequest id p.key (.fetching slot) ⟨.content, ⟨p.key, slot⟩⟩

/-- Whether a time to wake has come. -/
def isDue (w : Watch) : Option Instant → Bool
  | none => false
  | some wake => wake ≤ w.now

/-- Begins a new round of a poller. -/
def beginRound (w : Watch) (id : PollerId) : Turn := ⟨w.modifyPoller id (·.beginRound), true⟩

/-- One turn of a poller. -/
def stepPoller (w : Watch) (id : PollerId) : Turn :=
  match w.pollers[id]? with
  | none => ⟨w, false⟩
  | some p =>
    match p.stage with
    | .submitted evicted =>
      let w := (w.setStage id (.resting none)).cancelPollers evicted
      if w.isCancelled p then w.endPoller id p.key true else w.beginRound id
    | .rounding round => w.stepRound id p round
    | .waiting round flight =>
      if w.isCancelled p then w.endPoller id p.key true
      else
        match flight.answer w.now with
        | none => ⟨w, false⟩
        | some reply => w.takeReply id p.key round reply
    | .resting wake =>
      if w.isCancelled p then w.endPoller id p.key true
      else if !p.inbox.isEmpty then
        (w.modifyPoller id (·.takeCommands w.settings)).beginRound id
      else if !w.isReferred id then w.endPoller id p.key false
      else if w.isDue wake then w.beginRound id
      else ⟨w, false⟩
    | .ended => ⟨w, false⟩

/-- A poller begins a round because its time to wake has come. Only that it was cancelled would
keep it from that. -/
def wake (w : Watch) (id : PollerId) : Watch :=
  match w.pollers[id]? with
  | none => w
  | some p =>
    match p.stage with
    | .resting due => if !w.isCancelled p && w.isDue due then (w.beginRound id).watch else w
    | _ => w

/-- A poller that notices its time begins a round, or nothing happens. -/
theorem wake_cases (w : Watch) (id : PollerId) :
    w.wake id = w ∨ ∃ p due, w.pollers[id]? = some p ∧ p.stage = .resting due ∧
      w.isCancelled p = false ∧ w.isDue due = true ∧ w.wake id = (w.beginRound id).watch := by
  unfold wake
  split
  · exact .inl rfl
  case h_2 p hfound =>
    split
    case h_1 due hstage =>
      split
      case isTrue hwakes =>
        obtain ⟨hlive, hdue⟩ := Bool.and_eq_true_iff.mp hwakes
        exact .inr ⟨p, due, hfound, hstage, by simpa using hlive, hdue, rfl⟩
      case isFalse => exact .inl rfl
    · exact .inl rfl

/-- A poller that does not rest has no time to wake. -/
theorem wake_of_not_resting {w : Watch} {id : PollerId} {p : Poller}
    (found : w.pollers[id]? = some p) (busy : ∀ due, p.stage ≠ .resting due) : w.wake id = w := by
  rcases w.wake_cases id with hsame | ⟨q, due, hq, hrests, -⟩
  · exact hsame
  · obtain rfl : p = q := Option.some.inj (found.symm.trans hq)
    exact absurd hrests (busy due)

/-- Forgets an errand; the watch may have been kept alive by it. -/
def dismiss (w : Watch) (id : Nat) : Watch :=
  { w with errands := w.errands.filter fun errand => errand.id ≠ id }.reap

/-- Whether an errand has become pointless: its feed was cancelled, or goes for another
edition by now. -/
def isPointless (w : Watch) (errand : Errand) : Bool :=
  match errand.purpose with
  | .retrieval id =>
    match w.feeds[id]? with
    | none => true
    | some feed => w.stopped || !feed.pursues errand.uri.edition
  | _ => false

/-- What follows from the reply to an errand that brings content to a feed. -/
def bringContent (w : Watch) (feed : ContentFeed) (uri : EditionUri) : Reply → Watch
  | .data =>
    let w := if w.isAlive then w.noteGood uri else w
    w.log (.content feed.listener uri)
  | .fault cause => if feed.quiet then w else w.log (.failed feed.listener uri cause)

/-- What follows from the reply to an errand. -/
def conclude (w : Watch) (errand : Errand) (reply : Reply) : Watch :=
  let uri := errand.uri
  let counted := { w with records := w.records.countVerdict reply.verdict }
  match errand.purpose with
  | .hint => if reply.verdict = .present then counted.noteSlot uri else counted
  | .check listener =>
    let w := if reply.verdict = .present then counted.noteSlot uri else counted
    w.log (.checked listener uri reply.hintResult)
  | .probe good =>
    let w :=
      if reply.verdict = .present then
        if good then counted.noteGood uri else counted.noteSlot uri
      else counted
    { w with probed := some reply.verdict }
  | .prefetch =>
    if reply = .data && w.isAlive then
      { w with records := w.records.countPrefetched }.noteGood uri
    else w
  | .retrieval id =>
    match w.feeds[id]? with
    | none => w
    | some feed => w.bringContent feed uri reply

/-- The turn in which an errand issues its fetch. Only then it looks whether it is still of
use, so a fetch is issued even for an errand that has become pointless in the meantime. -/
def beginErrand (w : Watch) (errand : Errand) : Turn :=
  let issue := w.issue ⟨errand.purpose.fetches, errand.uri⟩
  let w := issue.watch
  if w.isPointless errand then ⟨w.dismiss errand.id, false⟩
  else
    match issue.flight.answer w.now with
    | some reply => ⟨(w.conclude errand reply).dismiss errand.id, false⟩
    | none =>
      let depart (e : Errand) : Errand :=
        if e.id = errand.id then { e with flight := some issue.flight } else e
      ⟨{ w with errands := w.errands.map depart }, false⟩

/-- One turn of an errand. -/
def stepErrand (w : Watch) (id : Nat) : Turn :=
  match w.errands.find? fun errand => errand.id = id with
  | none => ⟨w, false⟩
  | some errand =>
    match errand.flight with
    | none => w.beginErrand errand
    | some flight =>
      if w.isPointless errand then ⟨w.dismiss id, false⟩
      else
        match flight.answer w.now with
        | none => ⟨w, false⟩
        | some reply => ⟨(w.conclude errand reply).dismiss id, false⟩

/-- Sends out the owner's question whether an edition exists; the fetch is issued at once. -/
def probe (w : Watch) (uri : EditionUri) (good : Bool) : Watch :=
  let id := w.errandsSent
  ((({ w with probed := none }.addErrand (.probe good) uri)).stepErrand id).watch

/-- The owner waits no longer for the reply to its question. -/
def dropProbe (w : Watch) : Watch :=
  { w with errands := w.errands.filter fun errand =>
      match errand.purpose with
      | .probe _ => false
      | _ => true }.reap

/-- Sweeps the prefetch marks and sends for the content that is due. -/
def sweep (w : Watch) : Watch :=
  let delay := w.settings.prefetchDelay.nanoseconds
  let due := w.records.dueForPrefetch w.now delay
  let w := { w with records := w.records.sweep w.now delay }
  due.foldl (fun w uri => w.submitErrand .prefetch .prefetch uri) w

/-- Lets the sweeper sleep for the prefetch delay. -/
def sleepSweeper (w : Watch) : Watch :=
  { w with sweeper := .sleeping (w.now + w.settings.prefetchDelay.nanoseconds) }

/-- One turn of the sweeper. -/
def stepSweeper (w : Watch) : Turn :=
  match w.sweeper with
  | .ended => ⟨w, false⟩
  | .submitted =>
    if w.stopped then ⟨{ w with sweeper := .ended }, false⟩ else ⟨w.sleepSweeper, false⟩
  | .sleeping wake =>
    if w.stopped then ⟨{ w with sweeper := .ended }, false⟩
    else if wake ≤ w.now then ⟨w.sweep.sleepSweeper, false⟩
    else ⟨w, false⟩

/-- One turn of a job. -/
def turn (w : Watch) : Job → Turn
  | .sweeper => w.stepSweeper
  | .delivery => w.deliverNext
  | .poller id => w.stepPoller id
  | .errand id => w.stepErrand id

/-- Whether the sweeper has something to do. -/
def isSweeperReady (w : Watch) : Bool :=
  match w.sweeper with
  | .ended => false
  | .submitted => true
  | .sleeping wake => w.stopped || wake ≤ w.now

/-- Whether a poller has something to do. -/
def isPollerReady (w : Watch) (id : PollerId) (p : Poller) : Bool :=
  match p.stage with
  | .submitted _ => true
  | .rounding _ => true
  | .waiting _ flight => w.isCancelled p || (flight.answer w.now).isSome
  | .resting wake => w.isCancelled p || w.isCalled id p || w.isDue wake
  | .ended => false

/-- Whether an errand has something to do. -/
def isErrandReady (w : Watch) (errand : Errand) : Bool :=
  w.isPointless errand ||
    match errand.flight with
    | none => true
    | some flight => (flight.answer w.now).isSome

/-- The jobs that have something to do. -/
def readyJobs (w : Watch) : List Job :=
  (if w.isSweeperReady then [.sweeper] else [])
    ++ (if 0 < w.deliveryJobs then [.delivery] else [])
    ++ ((w.pollers.zipIdx.filter fun entry => w.isPollerReady entry.2 entry.1).map fun entry =>
        .poller entry.2)
    ++ ((w.errands.filter w.isErrandReady).map fun errand => .errand errand.id)

end EditionWatch.Watch
