import EditionWatch.Watch.Calls

/-!
# Handing out deliveries

The delivery job takes the waiting deliveries one by one and makes the calls they stand for.
A call may fail; that costs the delivery it belongs to whatever it had still to do, and
nothing else. Listeners may in turn call the watch while they are being told something: they note
editions, leave, pass on hints or stop all work, and all of it happens in the middle of a turn of
the delivery job. A call that makes a callback or a poller, which is to subscribe or to look up, is
an action of the owner here, and comes between two turns. For the queue and its jobs it makes no
difference which calls are made in the middle of a turn; `Proofs/Dispatch` lets a callback do
anything there.
-/

namespace EditionWatch.Watch

/-- The listener of a name. -/
def listener? (w : Watch) (name : String) : Option Listener :=
  w.listeners.find? fun l => l.name = name

/-- What a listener does to the watch when told of an edition. -/
def react (w : Watch) (l : Listener) (found : Found) : Watch :=
  if w.isAlive then
    match l.reaction with
    | none => w
    | some .vouch => w.noteGood found.uri
    | some (.announceNext limit) =>
      if found.edition < limit then w.noteSlot ⟨found.key, Edition.next found.edition⟩ else w
    | some .leave =>
      match l.subscription with
      | none => w
      | some s => w.unsubscribe s
    | some (.hint uri) => w.hint uri
    | some .stop => w.shutdown
  else w

/-- What came of a call. -/
structure Call where
  /-- The watch after the call. -/
  watch : Watch
  /-- Whether the call returned. -/
  returned : Bool

/-- Tells a listener something. One that fails over an edition does nothing more about it. -/
def callListener (w : Watch) (name : String) : Signal → Call
  | .found found =>
    let w := w.log (.found name found)
    match w.listener? name with
    | none => ⟨w, true⟩
    | some l =>
      if l.failsAt.contains found.edition then ⟨w, false⟩ else ⟨w.react l found, true⟩
  | .round key => ⟨w.log (.round name key), true⟩

/-- Tells a content feed something; it goes for editions it wants. -/
def callFeed (w : Watch) (id : FeedId) : Signal → Watch
  | .found found =>
    match w.feeds[id]? with
    | none => w
    | some feed =>
      if feed.wants found.edition && !w.stopped then
        { w with feeds := w.feeds.modify id (·.pursue found.edition) }.submitErrand .retrieval
          (.retrieval id) found.uri
      else w
  | .round _ => w

/-- Tells a target something. -/
def callTarget (w : Watch) (target : Target) (signal : Signal) : Call :=
  match target with
  | .listener name => w.callListener name signal
  | .feed id => ⟨w.callFeed id signal, true⟩

/-- Tells a target one thing after the other, up to the first call that fails. -/
def callAll (w : Watch) (target : Target) : List Signal → Call
  | [] => ⟨w, true⟩
  | signal :: rest =>
    let call := w.callTarget target signal
    if call.returned then call.watch.callAll target rest else call

/-- Tells a callback something: its gate first, then its target what comes through. -/
def callBack (w : Watch) (id : CallbackId) (signal : Signal) : Call :=
  match w.callbacks[id]? with
  | none => ⟨w, true⟩
  | some callback =>
    match callback.gate with
    | none => w.callTarget callback.target signal
    | some gate =>
      let passage := gate.feed signal
      let w :=
        { w with callbacks := w.callbacks.modify id fun c => { c with gate := some passage.gate } }
      w.callAll callback.target passage.through

/-- Makes the call that a delivery stands for. -/
def deliver (w : Watch) : Delivery → Call
  | .found callback found => w.callBack callback (.found found)
  | .round callback key => w.callBack callback (.round key)

/-- Counts a delivery that returned, or reports one that failed. -/
def settleCall (call : Call) : Watch :=
  if call.returned then { call.watch with records := call.watch.records.countDelivered }
  else call.watch.log .callFailed

/-- A watch after some work, and whether the job that did it can go on at once. -/
structure Turn where
  /-- The watch. -/
  watch : Watch
  /-- Whether the job goes on. -/
  goesOn : Bool

/-- The first delivery that waits, and the watch without it. -/
def takeDelivery? (w : Watch) : Option (Delivery × Watch) :=
  w.records.takeDelivery?.map fun taken => (taken.1, { w with records := taken.2 })

/-- The watch after a delivery job found nothing to hand out. -/
def endJob (w : Watch) : Watch :=
  { w with records := w.records.releaseQueue, deliveryJobs := w.deliveryJobs - 1 }

/-- Hands out one delivery, or ends the job if none waits. -/
def deliverNext (w : Watch) : Turn :=
  match w.takeDelivery? with
  | none => ⟨w.endJob, false⟩
  | some (delivery, w) => ⟨settleCall (w.deliver delivery), true⟩

end EditionWatch.Watch
