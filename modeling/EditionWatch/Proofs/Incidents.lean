import EditionWatch.Proofs.Deliveries
import EditionWatch.Proofs.Retrievals
import Mathlib.Algebra.GroupWithZero.Nat

/-!
# What comes from outside, and what is lost

Two kinds of incidents explain what is found in the records of a watch. Editions become known by
word, of the owner or of a listener that is told something, and by the replies that pollers and
errands take. And where something was begun that does not end in the ordinary way, a fetch was
dropped before its reply was taken, or a temporary poller left the cache without being pushed
out. What incidents an action brings with it is read off the watch beforehand; there is one lemma
for each function of a watch that says how far they account for what it does.
-/

namespace EditionWatch

/-- Something by which editions become known, or by which work is lost. -/
inductive Incident where
  /-- The owner or a listener says that an edition exists, or even that it was fetched. -/
  | word (uri : EditionUri) (fetched : Bool)
  /-- A poller, or an errand for some purpose, takes the reply to its fetch. -/
  | reply (purpose : Option Purpose) (request : Request) (reply : Reply)
  /-- A fetch is dropped, and its reply is never taken. -/
  | drop (request : Request)
  /-- A temporary poller is to poll for ever. -/
  | promotion (poller : PollerId)
  /-- All temporary pollers are taken out of the records. -/
  | clearance (pollers : List PollerId)
  /-- A temporary poller takes itself out of the records. -/
  | exit (poller : PollerId)
  deriving DecidableEq

/-- How many blocks a fetch is of: one, or none. -/
def Request.blocks (request : Request) : Nat := if request.kind = .block then 1 else 0

/-- How many blocks are under way with a fetch, if there is one. -/
def Flight.blocks (flight? : Option Flight) : Nat :=
  match flight? with
  | none => 0
  | some flight => flight.request.blocks

/-- How many blocks a poller waits for. -/
def Poller.awaits (p : Poller) : Nat := Flight.blocks p.flight?

/-- How many blocks an errand waits for. -/
def Errand.awaits (errand : Errand) : Nat := Flight.blocks errand.flight

/-- Whether an errand is to tell the owner whether an edition exists. -/
def Purpose.isProbe : Purpose → Bool
  | .probe _ => true
  | _ => false

/-- How many probes have been answered. -/
def Tally.answered (t : Tally) : Nat := t.probesPresent + t.probesAbsent + t.probesIndeterminate

namespace Incident

/-- An incident shows that an edition exists: someone said so, its block was found, even if it was
lost again, or its content was fetched. -/
def ShowsSlot (uri : EditionUri) : Incident → Prop
  | .word told _ => told = uri
  | .reply _ request answer =>
    request.uri = uri ∧
      (answer = .data ∨ request.kind = .block ∧ answer = .fault .dataFound)
  | _ => False

/-- An incident shows that an edition is good: someone said that it was fetched, or its content
was, or the owner's probe took its block for a proof and found it, even if it was lost again. -/
def ShowsGood (uri : EditionUri) : Incident → Prop
  | .word told fetched => told = uri ∧ fetched = true
  | .reply purpose request answer =>
    request.uri = uri ∧
      (request.kind = .content ∧ answer = .data ∨
        request.kind = .block ∧ purpose = some (.probe true) ∧
          (answer = .data ∨ answer = .fault .dataFound))
  | _ => False

/-- What is good exists. -/
theorem ShowsGood.showsSlot {uri : EditionUri} {d : Incident} (h : d.ShowsGood uri) :
    d.ShowsSlot uri := by
  cases d with
  | word told fetched => exact h.1
  | reply purpose request reply =>
    obtain ⟨huri, ⟨-, hdata⟩ | ⟨hblock, -, hdata | hlost⟩⟩ := h
    · exact ⟨huri, .inl hdata⟩
    · exact ⟨huri, .inl hdata⟩
    · exact ⟨huri, .inr ⟨hblock, hlost⟩⟩
  | _ => exact h

/-- How many blocks are lost. -/
def blocksLost : Incident → Nat
  | .drop request => request.blocks
  | _ => 0

/-- How many temporary pollers become background pollers. -/
def promoted : Incident → Nat
  | .promotion _ => 1
  | _ => 0

/-- How many temporary pollers are taken out of the records along with all others. -/
def cleared : Incident → Nat
  | .clearance pollers => pollers.length
  | _ => 0

/-- How many temporary pollers take themselves out of the records. -/
def exited : Incident → Nat
  | .exit _ => 1
  | _ => 0

/-- How many temporary pollers leave the cache without being pushed out. -/
def departed (d : Incident) : Nat := d.promoted + d.cleared + d.exited

/-- How much something comes to over several incidents. -/
def total (amount : Incident → Nat) (ds : List Incident) : Nat := (ds.map amount).sum

@[simp] theorem total_nil (amount : Incident → Nat) : total amount [] = 0 := rfl

@[simp] theorem total_cons (amount : Incident → Nat) (d : Incident) (ds : List Incident) :
    total amount (d :: ds) = amount d + total amount ds := by simp [total]

@[simp] theorem total_append (amount : Incident → Nat) (ds ds' : List Incident) :
    total amount (ds ++ ds') = total amount ds + total amount ds' := by simp [total]

/-- Incidents of which each comes to nothing come to nothing. -/
theorem total_eq_zero {amount : Incident → Nat} {ds : List Incident}
    (h : ∀ d ∈ ds, amount d = 0) : total amount ds = 0 := by
  induction ds with
  | nil => rfl
  | cons d rest ih =>
    rw [total_cons, h d List.mem_cons_self, ih fun d hd => h d (List.mem_cons_of_mem _ hd)]

/-- Temporary pollers leave in one of three ways. -/
theorem total_departed (ds : List Incident) :
    total departed ds = total promoted ds + total cleared ds + total exited ds := by
  induction ds with
  | nil => rfl
  | cons d rest ih =>
    rw [total_cons, total_cons, total_cons, total_cons, ih, departed]
    omega

end Incident

/-- A change of the records notes nothing but what incidents show. -/
def Records.Change.IsShownBy (heard : List Incident) : Records.Change → Prop
  | .noteSlot _ uri => ∃ d ∈ heard, d.ShowsSlot uri
  | .noteGood _ uri => ∃ d ∈ heard, d.ShowsGood uri
  | _ => True

/-- What some incidents show, more incidents show as well. -/
theorem Records.Change.IsShownBy.mono {heard more : List Incident} (h : heard ⊆ more)
    {change : Records.Change} (shown : change.IsShownBy heard) : change.IsShownBy more := by
  cases change with
  | noteSlot now uri => exact shown.imp fun d hd => ⟨h hd.1, hd.2⟩
  | noteGood now uri => exact shown.imp fun d hd => ⟨h hd.1, hd.2⟩
  | _ => trivial

namespace Watch

/-! ## The incidents of an action -/

/-- What a listener says when it is told something, or takes out with its call. -/
def saying (w : Watch) (name : String) : Signal → List Incident
  | .found found =>
    match w.listener? name with
    | none => []
    | some l =>
      if l.failsAt.contains found.edition || !w.isAlive then []
      else
        match l.reaction with
        | none => []
        | some .vouch => [.word found.uri true]
        | some (.announceNext limit) =>
          if found.edition < limit then [.word ⟨found.key, Edition.next found.edition⟩ false]
          else []
        | some .leave => []
        | some (.hint _) => []
        | some .stop => [.clearance w.records.cache.pollers]
  | .round _ => []

/-- What comes of it when a target is told one thing after the other. -/
def sayings (w : Watch) (target : Target) : List Signal → List Incident
  | [] => []
  | signal :: rest =>
    let call := w.callTarget target signal
    (match target with
      | .listener name => w.saying name signal
      | .feed _ => [])
      ++ if call.returned then call.watch.sayings target rest else []

/-- What comes of it when a delivery is made. -/
def sayingsOf (w : Watch) (d : Delivery) : List Incident :=
  match w.callbacks[d.callback]? with
  | none => []
  | some callback => (w.tell d).sayings callback.target (callback.through d.signal)

/-- What comes of it when the next delivery is handed out. -/
def sayingsOfNext (w : Watch) : List Incident :=
  match w.takeDelivery? with
  | none => []
  | some (d, v) => v.sayingsOf d

/-- The fetch that a poller has in its turn: it waits for it, or issues it just then. -/
def fetchIn (w : Watch) (p : Poller) : Option Flight :=
  match p.stage with
  | .waiting _ flight => some flight
  | .rounding round => (round.request? p.key).map (w.network.issue w.now)
  | _ => none

/-- The reply that a poller takes in its turn. -/
def heardBy (w : Watch) (p : Poller) : List Incident :=
  match w.fetchIn p with
  | none => []
  | some flight => (flight.answer w.now).toList.map (.reply none flight.request)

/-- Whether a poller finds in its turn that it is of no use any more. -/
def retires (w : Watch) (id : PollerId) (p : Poller) : Bool :=
  match p.stage with
  | .submitted _ => w.isCancelled p
  | .waiting _ _ => w.isCancelled p
  | .resting _ => w.isCancelled p || (p.inbox.isEmpty && !w.isReferred id)
  | _ => false

/-- The temporary poller that takes itself out of the records when it ends. -/
def exits (w : Watch) (id : PollerId) (key : DocumentKey) : List Incident :=
  if w.isAlive && w.records.pool.poller? key ≠ some id && w.records.cache.poller? key = some id then
    [.exit id]
  else []

/-- The fetch that is dropped, if one is under way. -/
def dropped (flight? : Option Flight) : List Incident := flight?.toList.map (.drop ·.request)

/-- The incidents of a poller's turn. -/
def incidentsOfPoller (w : Watch) (id : PollerId) : List Incident :=
  match w.pollers[id]? with
  | none => []
  | some p => if w.retires id p then dropped p.flight? ++ w.exits id p.key else w.heardBy p

/-- The incidents of an errand's turn. -/
def incidentsOfErrand (w : Watch) (id : Nat) : List Incident :=
  match w.errands.find? fun errand => errand.id = id with
  | none => []
  | some errand =>
    let fetch := w.fetchFor errand
    match w.replyTo errand with
    | some reply => [.reply (some errand.purpose) fetch.flight.request reply]
    | none => if fetch.watch.isPointless errand then dropped (some fetch.flight) else []

/-- The incidents of a job's turn. -/
def incidentsOfTurn (w : Watch) : Job → List Incident
  | .sweeper => []
  | .delivery => if 0 < w.deliveryJobs then w.sayingsOfNext else []
  | .poller id => w.incidentsOfPoller id
  | .errand id => w.incidentsOfErrand id

/-- The fetch that is dropped when a job breaks down. -/
def incidentsOfCrash (w : Watch) : Job → List Incident
  | .poller id => dropped ((w.pollers[id]?).bind Poller.flight?)
  | .errand id =>
    dropped ((w.errands.find? fun errand => errand.id = id).bind Errand.flight)
  | _ => []

/-- The temporary poller that goes on for ever when a document comes to be polled. -/
def promotions (w : Watch) (key : DocumentKey) (polls : Bool) : List Incident :=
  if polls then
    match w.records.coverage key with
    | .promoted poller => [.promotion poller]
    | _ => []
  else []

/-- The watch in which the owner's question whether an edition exists is about to go out. -/
def asking (w : Watch) (uri : EditionUri) (good : Bool) : Watch :=
  { w with probed := none }.addErrand (.probe good) uri

/-- The incidents of an action, if the owner may call the watch. -/
def incidentsIn (w : Watch) : Action → List Incident
  | .work job => w.incidentsOfTurn job
  | .crash job => w.incidentsOfCrash job
  | .dropProbe =>
    (w.errands.filter (·.purpose.isProbe)).flatMap fun errand => dropped errand.flight
  | .subscribe key _ options => if options.persistent then [] else w.promotions key options.polls
  | .subscribeContent key _ _ options =>
    if options.persistent then [] else w.promotions key options.polls
  | .noteSlot uri => [.word uri false]
  | .noteGood uri => [.word uri true]
  | .noteFetched uri metadata => [.word uri !metadata]
  | .probe uri good => (w.asking uri good).incidentsOfErrand w.errandsSent
  | .shutdown => [.clearance w.records.cache.pollers]
  | _ => []

/-- The incidents of an action. -/
def incidents (w : Watch) (action : Action) : List Incident :=
  if action.isCall && !w.held then [] else w.incidentsIn action

/-- The incidents of several actions, in order. -/
def annals (w : Watch) : List Action → List Incident
  | [] => []
  | action :: rest => w.incidents action ++ (w.act action).annals rest

end Watch

end EditionWatch
