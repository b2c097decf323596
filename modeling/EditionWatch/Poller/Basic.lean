import EditionWatch.Fetch.Network
import EditionWatch.Poller.Backoff
import EditionWatch.Poller.Round
import EditionWatch.Records.PollerPool

/-!
# Pollers

A poller looks for new editions of one document, round after round. A temporary one makes a
single round and then rests until it is sent a command; a background one also wakes by itself.
Commands wait in the poller's inbox and are taken all at once when it rests.
-/

namespace EditionWatch

namespace Poller

/-- What a poller does after a round. -/
inductive Mode where
  /-- It rests until a command comes. -/
  | once
  /-- It makes another round after a while. -/
  | forever
  deriving DecidableEq, Repr

/-- What a poller can be told. -/
inductive Command where
  /-- To probe an edition in its next round. -/
  | hint (edition : Edition)
  /-- To poll for ever from now on. -/
  | pollForever
  deriving DecidableEq

/-- Where the work of a poller stands. -/
inductive Stage where
  /-- It was handed over for execution; it will cancel these pollers when it begins. -/
  | submitted (evicted : List PollerId)
  /-- It is in a round, and not waiting for anything. -/
  | rounding (round : Round)
  /-- It is in a round and waits for a fetch. -/
  | waiting (round : Round) (flight : Flight)
  /-- It rests between rounds, perhaps until some time. -/
  | resting (wake : Option Instant)
  /-- It is over. -/
  | ended

end Poller

/-- A poller. -/
structure Poller where
  /-- The document it polls. -/
  key : DocumentKey
  /-- The lowest edition it walks from. -/
  origin : Edition
  /-- What it does after a round. -/
  mode : Poller.Mode
  /-- The hints for its next round, newest first. -/
  hints : List Edition
  /-- How long to wait after the next fruitless round. -/
  backoff : Span
  /-- The commands that it has not taken yet, first come first. -/
  inbox : List Poller.Command
  /-- The number of rounds it brought to an end. -/
  rounds : Nat
  /-- Whether it was cancelled. -/
  cancelled : Bool
  /-- Where its work stands. -/
  stage : Poller.Stage

namespace Poller

/-- A new poller that has not been handed over yet. -/
def create (settings : Settings) (key : DocumentKey) (origin : Edition) (mode : Mode) :
    Poller where
  key := key
  origin := origin
  mode := mode
  hints := []
  backoff := settings.pollInterval
  inbox := []
  rounds := 0
  cancelled := false
  stage := .ended

/-- The poller after it took one command. -/
def apply (settings : Settings) (p : Poller) : Command → Poller
  | .hint e => { p with hints := Round.addHint e p.hints }
  | .pollForever => { p with mode := .forever, backoff := settings.pollInterval }

/-- The poller after it took all waiting commands. -/
def takeCommands (settings : Settings) (p : Poller) : Poller :=
  { p.inbox.foldl (apply settings) p with inbox := [] }

/-- The poller at the start of a round, which takes over its hints. -/
def beginRound (p : Poller) : Poller :=
  { p with stage := .rounding (.opening p.hints), hints := [] }

/-- The fetch that a poller waits for. -/
def flight? (p : Poller) : Option Flight :=
  match p.stage with
  | .waiting _ flight => some flight
  | _ => none

/-- The time at which a poller is going to wake by itself. -/
def wake? (p : Poller) : Option Instant :=
  match p.stage with
  | .waiting _ flight => flight.wake
  | .resting wake => wake
  | _ => none

/-- Whether the work of a poller is over. -/
def isOver (p : Poller) : Bool :=
  match p.stage with
  | .ended => true
  | _ => false

/-- The poller with one more command waiting. A poller whose work is over takes none. -/
def send (p : Poller) (command : Command) : Poller :=
  { p with inbox := if p.isOver then p.inbox else p.inbox ++ [command] }

/-- A poller that goes on takes a command behind those that wait. -/
theorem inbox_send {p : Poller} (going : p.isOver = false) (command : Command) :
    (p.send command).inbox = p.inbox ++ [command] := if_neg (going ▸ Bool.false_ne_true)

/-- The poller once its work is over. The commands that it has not taken are lost. -/
def finish (p : Poller) : Poller := { p with inbox := [], stage := .ended }

/-- Whether a poller has begun its work and is not over. -/
def isUnderway (p : Poller) : Bool :=
  match p.stage with
  | .submitted _ => false
  | .ended => false
  | _ => true

/-- The pollers that a poller is going to cancel when it begins. -/
def evicted (p : Poller) : List PollerId :=
  match p.stage with
  | .submitted evicted => evicted
  | _ => []

/-- The poller once it is cancelled. -/
def cancel (p : Poller) : Poller := { p with cancelled := true }

/-- Commands change what a poller is going to do, not what it is. -/
theorem takeCommands_same (settings : Settings) (p : Poller) :
    (p.takeCommands settings).key = p.key ∧ (p.takeCommands settings).cancelled = p.cancelled ∧
      (p.takeCommands settings).stage = p.stage := by
  have hfold (commands : List Command) (q : Poller) :
      (commands.foldl (apply settings) q).key = q.key ∧
        (commands.foldl (apply settings) q).cancelled = q.cancelled ∧
        (commands.foldl (apply settings) q).stage = q.stage := by
    induction commands generalizing q with
    | nil => exact ⟨rfl, rfl, rfl⟩
    | cons command rest ih => cases command <;> exact ih _
  exact hfold p.inbox p

/-- A poller that has begun is going to cancel nobody. -/
theorem evicted_of_isUnderway {p : Poller} (h : p.isUnderway = true) : p.evicted = [] := by
  unfold isUnderway at h
  unfold evicted
  cases hs : p.stage <;> simp_all

/-- A poller that is under way is not over. -/
theorem not_isOver_of_isUnderway {p : Poller} (h : p.isUnderway = true) : p.isOver = false := by
  unfold isUnderway at h
  unfold isOver
  cases hs : p.stage <;> simp_all

end Poller

end EditionWatch
