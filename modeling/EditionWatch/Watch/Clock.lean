import EditionWatch.Watch.Work

/-!
# The passing of time

Time is virtual: it stands still while there is work to do, then jumps to the next moment at
which some job wakes, and stops at the moment aimed for. Jobs do not interrupt each other; a
job that has begun its run goes on until it has to wait.
-/

namespace EditionWatch.Watch

/-- Does work until none is left, in at most `limit` turns; `current` is the job in the
middle of its run. -/
def work : Nat → Option Job → Watch → Watch
  | 0, _, w => w
  | limit + 1, some job, w =>
    let turn := w.turn job
    work limit (if turn.goesOn then some job else none) turn.watch
  | limit + 1, none, w =>
    match w.readyJobs with
    | [] => w
    | job :: _ => work limit (some job) w

/-- The number of turns that the work of one moment may take. -/
def turnLimit : Nat := 1000000000

/-- Does all the work that can be done at the present time. -/
def settle (w : Watch) : Watch := work turnLimit none w

/-- The times at which jobs wake by themselves. -/
def wakes (w : Watch) : List Instant :=
  (match w.sweeper with
    | .sleeping wake => [wake]
    | _ => [])
    ++ w.pollers.filterMap Poller.wake?
    ++ w.errands.filterMap fun errand => errand.flight.bind Flight.wake

/-- The wake-up times after `now` that are not after `target`. -/
def wakesWithin (w : Watch) (now target : Instant) : List Instant :=
  w.wakes.filter fun t => now < t && t ≤ target

/-- A watch wakes up later than now, but not later than its target. -/
theorem lt_of_min?_wakesWithin {w : Watch} {now target t : Instant}
    (h : (w.wakesWithin now target).min? = some t) : now < t ∧ t ≤ target := by
  have hm := List.min?_mem h
  simpa [wakesWithin] using (List.mem_filter.mp hm).2

/-- The first wake-up time after `now` that is not after `target`. -/
def nextWake (w : Watch) (now target : Instant) : Option { t : Instant // now < t ∧ t ≤ target } :=
  match h : (w.wakesWithin now target).min? with
  | none => none
  | some t => some ⟨t, lt_of_min?_wakesWithin h⟩

/-- Lets time pass from `now` up to `target`, or until `stop` holds once the work of some
moment is done. -/
def elapse (stop : Watch → Bool) (target now : Instant) (w : Watch) : Watch :=
  let w := settle { w with now := now }
  if stop w then w
  else
    match w.nextWake now target with
    | none => { w with now := target }
    | some wake => elapse stop target wake.val w
termination_by target - now
decreasing_by
  have h := wake.property
  exact Nat.sub_lt_sub_left (Nat.lt_of_lt_of_le h.1 h.2) h.1

/-- Lets so many nanoseconds pass. -/
def advance (w : Watch) (span : Nat) : Watch :=
  w.elapse (fun _ => false) (w.now + span) w.now

/-- What a wait for the rounds of a poller comes to: whether it made so many, or nothing if
that is still open. -/
def roundsReached (w : Watch) (id : PollerId) (n : Nat) : Option Bool :=
  match w.pollers[id]? with
  | none => none
  | some p =>
    if n ≤ p.rounds then some true
    else if w.isCancelled p || p.isOver then some false
    else none

/-- Lets time pass until the rounds of a poller are decided, but not longer than `timeout`. -/
def awaitRounds (w : Watch) (id : PollerId) (n timeout : Nat) : Watch :=
  if (w.roundsReached id n).isSome then w.settle
  else w.elapse (fun w => (w.roundsReached id n).isSome) (w.now + timeout) w.now

/-- Asks whether an edition exists and lets time pass until that is known, but not longer
than `timeout`; then the question is dropped. -/
def awaitProbe (w : Watch) (uri : EditionUri) (good : Bool) (timeout : Nat) : Watch :=
  let w := w.probe uri good
  if w.probed.isSome then w.settle
  else
    let w := w.elapse (fun w => w.probed.isSome) (w.now + timeout) w.now
    if w.probed.isSome then w else w.dropProbe.settle

/-- The number of fetches that have not been answered. -/
def inFlight (w : Watch) : Nat :=
  (w.pollers.filterMap Poller.flight?).length
    + (w.errands.filterMap Errand.flight).length

end EditionWatch.Watch
