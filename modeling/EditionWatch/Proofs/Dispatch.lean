import EditionWatch.Proofs.Deliveries
import Mathlib.Logic.Relation

/-!
# The hand-out of deliveries under any interleaving

Callers change the records. What a change enqueues enters the queue one delivery after the other,
and only then may the records be changed again; but the queue is open in the meantime. Having
enqueued something, a caller looks whether a delivery job is needed; whoever finds that one is asks
for it and submits it a moment later. A job takes out a delivery, tells the target of its callback
one thing after the other, and comes back for the next delivery, until it finds none. All these
steps may come in any order, from any number of callers, among them the calls being made. What was
enqueued is recorded here beside the watch, and so is what was handed out of it, with the calls that
were made for it. The turn of a delivery job is made of such steps, and so is all that listeners do
to the watch while they are told something.
-/

namespace EditionWatch

/-- The identity of a caller. -/
abbrev CallerId := Nat

/-! ## Changes whose deliveries have yet to enter the queue -/

namespace Records

/-- The callback that a change registers. -/
def Change.registers? : Change → Option CallbackId
  | .subscribe _ callback _ _ => some callback
  | _ => none

/-- The records after a change, while what it enqueues is kept from the queue. -/
def withhold (r : Records) (change : Change) : Records :=
  { r.apply change with
    queue := r.queue
    tally :=
      { (r.apply change).tally with notificationsQueued := r.tally.notificationsQueued } }

/-- Once everything has entered the queue, a change is complete. -/
theorem enqueue_withhold (r : Records) {change : Change} (stays : change.handsOut = false) :
    (r.withhold change).enqueue (r.enqueuedBy change) = r.apply change := by
  obtain ⟨hpending, hdraining, hqueued, -⟩ := enqueues_apply r change stays
  have hqueue : r.queue.enqueue (r.enqueuedBy change) = (r.apply change).queue := by
    rw [DeliveryQueue.enqueue, ← hpending, ← hdraining]
  unfold enqueue withhold
  dsimp only
  rw [hqueue, ← hqueued]

theorem enqueue_nil (r : Records) : r.enqueue [] = r := by
  simp [enqueue, DeliveryQueue.enqueue]

/-- It is all the same whether deliveries enter the queue together or one after the other. -/
theorem enqueue_cons (r : Records) (d : Delivery) (rest : List Delivery) :
    (r.enqueue [d]).enqueue rest = r.enqueue (d :: rest) := by
  simp [enqueue, DeliveryQueue.enqueue, Nat.add_comm, Nat.add_left_comm]

/-- A change agrees with one that keeps its deliveries back for a while. -/
theorem agrees_withhold (r : Records) (change : Change) :
    Agrees (r.apply change) (r.withhold change) := ⟨fun _ => rfl, rfl⟩

/-- Only those are told something who were registered, or have just been. -/
theorem callback_of_mem_enqueuedBy {r : Records} (h : Attuned r) {change : Change}
    (stays : change.handsOut = false) {d : Delivery} (hd : d ∈ r.enqueuedBy change) :
    (∃ key, ∃ s ∈ r.registry.of key, s.callback = d.callback) ∨
      change.registers? = some d.callback := by
  have hplain (plain : change.isPlain = true) :
      (∃ key, ∃ s ∈ r.registry.of key, s.callback = d.callback) ∨
        change.registers? = some d.callback := by
    obtain ⟨found, s, hs, rfl⟩ := subscriber_of_mem_enqueuedBy h plain hd
    exact .inl ⟨found.key, s, hs, rfl⟩
  cases change with
  | subscribe key callback requested polls =>
    obtain ⟨found, -, rfl⟩ := callback_of_mem_enqueuedBy_subscribe hd
    exact .inr rfl
  | finishRound key =>
    have hrounds : r.enqueuedBy (.finishRound key) = r.registry.roundDeliveries key :=
      enqueuedBy_of_append rfl
    rw [hrounds] at hd
    obtain ⟨s, hs, rfl⟩ := List.mem_map.mp hd
    exact .inl ⟨key, s, hs, rfl⟩
  | takeDelivery => cases stays
  | _ => exact hplain rfl

/-- Whoever is registered after a change was so before, or has just been. -/
theorem callback_of_mem_apply {r : Records} (h : Attuned r) {change : Change}
    (stays : change.handsOut = false) {key : DocumentKey} {t : Subscriber}
    (ht : t ∈ (r.apply change).registry.of key) :
    (∃ s ∈ r.registry.of key, s.callback = t.callback) ∨
      change.registers? = some t.callback := by
  have hplain (plain : change.isPlain = true) :
      (∃ s ∈ r.registry.of key, s.callback = t.callback) ∨
        change.registers? = some t.callback := by
    obtain ⟨s, hs, hcallback, -⟩ := subscriber_of_mem_apply h plain ht
    exact .inl ⟨s, hs, hcallback⟩
  cases change with
  | subscribe own callback requested polls =>
    rcases subscriber_of_mem_subscribe ht with ⟨s, hs, hcallback, -⟩ | ⟨-, -, hcallback, -⟩
    · exact .inl ⟨s, hs, hcallback⟩
    · exact .inr (congrArg some hcallback.symm)
  | finishRound own => exact .inl ⟨t, ht, rfl⟩
  | takeDelivery => cases stays
  | _ => exact hplain rfl

end Records

namespace Watch

/-- The watch once a target has been told something and has done nothing about it yet. -/
def hear (w : Watch) : Target → Signal → Watch
  | .listener name, .found found => w.log (.found name found)
  | .listener name, .round key => w.log (.round name key)
  | .feed _, _ => w

/-- What a target hears is told to its listener, if it has one. -/
theorem told_hear (w : Watch) (target : Target) (signal : Signal) :
    (w.hear target signal).told = w.told ++ target.tells [signal] := by
  cases target with
  | listener name => cases signal <;> exact told_log w _
  | feed id => exact (List.append_nil _).symm

/-- A target hears without a change of records, callbacks or jobs. -/
theorem hear_same (w : Watch) (target : Target) (signal : Signal) :
    (w.hear target signal).records = w.records ∧
      (w.hear target signal).callbacks = w.callbacks ∧
      (w.hear target signal).deliveryJobs = w.deliveryJobs ∧
      (w.hear target signal).refused = w.refused := by
  cases target with
  | listener name => cases signal <;> exact ⟨rfl, rfl, rfl, rfl⟩
  | feed id => exact ⟨rfl, rfl, rfl, rfl⟩

end Watch

/-- A target that is told more signals tells them one after the other. -/
theorem Target.tells_append (target : Target) (signals more : List Signal) :
    target.tells (signals ++ more) = target.tells signals ++ target.tells more := by
  cases target with
  | listener name => exact List.map_append
  | feed id => rfl

/-! ## Steps -/

/-- A delivery that was taken out of the queue, and what its callback has made of it so far. -/
structure Visit where
  /-- The delivery. -/
  delivery : Delivery
  /-- Its callback, as it was when the delivery was taken out. -/
  callback : Option Callback
  /-- The calls that the target of the callback got. -/
  calls : List Signal

namespace Visit

/-- All the calls that the target of the callback is to get. -/
def due (visit : Visit) : List Signal :=
  match visit.callback with
  | none => []
  | some callback => callback.through visit.delivery.signal

/-- What a listener was told. -/
def told (visit : Visit) : List (String × Signal) :=
  match visit.callback with
  | none => []
  | some callback => callback.target.tells visit.calls

/-- The delivery with what came of making it. -/
def handOut (visit : Visit) (returned : Bool) : Watch.HandOut :=
  ⟨visit.delivery, visit.callback.map Callback.target, visit.calls, returned⟩

end Visit

/-- A delivery for which no more calls are made. -/
structure PastVisit extends Visit where
  /-- Whether all calls returned. -/
  returned : Bool

/-- The calls made so far are the first of those that the callback of a delivery asks for. -/
def Visit.IsUnderway (visit : Visit) : Prop :=
  ∃ callback, visit.callback = some callback ∧
    visit.calls <+: callback.through visit.delivery.signal

/-- A delivery was made: the target of its callback got all the calls that the callback lets
through, or the first of them up to one that failed. -/
def PastVisit.IsMade (past : PastVisit) : Prop :=
  ∃ callback, past.callback = some callback ∧
    past.calls <+: callback.through past.delivery.signal ∧
    if past.returned then past.calls = callback.through past.delivery.signal else past.calls ≠ []

/-- A watch together with what became of its deliveries and what its callers have still to
do. -/
structure Dispatch where
  /-- The watch. -/
  watch : Watch
  /-- What the last change of the records has yet to put into the queue, with its caller. -/
  entering : List (CallerId × Delivery)
  /-- All deliveries that were ever enqueued, in order. -/
  enqueued : List Delivery
  /-- The deliveries whose calls are over, in the order in which these ended. -/
  handed : List PastVisit
  /-- The deliveries whose calls are being made, one for each job inside a call. -/
  inHand : List Visit
  /-- The callers that have enqueued something and not looked for a job since. -/
  owing : List CallerId
  /-- The callers that have asked for a job and not submitted it yet. -/
  asking : List CallerId

namespace Dispatch

/-- A new watch. -/
def initial (settings : Settings) (listeners : List Listener) : Dispatch where
  watch := .initial settings listeners
  entering := []
  enqueued := []
  handed := []
  inHand := []
  owing := []
  asking := []

/-- The number of jobs that are at work or going to be submitted. -/
def jobs (s : Dispatch) : Nat := s.watch.deliveryJobs + s.asking.length

/-- The deliveries that wait. -/
def pending (s : Dispatch) : List Delivery := s.watch.records.queue.pending

/-- How many deliveries have failed. -/
def failed (s : Dispatch) : Nat := s.handed.countP fun past => !past.returned

/-- What listeners were told in the calls that are over, and in those being made. -/
def told (s : Dispatch) : List (String × Signal) :=
  s.handed.flatMap (fun past => past.toVisit.told) ++ s.inHand.flatMap Visit.told

/-- A caller changes the records. -/
def change (s : Dispatch) (caller : CallerId) (change : Records.Change) : Dispatch :=
  { s with
    watch := { s.watch with records := s.watch.records.withhold change }
    entering := (s.watch.records.enqueuedBy change).map fun d => (caller, d) }

/-- A delivery enters the queue; its caller has to look for a job. -/
def enter (s : Dispatch) (caller : CallerId) (delivery : Delivery)
    (rest : List (CallerId × Delivery)) : Dispatch :=
  { s with
    watch := { s.watch with records := s.watch.records.enqueue [delivery] }
    entering := rest
    enqueued := s.enqueued ++ [delivery]
    owing := caller :: s.owing }

/-- A caller looks whether a job is needed and asks for one if so. -/
def look (s : Dispatch) (caller : CallerId) : Dispatch :=
  let s := { s with owing := s.owing.filter (· ≠ caller) }
  if s.watch.records.queue.needsJob then
    { s with watch := s.watch.claimJob, asking := caller :: s.asking }
  else s

/-- A caller submits the job it has asked for. -/
def submit (s : Dispatch) (caller : CallerId) : Dispatch :=
  { s with watch := s.watch.submitJob, asking := s.asking.erase caller }

/-- A job outside of calls takes up the next delivery, or ends because there is none. -/
def proceed (s : Dispatch) : Dispatch :=
  match s.watch.takeDelivery? with
  | none => { s with watch := s.watch.endJob }
  | some (delivery, watch) =>
    { s with
      watch := watch.tell delivery
      inHand := ⟨delivery, watch.callbacks[delivery.callback]?, []⟩ :: s.inHand }

/-- A job makes the next call for its delivery. -/
def call (s : Dispatch) (job : Nat) (visit : Visit) (target : Target) (signal : Signal) :
    Dispatch :=
  { s with
    watch := s.watch.hear target signal
    inHand := s.inHand.set job { visit with calls := visit.calls ++ [signal] } }

/-- The calls of a delivery are over; they returned, or the last one failed. -/
def finish (s : Dispatch) (job : Nat) (visit : Visit) (returned : Bool) : Dispatch :=
  { s with
    watch := Watch.settleCall ⟨s.watch, returned⟩
    handed := s.handed ++ [⟨visit, returned⟩]
    inHand := s.inHand.eraseIdx job }

/-- One step of a caller, of a job, or of something else that leaves the records and the jobs
alone, tells nobody anything and leaves the callbacks that there are as they are. -/
inductive Step : Dispatch → Dispatch → Prop where
  | change (s : Dispatch) (caller : CallerId) (change : Records.Change)
      (stays : change.handsOut = false) (free : s.entering = [])
      (made : ∀ callback ∈ change.registers?, callback < s.watch.callbacks.length) :
      Step s (s.change caller change)
  | enter (s : Dispatch) (caller : CallerId) (delivery : Delivery)
      (rest : List (CallerId × Delivery)) (next : s.entering = (caller, delivery) :: rest) :
      Step s (s.enter caller delivery rest)
  | look (s : Dispatch) (caller : CallerId) : Step s (s.look caller)
  | submit (s : Dispatch) (caller : CallerId) (asks : caller ∈ s.asking) :
      Step s (s.submit caller)
  | proceed (s : Dispatch) (free : s.inHand.length < s.watch.deliveryJobs) : Step s s.proceed
  | call (s : Dispatch) (job : Nat) (visit : Visit) (callback : Callback) (signal : Signal)
      (later : List Signal) (called : s.inHand[job]? = some visit)
      (reaches : visit.callback = some callback)
      (next : visit.due = visit.calls ++ signal :: later) :
      Step s (s.call job visit callback.target signal)
  | finish (s : Dispatch) (job : Nat) (visit : Visit) (returned : Bool)
      (called : s.inHand[job]? = some visit)
      (ends : if returned then visit.calls = visit.due else visit.calls ≠ []) :
      Step s (s.finish job visit returned)
  | other (s : Dispatch) (watch : Watch) (records : watch.records = s.watch.records)
      (jobs : watch.deliveryJobs = s.watch.deliveryJobs)
      (takes : watch.takes .delivery = s.watch.takes .delivery)
      (told : watch.told = s.watch.told)
      (callbacks : s.watch.callbacks <+: watch.callbacks) :
      Step s { s with watch := watch }

/-! ## Deliveries are in order -/

/-- What holds between any two steps. -/
structure Orderly (s : Dispatch) : Prop where
  /-- The executor runs every job it is given. -/
  takes : s.watch.takes .delivery = true
  /-- The queue knows whether there is a job. -/
  jobs : s.jobs = if s.watch.records.queue.draining then 1 else 0
  /-- Only jobs make calls. -/
  hands : s.inHand.length ≤ s.watch.deliveryJobs
  /-- Deliveries leave the queue in the order in which they came. -/
  order : s.handed.map (·.delivery) ++ s.inHand.map Visit.delivery ++ s.pending = s.enqueued
  /-- If nobody is going to look for a job, none is needed. -/
  awake : s.owing = [] → s.pending ≠ [] → s.watch.records.queue.draining = true
  /-- Every delivery that was counted in is accounted for. -/
  counted :
    s.watch.records.tally.notificationsQueued =
      s.watch.records.tally.notificationsDelivered + s.failed + s.pending.length
        + s.inHand.length
  /-- Listeners were told what was handed to them, and nothing else. -/
  told : s.watch.told = s.told

namespace Orderly

variable {s : Dispatch}

/-- At the start no job is there, and none is needed. -/
theorem initial (settings : Settings) (listeners : List Listener) :
    Orderly (Dispatch.initial settings listeners) where
  takes := rfl
  jobs := rfl
  hands := Nat.le_refl 0
  order := rfl
  awake _ h := absurd rfl h
  counted := rfl
  told := rfl

/-- At most one call is being made. -/
theorem length_inHand_le (h : Orderly s) : s.inHand.length ≤ 1 := by
  have hj := h.jobs
  have hh := h.hands
  rw [Dispatch.jobs] at hj
  split at hj <;> omega

/-- The delivery in hand is the only one. -/
theorem inHand_eq (h : Orderly s) {job : Nat} {visit : Visit}
    (called : s.inHand[job]? = some visit) : job = 0 ∧ s.inHand = [visit] := by
  obtain ⟨hjob, hvisit⟩ := List.getElem?_eq_some_iff.mp called
  have hle := h.length_inHand_le
  have hzero : job = 0 := by omega
  subst hzero
  obtain ⟨one, hone⟩ := List.length_eq_one_iff.mp (Nat.le_antisymm hle hjob)
  exact ⟨rfl, by simp_all⟩

/-- A change of the records leaves the draining flag and the jobs as they are. -/
theorem change (h : Orderly s) (caller : CallerId) {change : Records.Change}
    (stays : change.handsOut = false) : Orderly (s.change caller change) := by
  have hdelivered := (Records.enqueues_apply s.watch.records change stays).delivered
  refine ⟨h.takes, h.jobs, h.hands, h.order, h.awake, ?_, h.told⟩
  change s.watch.records.tally.notificationsQueued =
    (s.watch.records.apply change).tally.notificationsDelivered + s.failed + s.pending.length
      + s.inHand.length
  rw [hdelivered]
  exact h.counted

/-- To put a delivery in the queue makes its caller look after the queue. -/
theorem enter (h : Orderly s) (caller : CallerId) (delivery : Delivery)
    (rest : List (CallerId × Delivery)) : Orderly (s.enter caller delivery rest) := by
  refine ⟨h.takes, h.jobs, h.hands, ?_, fun ho => absurd ho (List.cons_ne_nil _ _), ?_, h.told⟩
  · change _ ++ _ ++ (s.pending ++ [delivery]) = s.enqueued ++ [delivery]
    rw [← List.append_assoc]
    exact congrArg (· ++ [delivery]) h.order
  · change s.watch.records.tally.notificationsQueued + 1 =
      s.watch.records.tally.notificationsDelivered + s.failed +
        (s.pending ++ [delivery]).length + s.inHand.length
    rw [h.counted, List.length_append, List.length_singleton]
    omega

/-- A caller that looks claims the queue if it is not claimed, and then asks for a job. -/
theorem look (h : Orderly s) (caller : CallerId) : Orderly (s.look caller) := by
  unfold Dispatch.look
  dsimp only
  split
  case isTrue hn =>
    have hd : s.watch.records.queue.draining = false := by
      simpa using (Bool.and_eq_true_iff.mp hn).1
    refine ⟨h.takes, ?_, h.hands, h.order, fun _ _ => rfl, h.counted, h.told⟩
    have hj := h.jobs
    rw [hd] at hj
    change s.watch.deliveryJobs + (s.asking.length + 1) = 1
    rw [Dispatch.jobs] at hj
    simp only [Bool.false_eq_true, if_false] at hj
    omega
  case isFalse hn =>
    refine ⟨h.takes, h.jobs, h.hands, h.order, fun _ hp => ?_, h.counted, h.told⟩
    change s.watch.records.queue.pending ≠ [] at hp
    change s.watch.records.queue.draining = true
    cases hd : s.watch.records.queue.draining with
    | true => rfl
    | false => simp [DeliveryQueue.needsJob, hd, hp] at hn

/-- A caller that asks for a job gets one, which is what its claim stands for. -/
theorem submit (h : Orderly s) {caller : CallerId} (asks : caller ∈ s.asking) :
    Orderly (s.submit caller) := by
  have hw : s.watch.submitJob =
      { s.watch with deliveryJobs := s.watch.deliveryJobs + 1 }.countSubmission := by
    rw [Watch.submitJob, if_pos h.takes]
  have hl : (s.asking.erase caller).length = s.asking.length - 1 := List.length_erase_of_mem asks
  have hpos : 0 < s.asking.length := List.length_pos_of_mem asks
  unfold Dispatch.submit
  rw [hw]
  refine ⟨h.takes, ?_, ?_, h.order, h.awake, h.counted, h.told⟩
  · refine Eq.trans ?_ h.jobs
    change s.watch.deliveryJobs + 1 + (s.asking.erase caller).length =
      s.watch.deliveryJobs + s.asking.length
    omega
  · exact Nat.le_succ_of_le h.hands

/-- A job that takes a delivery keeps it in hand; one that finds none ends with its claim. -/
theorem proceed (h : Orderly s) (free : s.inHand.length < s.watch.deliveryJobs) :
    Orderly s.proceed := by
  have hj := h.jobs
  have hd : s.watch.records.queue.draining = true := by
    cases hd : s.watch.records.queue.draining with
    | true => rfl
    | false =>
      rw [hd, Dispatch.jobs] at hj
      simp only [Bool.false_eq_true, if_false] at hj
      omega
  rw [hd, Dispatch.jobs] at hj
  have hone : s.watch.deliveryJobs = 1 ∧ s.asking.length = 0 := by
    simp only [if_true] at hj
    omega
  have hnone : s.inHand = [] := List.eq_nil_of_length_eq_zero (by omega)
  unfold Dispatch.proceed Watch.takeDelivery? Records.takeDelivery? DeliveryQueue.pop?
  cases hp : s.watch.records.queue.pending with
  | nil =>
    refine ⟨h.takes, ?_, ?_, h.order, fun _ hne => absurd hp hne, h.counted, h.told⟩
    · change s.watch.deliveryJobs - 1 + s.asking.length = 0
      omega
    · change s.inHand.length ≤ s.watch.deliveryJobs - 1
      omega
  | cons delivery rest =>
    refine ⟨h.takes, h.jobs, free, ?_, fun _ _ => hd, ?_, ?_⟩
    · have ho := h.order
      rw [Dispatch.pending, hp, hnone, List.map_nil, List.append_nil] at ho
      change s.handed.map (·.delivery) ++ (delivery :: s.inHand.map Visit.delivery) ++ rest =
        s.enqueued
      rw [hnone, List.append_assoc]
      exact ho
    · have hc := h.counted
      rw [Dispatch.pending, hp] at hc
      change s.watch.records.tally.notificationsQueued =
        s.watch.records.tally.notificationsDelivered + s.failed + rest.length +
          (s.inHand.length + 1)
      rw [List.length_cons] at hc
      omega
    · -- nothing has been told yet of the delivery that was taken out
      refine h.told.trans (congrArg (s.handed.flatMap _ ++ ·) ?_)
      have htold (callback : Option Callback) : Visit.told ⟨delivery, callback, []⟩ = [] := by
        cases callback with
        | none => rfl
        | some callback =>
          obtain ⟨gate, target⟩ := callback
          cases target <;> rfl
      rw [hnone]
      exact (congrArg (· ++ []) (htold _)).symm

/-- A call changes neither the queue nor the number of jobs. -/
theorem call (h : Orderly s) {job : Nat} {visit : Visit} {callback : Callback}
    (called : s.inHand[job]? = some visit) (reaches : visit.callback = some callback)
    (signal : Signal) : Orderly (s.call job visit callback.target signal) := by
  obtain ⟨hrecords, -, hjobs, hrefused⟩ := s.watch.hear_same callback.target signal
  obtain ⟨rfl, hone⟩ := h.inHand_eq called
  obtain ⟨htakes, hj, hhands, horder, hawake, hcounted, htold⟩ := h
  unfold Dispatch.call
  rw [hone, List.set_cons_zero]
  rw [hone] at hhands horder hcounted
  refine ⟨?_, ?_, ?_, ?_, ?_, ?_, ?_⟩
  · rw [Watch.takes, hrefused]
    exact htakes
  · rw [Dispatch.jobs, hjobs, hrecords]
    exact hj
  · rw [hjobs]
    exact hhands
  · rw [Dispatch.pending, hrecords]
    exact horder
  · rw [Dispatch.pending, hrecords]
    exact hawake
  · rw [Dispatch.pending, hrecords]
    exact hcounted
  · have hnew : Visit.told { visit with calls := visit.calls ++ [signal] } =
        visit.told ++ callback.target.tells [signal] := by
      rw [Visit.told, Visit.told, reaches]
      exact callback.target.tells_append visit.calls [signal]
    rw [Watch.told_hear, htold, Dispatch.told, Dispatch.told, hone, List.append_assoc]
    simp only [List.flatMap_cons, List.flatMap_nil, List.append_nil, hnew]

/-- A job that is done with a delivery is free for the next one. -/
theorem finish (h : Orderly s) {job : Nat} {visit : Visit}
    (called : s.inHand[job]? = some visit) (returned : Bool) :
    Orderly (s.finish job visit returned) := by
  obtain ⟨rfl, hone⟩ := h.inHand_eq called
  let past : PastVisit := ⟨visit, returned⟩
  have hc := h.counted
  have ho := h.order
  have ht := h.told
  have hjobs := h.jobs
  rw [hone] at hc ho
  rw [Dispatch.told, hone] at ht
  have horder : (s.handed ++ [past]).map (·.delivery) ++ [] ++ s.pending = s.enqueued := by
    rw [List.map_append, List.append_nil]
    exact ho
  have hfailed : (s.handed ++ [past]).countP (fun past => !past.returned) =
      s.failed + if returned then 0 else 1 := by
    rw [List.countP_append, Dispatch.failed]
    cases returned <;> rfl
  have htold : s.watch.told =
      (s.handed ++ [past]).flatMap (fun past => past.toVisit.told) ++ [] := by
    rw [ht, List.flatMap_append, List.append_nil]
    rfl
  unfold Dispatch.finish
  rw [hone, List.eraseIdx_cons_zero]
  cases returned with
  | true =>
    refine ⟨h.takes, hjobs, Nat.zero_le _, horder, h.awake, ?_, htold⟩
    change s.watch.records.tally.notificationsQueued =
      s.watch.records.tally.notificationsDelivered + 1 + List.countP _ _ + s.pending.length + 0
    rw [hfailed, hc, List.length_singleton, if_pos rfl]
    omega
  | false =>
    refine ⟨h.takes, hjobs, Nat.zero_le _, horder, h.awake, ?_, ?_⟩
    · change s.watch.records.tally.notificationsQueued =
        s.watch.records.tally.notificationsDelivered + List.countP _ _ + s.pending.length + 0
      rw [hfailed, hc, List.length_singleton, if_neg Bool.false_ne_true]
      omega
    · exact (Watch.told_log s.watch .callFailed).trans ((List.append_nil _).trans htold)

/-- Every step keeps the queue in order. -/
theorem step {s' : Dispatch} (h : Orderly s) (hs : Step s s') : Orderly s' := by
  cases hs with
  | change caller change stays free made => exact h.change caller stays
  | enter caller delivery rest next => exact h.enter caller delivery rest
  | look caller => exact h.look caller
  | submit caller asks => exact h.submit asks
  | proceed free => exact h.proceed free
  | call job visit callback signal later called reaches next =>
    exact h.call called reaches signal
  | finish job visit returned called ends => exact h.finish called returned
  | other watch records jobs takes told callbacks =>
    obtain ⟨htakes, hjobs, hhands, horder, hawake, hcounted, htold⟩ := h
    rw [Dispatch.jobs, ← records, ← jobs] at hjobs
    rw [Dispatch.pending, ← records] at horder
    rw [Dispatch.pending] at hawake hcounted
    rw [← records] at hawake hcounted
    exact ⟨takes.trans htakes, hjobs, jobs ▸ hhands, horder, hawake, hcounted,
      told.trans htold⟩

/-- Every interleaving of steps is orderly. -/
theorem steps {s' : Dispatch} (h : Orderly s) (hs : Relation.ReflTransGen Step s s') :
    Orderly s' := by
  induction hs with
  | refl => exact h
  | tail _ hstep ih => exact ih.step hstep

end Orderly

/-! ## Calls are made -/

/-- Whoever is to be told something is there to be told, and was told it. -/
structure Attended (s : Dispatch) : Prop where
  /-- Subscribers have heard what they are to have heard. -/
  attuned : s.watch.records.Attuned
  /-- Only callbacks that were made are registered. -/
  registered : ∀ key, ∀ t ∈ s.watch.records.registry.of key,
    t.callback < s.watch.callbacks.length
  /-- Only callbacks that were made have deliveries that are about to enter the queue. -/
  entering : ∀ entry ∈ s.entering, entry.2.callback < s.watch.callbacks.length
  /-- Only callbacks that were made have deliveries that wait. -/
  pending : ∀ d ∈ s.pending, d.callback < s.watch.callbacks.length
  /-- What is in hand is being made. -/
  inHand : ∀ visit ∈ s.inHand, visit.IsUnderway
  /-- What was handed out was made. -/
  handed : ∀ past ∈ s.handed, past.IsMade

namespace Attended

variable {s : Dispatch}

/-- At the start nobody is to be told anything. -/
theorem initial (settings : Settings) (listeners : List Listener) :
    Attended (Dispatch.initial settings listeners) where
  attuned := Records.attuned_initial _
  registered _ _ ht := nomatch ht
  entering _ he := nomatch he
  pending _ hd := nomatch hd
  inHand _ hv := nomatch hv
  handed _ hp := nomatch hp

/-- A change enqueues deliveries to callbacks that are registered, or have just been. -/
theorem change (h : Attended s) (caller : CallerId) {change : Records.Change}
    (stays : change.handsOut = false)
    (made : ∀ callback ∈ change.registers?, callback < s.watch.callbacks.length) :
    Attended (s.change caller change) where
  attuned := (Records.agrees_withhold _ change).attuned (Records.attuned_apply h.attuned change)
  registered key t ht := by
    rcases Records.callback_of_mem_apply h.attuned stays ht with ⟨s, hs, hcallback⟩ | hnew
    · exact hcallback ▸ h.registered key s hs
    · exact made _ hnew
  entering entry he := by
    obtain ⟨d, hd, rfl⟩ := List.mem_map.mp he
    rcases Records.callback_of_mem_enqueuedBy h.attuned stays hd with ⟨key, s, hs, hcallback⟩ | hnew
    · exact hcallback ▸ h.registered key s hs
    · exact made _ hnew
  pending := h.pending
  inHand := h.inHand
  handed := h.handed

/-- What enters the queue is for a callback that was made. -/
theorem enter (h : Attended s) {caller : CallerId} {delivery : Delivery}
    {rest : List (CallerId × Delivery)} (next : s.entering = (caller, delivery) :: rest) :
    Attended (s.enter caller delivery rest) where
  attuned :=
    have hagrees : Records.Agrees s.watch.records (s.watch.records.enqueue [delivery]) :=
      ⟨fun _ => rfl, rfl⟩
    hagrees.attuned h.attuned
  registered := h.registered
  entering entry he := h.entering entry (next ▸ List.mem_cons_of_mem _ he)
  pending d hd := by
    rcases List.mem_append.mp hd with hold | hnew
    · exact h.pending d hold
    · obtain rfl := List.mem_singleton.mp hnew
      exact h.entering (caller, d) (next ▸ List.mem_cons_self)
  inHand := h.inHand
  handed := h.handed

/-- Steps that leave subscribers and waiting deliveries as they are. -/
theorem same (h : Attended s) {s' : Dispatch}
    (agrees : Records.Agrees s.watch.records s'.watch.records)
    (callbacks : s'.watch.callbacks.length = s.watch.callbacks.length)
    (entering : s'.entering = s.entering) (pending : s'.pending = s.pending)
    (inHand : s'.inHand = s.inHand) (handed : s'.handed = s.handed) : Attended s' where
  attuned := agrees.attuned h.attuned
  registered key t ht := by
    rw [agrees.registry] at ht
    rw [callbacks]
    exact h.registered key t ht
  entering entry he := callbacks ▸ h.entering entry (entering ▸ he)
  pending d hd := callbacks ▸ h.pending d (pending ▸ hd)
  inHand visit hv := h.inHand visit (inHand ▸ hv)
  handed past hp := h.handed past (handed ▸ hp)

/-- To look after the queue changes nothing about who is told what. -/
theorem look (h : Attended s) (caller : CallerId) : Attended (s.look caller) := by
  unfold Dispatch.look
  dsimp only
  split
  · exact h.same ⟨fun _ => rfl, rfl⟩ rfl rfl rfl rfl rfl
  · exact h.same ⟨fun _ => rfl, rfl⟩ rfl rfl rfl rfl rfl

/-- To ask for a job changes nothing about who is told what. -/
theorem submit (h : Attended s) (caller : CallerId) : Attended (s.submit caller) := by
  have hsame : s.watch.submitJob.records = s.watch.records ∧
      s.watch.submitJob.callbacks = s.watch.callbacks := by
    unfold Watch.submitJob
    split <;> exact ⟨rfl, rfl⟩
  refine h.same ⟨fun key => ?_, ?_⟩ (congrArg List.length hsame.2) rfl ?_ rfl rfl
  · exact congrArg (Records.frontier · key) hsame.1
  · exact congrArg Records.registry hsame.1
  · exact congrArg (fun r => r.queue.pending) hsame.1

/-- A delivery that is taken out finds its callback, and no call for it has been made yet. -/
theorem proceed (h : Attended s) : Attended s.proceed := by
  unfold Dispatch.proceed Watch.takeDelivery? Records.takeDelivery? DeliveryQueue.pop?
  cases hp : s.watch.records.queue.pending with
  | nil => exact h.same ⟨fun _ => rfl, rfl⟩ rfl rfl rfl rfl rfl
  | cons delivery rest =>
    have hlength : (s.watch.callbacks.modify delivery.callback (·.tell delivery.signal)).length =
        s.watch.callbacks.length := List.length_modify _ _ _
    have hwaits (d : Delivery) (hd : d ∈ delivery :: rest) :
        d.callback < s.watch.callbacks.length :=
      h.pending d (by rw [Dispatch.pending, hp]; exact hd)
    have hagrees : Records.Agrees s.watch.records
        { s.watch.records with queue := ⟨rest, s.watch.records.queue.draining⟩ } :=
      ⟨fun _ => rfl, rfl⟩
    refine ⟨hagrees.attuned h.attuned, fun key t ht => ?_, fun entry he => ?_, fun d hd => ?_,
      fun visit hv => ?_, h.handed⟩
    · exact hlength ▸ h.registered key t ht
    · exact hlength ▸ h.entering entry he
    · exact hlength ▸ hwaits d (List.mem_cons_of_mem _ hd)
    · rcases List.mem_cons.mp hv with rfl | hv
      · exact ⟨_, List.getElem?_eq_getElem (hwaits delivery List.mem_cons_self), List.nil_prefix⟩
      · exact h.inHand visit hv

/-- A call that is due is made, and the next one is due then. -/
theorem call (h : Attended s) {job : Nat} {visit : Visit} {callback : Callback} {signal : Signal}
    {later : List Signal} (reaches : visit.callback = some callback)
    (next : visit.due = visit.calls ++ signal :: later) :
    Attended (s.call job visit callback.target signal) := by
  obtain ⟨hrecords, hcallbacks, -, -⟩ := s.watch.hear_same callback.target signal
  have hlength := congrArg List.length hcallbacks
  refine ⟨?_, fun key t ht => ?_, fun entry he => ?_, fun d hd => ?_, fun other hv => ?_, h.handed⟩
  · exact hrecords ▸ h.attuned
  · exact hlength ▸ h.registered key t (hrecords ▸ ht)
  · exact hlength ▸ h.entering entry he
  · exact hlength ▸ h.pending d (by rw [Dispatch.pending, ← hrecords]; exact hd)
  · rcases List.mem_or_eq_of_mem_set hv with hv | rfl
    · exact h.inHand other hv
    · rw [Visit.due, reaches] at next
      refine ⟨callback, reaches, later, ?_⟩
      change visit.calls ++ [signal] ++ later = callback.through visit.delivery.signal
      rw [List.append_assoc]
      exact next.symm

/-- A visit is over once all its calls were made, or one of them failed. -/
theorem finish (h : Attended s) {job : Nat} {visit : Visit} {returned : Bool}
    (called : s.inHand[job]? = some visit)
    (ends : if returned then visit.calls = visit.due else visit.calls ≠ []) :
    Attended (s.finish job visit returned) := by
  have hsame : (Watch.settleCall ⟨s.watch, returned⟩).callbacks = s.watch.callbacks ∧
      (Watch.settleCall ⟨s.watch, returned⟩).records.registry = s.watch.records.registry ∧
      (Watch.settleCall ⟨s.watch, returned⟩).records.frontiers = s.watch.records.frontiers ∧
      (Watch.settleCall ⟨s.watch, returned⟩).records.queue = s.watch.records.queue := by
    cases returned <;> exact ⟨rfl, rfl, rfl, rfl⟩
  obtain ⟨hcallbacks, hregistry, hfrontiers, hqueue⟩ := hsame
  have hlength := congrArg List.length hcallbacks
  refine ⟨Records.Agrees.attuned ⟨fun key => congrArg (·.of key) hfrontiers, hregistry⟩ h.attuned,
    fun key t ht => ?_, fun entry he => ?_, fun d hd => ?_, fun other hv => ?_, fun past hp => ?_⟩
  · exact hlength ▸ h.registered key t (hregistry ▸ ht)
  · exact hlength ▸ h.entering entry he
  · exact hlength ▸ h.pending d (by rw [Dispatch.pending, ← hqueue]; exact hd)
  · exact h.inHand other (List.mem_of_mem_eraseIdx hv)
  · rcases List.mem_append.mp hp with hp | hp
    · exact h.handed past hp
    · obtain rfl := List.mem_singleton.mp hp
      obtain ⟨callback, reaches, hcalls⟩ := h.inHand visit (List.mem_of_getElem? called)
      rw [Visit.due, reaches] at ends
      exact ⟨callback, reaches, hcalls, ends⟩

/-- Every step keeps deliveries attended. -/
theorem step {s' : Dispatch} (h : Attended s) (hs : Step s s') : Attended s' := by
  cases hs with
  | change caller change stays free made => exact h.change caller stays made
  | enter caller delivery rest next => exact h.enter next
  | look caller => exact h.look caller
  | submit caller asks => exact h.submit caller
  | proceed free => exact h.proceed
  | call job visit callback signal later called reaches next => exact h.call reaches next
  | finish job visit returned called ends => exact h.finish called ends
  | other watch records jobs takes told callbacks =>
    have hle : s.watch.callbacks.length ≤ watch.callbacks.length := callbacks.length_le
    exact {
      attuned := records ▸ h.attuned
      registered := fun key t ht => Nat.lt_of_lt_of_le (h.registered key t (records ▸ ht)) hle
      entering := fun entry he => Nat.lt_of_lt_of_le (h.entering entry he) hle
      pending := fun d hd => Nat.lt_of_lt_of_le
        (h.pending d (by rw [Dispatch.pending, ← records]; exact hd)) hle
      inHand := h.inHand
      handed := h.handed }

/-- In every interleaving of steps, what is handed out is made. -/
theorem steps {s' : Dispatch} (h : Attended s) (hs : Relation.ReflTransGen Step s s') :
    Attended s' := by
  induction hs with
  | refl => exact h
  | tail _ hstep ih => exact ih.step hstep

end Attended

/-! ## What a watch does in one go -/

/-- One state comes to be another by such steps, after which nobody is in the midst of a change, and
nobody has to look for a job who had not to before. -/
structure Follows (s s' : Dispatch) (inHand : List Visit) : Prop where
  steps : Relation.ReflTransGen Step s s'
  free : s'.entering = []
  inHand : s'.inHand = inHand
  handed : s'.handed = s.handed
  asking : s'.asking = s.asking
  owing : ∀ caller ∈ s'.owing, caller ∈ s.owing

theorem Follows.refl {s : Dispatch} (free : s.entering = []) : Follows s s s.inHand :=
  ⟨.refl, free, rfl, rfl, rfl, fun _ h => h⟩

/-- One stretch of steps may follow another. -/
theorem Follows.trans {s t u : Dispatch} {inHand later : List Visit} (h : Follows s t inHand)
    (h' : Follows t u later) : Follows s u later where
  steps := h.steps.trans h'.steps
  free := h'.free
  inHand := h'.inHand
  handed := h'.handed.trans h.handed
  asking := h'.asking.trans h.asking
  owing caller hc := h.owing caller (h'.owing caller hc)

/-- One watch comes to be another by such steps, while no call is made. -/
def Flows (w v : Watch) : Prop :=
  ∀ s : Dispatch, s.watch = w → s.entering = [] →
    ∃ s', s'.watch = v ∧ Follows s s' s.inHand

/-- All deliveries of a change enter the queue, one after the other. -/
theorem steps_enter (caller : CallerId) (deliveries : List Delivery) (s : Dispatch)
    (next : s.entering = deliveries.map fun d => (caller, d)) :
    Relation.ReflTransGen Step s
      { s with
        watch := { s.watch with records := s.watch.records.enqueue deliveries }
        entering := []
        enqueued := s.enqueued ++ deliveries
        owing := List.replicate deliveries.length caller ++ s.owing } := by
  induction deliveries generalizing s with
  | nil =>
    obtain ⟨watch, entering, enqueued, handed, inHand, owing, asking⟩ := s
    obtain rfl : entering = [] := next
    dsimp only
    rw [Records.enqueue_nil, List.append_nil]
    exact .refl
  | cons d rest ih =>
    have hsteps := ih (s.enter caller d (rest.map fun d => (caller, d))) rfl
    refine .head (.enter s caller d _ next) ?_
    have howing : List.replicate rest.length caller ++ caller :: s.owing =
        List.replicate (d :: rest).length caller ++ s.owing := by
      rw [List.length_cons, List.replicate_succ', List.append_assoc]
      rfl
    unfold enter at hsteps ⊢
    dsimp only at hsteps
    rw [Records.enqueue_cons, List.append_assoc, howing] at hsteps
    exact hsteps

namespace Flows

variable {u v w : Watch}

theorem refl (w : Watch) : Flows w w := fun s hs free => ⟨s, hs, .refl free⟩

theorem trans (h : Flows w v) (h' : Flows v u) : Flows w u := by
  intro s hs free
  obtain ⟨t, ht, hfollows⟩ := h s hs free
  obtain ⟨t', ht', hfollows'⟩ := h' t ht hfollows.free
  exact ⟨t', ht', hfollows.trans (hfollows.inHand ▸ hfollows')⟩

/-- What has nothing to do with deliveries. -/
theorem other (records : v.records = w.records) (jobs : v.deliveryJobs = w.deliveryJobs)
    (takes : v.takes .delivery = w.takes .delivery) (told : v.told = w.told)
    (callbacks : v.callbacks = w.callbacks) : Flows w v := by
  intro s hs free
  subst hs
  have hcallbacks : s.watch.callbacks <+: v.callbacks := callbacks ▸ List.prefix_rfl
  exact ⟨{ s with watch := v }, rfl,
    .single (.other s v records jobs takes told hcallbacks), free, rfl, rfl, rfl, fun _ h => h⟩

/-- A change of the records, with all that it enqueues. -/
theorem steps_change (s : Dispatch) {change : Records.Change} (stays : change.handsOut = false)
    (free : s.entering = []) (none : change.registers? = none) :
    Relation.ReflTransGen Step s
      { s with
        watch := { s.watch with records := s.watch.records.apply change }
        entering := []
        enqueued := s.enqueued ++ s.watch.records.enqueuedBy change
        owing := List.replicate (s.watch.records.enqueuedBy change).length 0 ++ s.owing } := by
  have hmade : ∀ callback ∈ change.registers?, callback < s.watch.callbacks.length := by
    rw [none]
    exact fun _ hc => nomatch hc
  have hsteps := steps_enter 0 (s.watch.records.enqueuedBy change) (s.change 0 change) rfl
  unfold Dispatch.change at hsteps
  dsimp only at hsteps
  rw [Records.enqueue_withhold _ stays] at hsteps
  exact .head (.change s 0 change stays free hmade) hsteps

/-- A change that enqueues nothing needs no look for a job. -/
theorem quiet (w : Watch) (change : Records.Change) (stays : change.handsOut = false)
    (unregistered : change.registers? = none) (none : w.records.enqueuedBy change = []) :
    Flows w { w with records := w.records.apply change } := by
  intro s hs free
  subst hs
  have hsteps := steps_change s stays free unregistered
  refine ⟨_, rfl, hsteps, rfl, rfl, rfl, rfl, fun c hc => ?_⟩
  rw [none] at hc
  exact hc

/-- Whoever changes the records looks for a job at once, and submits it if it is needed. -/
theorem flush (w : Watch) (change : Records.Change) (stays : change.handsOut = false)
    (unregistered : change.registers? = none) :
    Flows w { w with records := w.records.apply change }.flush := by
  intro s hs free
  subst hs
  have hsteps := steps_change s stays free unregistered
  generalize ht : { s with
    watch := { s.watch with records := s.watch.records.apply change }
    entering := []
    enqueued := s.enqueued ++ s.watch.records.enqueuedBy change
    owing := List.replicate (s.watch.records.enqueuedBy change).length 0 ++ s.owing } = t
    at hsteps
  have hlook : Step t (t.look 0) := .look t 0
  have how (caller : CallerId) (hc : caller ∈ t.owing.filter (· ≠ 0)) : caller ∈ s.owing := by
    obtain ⟨hin, hne⟩ := List.mem_filter.mp hc
    rw [← ht] at hin
    rcases List.mem_append.mp hin with hmine | hin
    · rw [List.eq_of_mem_replicate hmine] at hne
      cases hne
    · exact hin
  have hwatch : { s.watch with records := s.watch.records.apply change } = t.watch := by rw [← ht]
  have hfree : t.entering = [] := by rw [← ht]
  have hhand : t.inHand = s.inHand := by rw [← ht]
  have hhanded : t.handed = s.handed := by rw [← ht]
  have hask : t.asking = s.asking := by rw [← ht]
  rw [hwatch]
  cases hn : t.watch.records.queue.needsJob with
  | true =>
    have hasked : t.look 0 =
        { t with
          owing := t.owing.filter (· ≠ 0), watch := t.watch.claimJob, asking := 0 :: t.asking } :=
      if_pos hn
    have hin : 0 ∈ (t.look 0).asking := by
      rw [hasked]
      exact List.mem_cons_self
    have hsubmitted : (t.look 0).submit 0 =
        { t with
          owing := t.owing.filter (· ≠ 0)
          watch := t.watch.claimJob.submitJob
          asking := (0 :: t.asking).erase 0 } := by rw [submit, hasked]
    have hsteps' := Relation.ReflTransGen.tail (.tail hsteps hlook) (.submit _ 0 hin)
    rw [hsubmitted] at hsteps'
    have hflush : t.watch.flush = t.watch.claimJob.submitJob := if_pos hn
    exact ⟨_, hflush.symm, hsteps', hfree, hhand, hhanded,
      (List.erase_cons_head 0 t.asking).trans hask, how⟩
  | false =>
    have hnone : t.look 0 = { t with owing := t.owing.filter (· ≠ 0) } :=
      if_neg (Bool.eq_false_iff.mp hn)
    have hsteps' := Relation.ReflTransGen.tail hsteps hlook
    rw [hnone] at hsteps'
    have hflush : t.watch.flush = t.watch := if_neg (Bool.eq_false_iff.mp hn)
    exact ⟨{ t with owing := t.owing.filter (· ≠ 0) }, hflush.symm, hsteps', hfree, hhand, hhanded,
      hask, how⟩

theorem cancelPollers (w : Watch) (ids : List PollerId) : Flows w (w.cancelPollers ids) := by
  induction ids generalizing w with
  | nil => exact refl w
  | cons id rest ih =>
    have hfirst : Flows w (w.cancelPoller id) := other rfl rfl rfl rfl rfl
    exact hfirst.trans (ih (w.cancelPoller id))

/-- A subscription that is removed enqueues nothing. -/
theorem unsubscribe (w : Watch) (subscription : Subscription) :
    Flows w (w.unsubscribe subscription) := by
  have hnone : w.records.enqueuedBy (.unsubscribe subscription.key subscription.callback) = [] :=
    Records.enqueuedBy_of_append (List.append_nil _).symm
  exact (quiet w _ rfl rfl hnone).trans (cancelPollers _ _)

/-- A shutdown enqueues nothing. -/
theorem shutdown (w : Watch) : Flows w w.shutdown := by
  let stopped : Watch := { w with stopped := true }
  have hstopped : Flows w stopped := other rfl rfl rfl rfl rfl
  have hnone : stopped.records.enqueuedBy .removePollers = [] :=
    Records.enqueuedBy_of_append (List.append_nil _).symm
  exact (hstopped.trans (quiet stopped _ rfl rfl hnone)).trans (cancelPollers _ _)

/-- An errand that is submitted is nothing to the queue. -/
theorem submitErrand (w : Watch) (kind : JobKind) (purpose : Purpose) (uri : EditionUri) :
    Flows w (w.submitErrand kind purpose uri) := by
  unfold Watch.submitErrand
  split
  · exact other rfl rfl rfl rfl rfl
  · exact refl w

/-- A hint becomes an errand at most. -/
theorem hint (w : Watch) (uri : EditionUri) : Flows w (w.hint uri) := by
  unfold Watch.hint
  split
  · split
    · exact other rfl rfl rfl rfl rfl
    · exact submitErrand w _ _ _
  · exact submitErrand w _ _ _

/-- Whatever a listener does when it is told of an edition. -/
theorem react (w : Watch) (l : Listener) (found : Found) : Flows w (w.react l found) := by
  unfold Watch.react
  split
  · split
    · exact refl w
    · exact flush w (.noteGood w.now found.uri) rfl rfl
    · split
      · exact flush w (.noteSlot w.now _) rfl rfl
      · exact refl w
    · split
      · exact refl w
      · exact unsubscribe w _
    · exact hint w _
    · exact shutdown w
  · exact refl w

/-- What a target does once it has been told something. -/
theorem callTarget (w : Watch) (target : Target) (signal : Signal) :
    Flows (w.hear target signal) (w.callTarget target signal).watch := by
  cases target with
  | listener name =>
    cases signal with
    | round key => exact refl _
    | found found =>
      simp only [Watch.callTarget, Watch.callListener]
      split
      · exact refl _
      · split
        · exact refl _
        · exact react _ _ found
  | feed id =>
    cases signal with
    | round key => exact refl w
    | found found =>
      simp only [Watch.callTarget, Watch.callFeed]
      split
      · exact refl w
      · split
        · let v : Watch := { w with feeds := w.feeds.modify id (·.pursue found.edition) }
          have hv : Flows w v := other rfl rfl rfl rfl rfl
          exact hv.trans (submitErrand v _ _ _)
        · exact refl w

end Flows

/-! ## The turn of a delivery job -/

/-- A target that is to be told one thing after the other gets these calls, up to the first that
fails. -/
theorem follows_callAll {visit : Visit} {callback : Callback} {others : List Visit}
    (reaches : visit.callback = some callback) (signals : List Signal) (s : Dispatch)
    (free : s.entering = []) (hand : s.inHand = visit :: others)
    (next : visit.due = visit.calls ++ signals) :
    ∃ s', s'.watch = (s.watch.callAll callback.target signals).watch ∧
      Follows s s'
        ({ visit with calls := visit.calls ++ s.watch.callsTo callback.target signals }
          :: others) := by
  induction signals generalizing s visit with
  | nil =>
    refine ⟨s, rfl, ?_⟩
    rw [Watch.callsTo, List.append_nil, ← hand]
    exact .refl free
  | cons signal rest ih =>
    let told : Visit := { visit with calls := visit.calls ++ [signal] }
    let t : Dispatch := s.call 0 visit callback.target signal
    have hcall : Step s t :=
      .call s 0 visit callback signal rest (by rw [hand]; rfl) reaches next
    have hhand : t.inHand = told :: others := by
      change s.inHand.set 0 told = told :: others
      rw [hand]
      rfl
    have hcalled : Follows s t (told :: others) :=
      ⟨.single hcall, free, hhand, rfl, rfl, fun _ hc => hc⟩
    obtain ⟨u, hu, hanswers⟩ := Flows.callTarget s.watch callback.target signal t rfl free
    have hfollows := hcalled.trans hanswers
    rw [hhand] at hfollows
    unfold Watch.callAll Watch.callsTo
    dsimp only
    split
    case isTrue =>
      have hnext : told.due = told.calls ++ rest := by
        change visit.due = visit.calls ++ [signal] ++ rest
        rw [next, List.append_assoc]
        rfl
      obtain ⟨v, hv, hlater⟩ := @ih told reaches u hfollows.free hfollows.inHand hnext
      rw [hu] at hv hlater
      refine ⟨v, hv, ?_⟩
      have hcalls : told.calls ++
          (s.watch.callTarget callback.target signal).watch.callsTo callback.target rest =
            visit.calls ++ signal ::
              (s.watch.callTarget callback.target signal).watch.callsTo callback.target rest :=
        List.append_assoc _ _ _
      rw [← hcalls]
      exact hfollows.trans hlater
    case isFalse => exact ⟨u, hu, hfollows⟩

/-- If a call fails, it was made. -/
theorem callsTo_ne_nil_of_failed {w : Watch} {target : Target} {signals : List Signal}
    (fails : (w.callAll target signals).returned = false) : w.callsTo target signals ≠ [] := by
  cases signals with
  | nil => cases fails
  | cons signal rest => exact List.cons_ne_nil _ _

/-- A delivery that was taken out is made: all calls that are to be made for it are made, and
whatever they do is done by callers. -/
theorem follows_deliver (w : Watch) (delivery : Delivery) {others : List Visit} (s : Dispatch)
    (settled : s.entering = []) (watch : s.watch = w.tell delivery)
    (hand : s.inHand = ⟨delivery, w.callbacks[delivery.callback]?, []⟩ :: others) :
    ∃ s' visit, s'.watch = (w.deliver delivery).watch ∧ Follows s s' (visit :: others) ∧
      (if (w.deliver delivery).returned then visit.calls = visit.due else visit.calls ≠ []) ∧
      visit.handOut (w.deliver delivery).returned = w.handOut delivery := by
  rw [Watch.handOut, Watch.callsOf, Watch.deliver_eq]
  cases hc : w.callbacks[delivery.callback]? with
  | none =>
    rw [hc] at hand
    have htell : w.tell delivery = w := by
      rw [Watch.tell, List.modify_eq_self (List.getElem?_eq_none_iff.mp hc)]
    exact ⟨s, ⟨delivery, none, []⟩, watch.trans htell, hand ▸ .refl settled, rfl, rfl⟩
  | some callback =>
    rw [hc] at hand
    obtain ⟨t, ht, hfollows⟩ :=
      follows_callAll rfl (callback.through delivery.signal) s settled hand rfl
    rw [watch] at ht hfollows
    refine ⟨t, _, ht, hfollows, ?_, rfl⟩
    dsimp only
    rw [List.nil_append]
    cases hr : ((w.tell delivery).callAll callback.target
      (callback.through delivery.signal)).returned with
    | true => exact Watch.callsTo_of_returned hr
    | false =>
      rw [if_neg Bool.false_ne_true]
      exact callsTo_ne_nil_of_failed hr

/-- What was handed out, as it shows from outside. -/
def handOuts (s : Dispatch) : List Watch.HandOut :=
  s.handed.map fun past => past.toVisit.handOut past.returned

/-- The turn of a delivery job is made of such steps: it takes a delivery, makes the calls, and then
the calls are over. What it hands out is recorded. -/
theorem steps_deliverNext (s : Dispatch) (settled : s.entering = [])
    (free : s.inHand.length < s.watch.deliveryJobs) :
    ∃ s', Relation.ReflTransGen Step s s' ∧ s'.watch = s.watch.deliverNext.watch ∧
      s'.entering = [] ∧ s'.inHand = s.inHand ∧
      s'.handOuts = s.handOuts ++ (s.watch.handOut? (.work .delivery)).toList ∧
      s'.asking = s.asking ∧ ∀ caller ∈ s'.owing, caller ∈ s.owing := by
  have hproceed : Step s s.proceed := .proceed s free
  have hjobs : 0 < s.watch.deliveryJobs := Nat.zero_lt_of_lt free
  unfold Watch.deliverNext Watch.handOut?
  unfold proceed at hproceed
  rw [if_pos hjobs]
  cases ht : s.watch.takeDelivery? with
  | none =>
    rw [ht] at hproceed
    exact ⟨_, .single hproceed, rfl, settled, rfl, (List.append_nil _).symm, rfl, fun _ hc => hc⟩
  | some taken =>
    obtain ⟨delivery, w⟩ := taken
    rw [ht] at hproceed
    let taken : Dispatch :=
      { s with
        watch := w.tell delivery
        inHand := ⟨delivery, w.callbacks[delivery.callback]?, []⟩ :: s.inHand }
    obtain ⟨t, visit, hw, hfollows, hends, hhandOut⟩ :=
      follows_deliver w delivery taken settled rfl rfl
    have hcalled : t.inHand[0]? = some visit := by
      rw [hfollows.inHand]
      rfl
    refine ⟨t.finish 0 visit (w.deliver delivery).returned,
      .tail (.head hproceed hfollows.steps) (.finish t 0 visit _ hcalled hends), ?_, hfollows.free,
      ?_, ?_, hfollows.asking, hfollows.owing⟩
    · rw [finish, hw]
    · rw [finish, hfollows.inHand]
      rfl
    · rw [handOuts, finish, hfollows.handed, List.map_append]
      exact congrArg (s.handOuts ++ [·]) hhandOut

/-! ## Every interleaving -/

/-- In every interleaving of callers and jobs, calls that fail among them, there is at most one
job, and the queue knows of it; the deliveries handed out, the one in hand and those that wait
are together those that were enqueued; once all callers have looked, none waits without a job;
and the counters add up. What was handed out was made, and listeners were told just what was handed
to them. Among the interleavings are the turns of the delivery job, with all that listeners do while
they are told something. -/
theorem dispatch_exact (settings : Settings) (listeners : List Listener) (s : Dispatch)
    (h : Relation.ReflTransGen Step (initial settings listeners) s) :
    s.jobs ≤ 1 ∧ (s.watch.records.queue.draining = true ↔ s.jobs = 1) ∧
    s.handed.map (·.delivery) ++ s.inHand.map Visit.delivery ++ s.pending = s.enqueued ∧
    s.inHand.length ≤ 1 ∧
    (s.owing = [] → s.pending ≠ [] → s.jobs = 1) ∧
    s.watch.records.tally.notificationsQueued =
      s.watch.records.tally.notificationsDelivered + s.failed + s.pending.length
        + s.inHand.length ∧
    (∀ past ∈ s.handed, past.IsMade) ∧ (∀ visit ∈ s.inHand, visit.IsUnderway) ∧
    s.watch.told = s.told ∧
    (s.entering = [] → s.inHand.length < s.watch.deliveryJobs →
      ∃ s', Relation.ReflTransGen Step s s' ∧ s'.watch = s.watch.deliverNext.watch ∧
        s'.entering = [] ∧ s'.inHand = s.inHand ∧
        s'.handOuts = s.handOuts ++ (s.watch.handOut? (.work .delivery)).toList) := by
  have ho : Orderly s := (Orderly.initial settings listeners).steps h
  have ha : Attended s := (Attended.initial settings listeners).steps h
  have hj := ho.jobs
  have hiff : s.watch.records.queue.draining = true ↔ s.jobs = 1 := by
    cases hd : s.watch.records.queue.draining <;> simp [hj, hd]
  have hle : s.jobs ≤ 1 := by
    rw [hj]
    split <;> omega
  refine ⟨hle, hiff, ho.order, ho.length_inHand_le, fun hn hp => hiff.mp (ho.awake hn hp),
    ho.counted, ha.handed, ha.inHand, ho.told, fun settled free => ?_⟩
  obtain ⟨s', hsteps, hwatch, hsettled, hhand, hhanded, -⟩ := steps_deliverNext s settled free
  exact ⟨s', hsteps, hwatch, hsettled, hhand, hhanded⟩

/-- The run in which two callbacks are registered and an edition comes. The job takes out the
delivery for the first before the one for the second has entered the queue, and the call fails. -/
theorem dispatch_exact_of_failed_call :
    let key : DocumentKey := ⟨.uniform 7, "notes"⟩
    let made : Watch := { Watch.initial .standard [] with
      callbacks := [⟨none, .listener "ann"⟩, ⟨none, .listener "bob"⟩] }
    let news : Found := ⟨key, 3, false, true⟩
    let visit : Visit := ⟨.found 0 news, some ⟨none, .listener "ann"⟩, []⟩
    let told : Visit := { visit with calls := [.found news] }
    let start : Dispatch := initial .standard []
    let entered := ((({ start with watch := made }.change 0 (.subscribe key 0 2 false)).change 0
      (.subscribe key 1 2 false)).change 0 (.noteSlot 0 ⟨key, 3⟩)).enter 0 (.found 0 news)
        [(0, .found 1 news)]
    let called := ((entered.look 1).submit 1).proceed.call 0 visit (.listener "ann") (.found news)
    let s := (called.enter 0 (.found 1 news) []).finish 0 told false
    s.jobs = 1 ∧ s.failed = 1 ∧ s.handed.map (·.delivery) = [.found 0 news] ∧
      s.pending = [.found 1 news] ∧ s.watch.told = [("ann", .found news)] ∧
      s.watch.records.tally.notificationsQueued = 2 := by
  intro key made news visit told start entered called s
  have hrun : Relation.ReflTransGen Step start s := by
    refine .head (.other start made rfl rfl rfl rfl (List.nil_prefix)) ?_
    refine .head (.change _ 0 (.subscribe key 0 2 false) rfl rfl (by decide)) ?_
    refine .head (.change _ 0 (.subscribe key 1 2 false) rfl rfl (by decide)) ?_
    refine .head (.change _ 0 (.noteSlot 0 ⟨key, 3⟩) rfl rfl (by decide)) ?_
    refine .head (.enter _ 0 (.found 0 news) [(0, .found 1 news)] rfl) ?_
    refine .head (.look _ 1) ?_
    refine .head (.submit _ 1 (by decide)) ?_
    refine .head (.proceed _ (by decide)) ?_
    refine .head (.call _ 0 visit ⟨none, .listener "ann"⟩ (.found news) [] rfl rfl rfl) ?_
    refine .head (.enter _ 0 (.found 1 news) [] rfl) ?_
    exact .single (.finish _ 0 told false rfl (List.cons_ne_nil _ _))
  obtain ⟨-, hdraining, horder, -, -, hcounted, -, -, htold, -⟩ :=
    dispatch_exact .standard [] s hrun
  have hjobs : s.jobs = 1 := hdraining.mp (by decide)
  have hfailed : s.failed = 1 := by decide
  have hhanded : s.handed.map (·.delivery) = [.found 0 news] := rfl
  have hhand : s.inHand = [] := rfl
  have henqueued : s.enqueued = [.found 0 news, .found 1 news] := by decide
  have hpending : s.pending = [.found 1 news] := by
    rw [hhanded, hhand, henqueued] at horder
    exact (List.cons.inj horder).2
  have hdelivered : s.watch.records.tally.notificationsDelivered = 0 := by decide
  rw [hhand, hpending, hfailed, hdelivered] at hcounted
  exact ⟨hjobs, hfailed, hhanded, hpending, htold, hcounted⟩

end Dispatch

end EditionWatch
