import EditionWatch.Proofs.Likeness
import EditionWatch.Proofs.Sparse

/-!
# What a call that fails costs

A listener may fail over an edition that it is told of. To see what that costs, a run is compared
with a calm one: in it the same calls do as much as they do, but all of them return. Other
listeners are told the same in both, at the same point of everything else that happens. A listener
that fails is told the same as well, but for one thing: if the edition came out of a gate at the
end of a round, the end of the round was to come after it in the same delivery, and is lost.
-/

namespace EditionWatch

/-- What the target of a callback is told in a delivery after an edition, if the gate of the
callback lets one through: the end of the round that the delivery is about. -/
def Delivery.closing : Delivery → List Signal
  | .found _ _ => []
  | .round _ key => [.round key]

/-- In a delivery at most one edition comes through, and it comes first. -/
theorem Callback.through_cases (callback : Callback) (d : Delivery) :
    callback.through d.signal = d.closing ∨
      ∃ found, callback.through d.signal = .found found :: d.closing := by
  obtain ⟨gate, target⟩ := callback
  cases gate with
  | none =>
    cases d with
    | found told news => exact .inr ⟨news, rfl⟩
    | round told key => exact .inl rfl
  | some gate =>
    cases d with
    | found told news => exact .inl rfl
    | round told key =>
      simp only [through, Delivery.signal, SparseGate.feed]
      split
      · exact .inl rfl
      case h_2 found _ =>
        split
        · exact .inr ⟨found, rfl⟩
        · exact .inl rfl

namespace Watch

variable {spoilt : String → Bool} {v w : Watch}

/-! ## Calm runs -/

/-- Tells a target one thing after the other, whether calls fail or not. -/
def callCalmly (w : Watch) (target : Target) (signals : List Signal) : Watch :=
  signals.foldl (fun w signal => (w.callTarget target signal).watch) w

/-- The watch after a delivery, if calls that fail do as much as they do, but return. -/
def deliverCalmly (w : Watch) (d : Delivery) : Watch :=
  match w.callbacks[d.callback]? with
  | none => w
  | some callback => (w.tell d).callCalmly callback.target (callback.through d.signal)

/-- The watch after an action, if all calls return. -/
def actCalmly (w : Watch) (action : Action) : Watch :=
  match w.handOut? action with
  | none => w.act action
  | some h => settleCall ⟨w.take.deliverCalmly h.delivery, true⟩

/-- The watch after several actions, if all calls return. -/
def runCalmly (w : Watch) (actions : List Action) : Watch := actions.foldl actCalmly w

/-- Whether a target fails over what it is told. -/
def failsOver (w : Watch) : Target → Signal → Bool
  | .listener name, .found found => (w.temper name).1.contains found.edition
  | _, _ => false

namespace HandOut

/-- What a target was still to be told when a delivery failed on it. -/
def lost (h : HandOut) : List Signal := if h.returned then [] else h.delivery.closing

/-- Whether a delivery failed on the listener of a name and kept something from it. -/
def robs (h : HandOut) (name : String) : Bool :=
  h.target = some (.listener name) && !h.lost.isEmpty

/-- What a listener is to be told when a delivery is handed out, whoever fails. -/
def due (h : HandOut) : List (String × Signal) :=
  match h.target with
  | none => []
  | some target => target.tells (h.calls ++ h.lost)

end HandOut

/-! ## One delivery -/

/-- A call that fails over nothing returns. -/
theorem returned_callTarget {target : Target} {signal : Signal}
    (holds : w.failsOver target signal = false) :
    (w.callTarget target signal).returned = true := by
  cases target with
  | feed id => rfl
  | listener name =>
    cases signal with
    | round key => rfl
    | found found =>
      simp only [failsOver, temper] at holds
      simp only [callTarget, callListener, listener?_log]
      cases hl : w.listener? name with
      | none => rfl
      | some l =>
        rw [hl] at holds
        dsimp only at holds ⊢
        rw [holds]
        rfl

/-- Only listeners fail, and only over editions; they are told, and do nothing about it. -/
theorem callTarget_of_fails {target : Target} {signal : Signal}
    (fails : w.failsOver target signal = true) :
    ∃ name found, target = .listener name ∧ signal = .found found ∧
      w.callTarget target signal = ⟨w.log (.found name found), false⟩ := by
  cases target with
  | feed id => cases fails
  | listener name =>
    cases signal with
    | round key => cases fails
    | found found =>
      refine ⟨name, found, rfl, rfl, ?_⟩
      simp only [failsOver, temper] at fails
      simp only [callTarget, callListener, listener?_log]
      cases hl : w.listener? name with
      | none =>
        rw [hl] at fails
        cases fails
      | some l =>
        rw [hl] at fails
        exact if_pos fails

/-- Nobody fails over the end of a round. -/
theorem callAll_closing (w : Watch) (target : Target) (d : Delivery) :
    w.callAll target d.closing = ⟨w.callCalmly target d.closing, true⟩ := by
  cases d with
  | found told news => rfl
  | round told key =>
    rw [Delivery.closing, callAll_singleton]
    cases target <;> rfl

/-- If a delivery returned, everything was told that came through the gate. -/
theorem calls_of_returned {d : Delivery} {callback : Callback}
    (known : w.callbacks[d.callback]? = some callback)
    (returned : (w.handOut d).returned = true) :
    (w.handOut d).calls = callback.through d.signal := by
  have hdeliver : w.deliver d =
      (w.tell d).callAll callback.target (callback.through d.signal) := by
    rw [deliver_eq, known]
  have hcalls : (w.handOut d).calls =
      (w.tell d).callsTo callback.target (callback.through d.signal) := by
    simp only [handOut, callsOf, known]
  exact hcalls.trans (callsTo_of_returned (hdeliver ▸ returned))

/-- A delivery is cut short: the listener it is for fails over the edition that comes first, and
is told nothing more. -/
structure CutShort (w : Watch) (d : Delivery) (callback : Callback) (name : String)
    (found : Found) : Prop where
  known : w.callbacks[d.callback]? = some callback
  target : callback.target = .listener name
  through : callback.through d.signal = .found found :: d.closing
  fails : w.failsOver (.listener name) (.found found) = true
  calls : (w.handOut d).calls = [.found found]
  deliver : w.deliver d = ⟨(w.tell d).log (.found name found), false⟩
  calm : w.deliverCalmly d =
    ((w.tell d).log (.found name found)).callCalmly (.listener name) d.closing

/-- A delivery comes off, or is cut short. -/
theorem deliver_cases (w : Watch) (d : Delivery) :
    w.deliver d = ⟨w.deliverCalmly d, true⟩ ∨
      ∃ callback name found, CutShort w d callback name found := by
  rw [deliver_eq, deliverCalmly]
  cases known : w.callbacks[d.callback]? with
  | none => exact .inl rfl
  | some callback =>
    dsimp only
    rcases callback.through_cases d with hthrough | ⟨found, hthrough⟩
    · exact .inl (hthrough ▸ callAll_closing (w.tell d) callback.target d)
    · rw [hthrough]
      -- The edition is the only thing that comes through over which anybody can fail.
      cases hfails : (w.tell d).failsOver callback.target (.found found) with
      | false =>
        rw [callAll, if_pos (returned_callTarget hfails), callAll_closing]
        exact .inl rfl
      | true =>
        obtain ⟨name, same, htarget, hsame, hcall⟩ := callTarget_of_fails hfails
        obtain rfl := Signal.found.inj hsame
        rw [htarget] at hfails hcall
        refine .inr ⟨callback, name, found, known, htarget, hthrough, hfails, ?_, ?_, ?_⟩
        · simp only [handOut, callsOf, known]
          rw [hthrough, htarget, callsTo, hcall]
          rfl
        · rw [deliver_eq, known]
          dsimp only
          rw [hthrough, htarget, callAll, hcall]
          rfl
        · rw [deliverCalmly, known]
          dsimp only
          rw [hthrough, htarget, callCalmly, List.foldl_cons, hcall]
          rfl

namespace CutShort

variable {d : Delivery} {callback : Callback} {name : String} {found : Found}

/-- A delivery that was cut short did not return. -/
theorem returned (cut : CutShort w d callback name found) : (w.handOut d).returned = false :=
  congrArg Call.returned cut.deliver

/-- A delivery that was cut short was made to a listener. -/
theorem handOut_target (cut : CutShort w d callback name found) :
    (w.handOut d).target = some (.listener name) := by
  rw [handOut, cut.known, Option.map_some, cut.target]

/-- If a delivery was cut short, what it lost is the closing of its round. -/
theorem lost (cut : CutShort w d callback name found) : (w.handOut d).lost = d.closing := by
  rw [HandOut.lost, cut.returned]
  rfl

/-- A delivery that was cut short robs its listener if it had a round to close. -/
theorem robs (cut : CutShort w d callback name found) (leaves : d.closing ≠ []) :
    (w.handOut d).robs name = true := by
  rw [HandOut.robs, cut.handOut_target, cut.lost, decide_eq_true rfl, Bool.true_and,
    Bool.not_eq_true', List.isEmpty_eq_false_iff]
  exact leaves

end CutShort

/-- What listeners are to be told in a delivery is what comes through to them. -/
theorem due_handOut (w : Watch) (d : Delivery) :
    (w.handOut d).due =
      match w.callbacks[d.callback]? with
      | none => []
      | some callback => callback.target.tells (callback.through d.signal) := by
  have hdelivery : (w.handOut d).delivery = d := rfl
  cases known : w.callbacks[d.callback]? with
  | none => simp only [HandOut.due, handOut, known, Option.map_none]
  | some callback =>
    have htarget : (w.handOut d).target = some callback.target := by
      simp only [handOut, known, Option.map_some]
    simp only [HandOut.due, htarget, HandOut.lost, hdelivery]
    rcases deliver_cases w d with hoff | ⟨other, name, found, cut⟩
    · have hr : (w.handOut d).returned = true := congrArg Call.returned hoff
      rw [if_pos hr, calls_of_returned known hr, List.append_nil]
    · obtain rfl : callback = other := Option.some.inj (known.symm.trans cut.known)
      rw [cut.returned, cut.calls, cut.through]
      rfl

/-! ## The same delivery in two watches -/

/-- What can be seen of failures is left aside. -/
theorem firm_log {event : Event} (loose : event.isFirm spoilt = false) (w : Watch) :
    (w.log event).firm spoilt = w.firm spoilt := by
  simp only [firm, log, Array.filter_push, loose, Bool.false_eq_true, if_false]

/-- So it makes no difference whether a delivery is counted or its failure reported. -/
theorem firm_settleCall (call : Call) :
    (settleCall call).firm spoilt = call.watch.firm spoilt := by
  unfold settleCall
  split
  · rfl
  · exact firm_log rfl call.watch

/-- Nor does it that the spoilt are told of the end of a round. -/
theorem firm_closing (w : Watch) {d : Delivery} {name : String}
    (spoils : d.closing ≠ [] → spoilt name = true) :
    (w.callCalmly (.listener name) d.closing).firm spoilt = w.firm spoilt := by
  cases d with
  | found told news => rfl
  | round told key =>
    have hloose : (Event.round name key).isFirm spoilt = false := by
      rw [Event.isFirm, spoils (List.cons_ne_nil _ _)]
      rfl
    exact firm_log hloose w

/-- Watches in step stay so if nobody fails at what a target is told. -/
theorem InStep.callCalmly (h : Resembles spoilt w v) (kin : Kin w v) (target : Target)
    (signals : List Signal) :
    InStep spoilt w v (w.callCalmly target signals) (v.callCalmly target signals) := by
  induction signals generalizing w v with
  | nil => exact refl h
  | cons signal rest ih =>
    have hfirst := callTarget h kin target signal
    exact hfirst.andThen fun h => ih h (hfirst.kin kin)

/-- Watches in step stay so if nobody fails at a delivery. -/
theorem InStep.deliverCalmly (h : Resembles spoilt w v) (kin : Kin w v) (d : Delivery) :
    InStep spoilt w v (w.deliverCalmly d) (v.deliverCalmly d) := by
  have htell : InStep spoilt w v (w.tell d) (v.tell d) :=
    same h (·.tell d) (fun _ => rfl) fun _ => rfl
  unfold Watch.deliverCalmly
  rw [h.callbacks]
  split
  · exact refl h
  · exact htell.andThen fun h => callCalmly h (htell.kin kin) _ _

/-- What an action hands out is the first delivery that waits, if it is the turn of a delivery
job. -/
theorem delivery_handOut? (w : Watch) (action : Action) :
    (w.handOut? action).map HandOut.delivery =
      match action with
      | .work .delivery => if 0 < w.deliveryJobs then w.takeDelivery?.map Prod.fst else none
      | _ => none := by
  cases action with
  | work job =>
    cases job with
    | delivery =>
      simp only [handOut?]
      rw [apply_ite (Option.map HandOut.delivery), Option.map_map]
      rfl
    | _ => rfl
  | _ => rfl

/-- Both hand out the same delivery, or none. -/
theorem Resembles.handOut_cases (h : Resembles spoilt w v) (action : Action) :
    (w.handOut? action = none ∧ v.handOut? action = none) ∨
      ∃ made made', w.handOut? action = some made ∧ v.handOut? action = some made' ∧
        made'.delivery = made.delivery := by
  have hjobs : w.deliveryJobs = v.deliveryJobs := h.same Watch.deliveryJobs fun _ => rfl
  have hdelivery : (w.handOut? action).map HandOut.delivery =
      (v.handOut? action).map HandOut.delivery := by
    rw [delivery_handOut?, delivery_handOut?, hjobs, h.first]
  cases hw : w.handOut? action with
  | none =>
    rw [hw, Option.map_none, eq_comm, Option.map_eq_none_iff] at hdelivery
    exact .inl ⟨rfl, hdelivery⟩
  | some made =>
    rw [hw, Option.map_some, eq_comm, Option.map_eq_some_iff] at hdelivery
    obtain ⟨made', hv, hsame⟩ := hdelivery
    exact .inr ⟨made, made', rfl, hv, hsame⟩

/-- Watches in step take out the same delivery. -/
theorem Resembles.take (h : Resembles spoilt w v) : InStep spoilt w v w.take v.take :=
  InStep.record h .takeDelivery

/-- An action that hands nothing out goes as it does without failures. -/
theorem actCalmly_of_idle {action : Action} (idle : w.handOut? action = none) :
    w.actCalmly action = w.act action := by rw [actCalmly, idle]

/-- A delivery that goes without failures is counted as returned. -/
theorem actCalmly_of_handOut {action : Action} {h : HandOut} (made : w.handOut? action = some h) :
    w.actCalmly action = settleCall ⟨w.take.deliverCalmly h.delivery, true⟩ := by
  rw [actCalmly, made]

/-- An action over which nobody fails goes as it does without failures. -/
theorem actCalmly_of_returned {action : Action}
    (returned : ∀ made, w.handOut? action = some made → made.returned = true) :
    w.actCalmly action = w.act action := by
  cases hmade : w.handOut? action with
  | none => exact actCalmly_of_idle hmade
  | some made =>
    obtain ⟨hmaking, -, hact⟩ := handOut_cases hmade
    have hr := returned made hmade
    rw [hmaking] at hr
    rcases deliver_cases w.take made.delivery with hoff | ⟨callback, name, found, cut⟩
    · rw [hact, actCalmly_of_handOut hmade, hoff]
    · exact absurd (cut.returned.symm.trans hr) Bool.false_ne_true

/-- The same happens calmly in both. -/
theorem InStep.actCalmly (h : Resembles spoilt w v) (kin : Kin w v) (action : Action) :
    InStep spoilt w v (w.actCalmly action) (v.actCalmly action) := by
  rcases h.handOut_cases action with ⟨hw, hv⟩ | ⟨made, made', hw, hv, hsame⟩
  · rw [actCalmly_of_idle hw, actCalmly_of_idle hv]
    exact act h hw
  · rw [actCalmly_of_handOut hw, actCalmly_of_handOut hv, hsame]
    exact (h.take.andThen (deliverCalmly · kin made.delivery)).andThen (record · .countDelivered)

/-- A failure makes no difference but to those who are spoilt. -/
theorem InStep.of_failure {action : Action}
    (spoils : ∀ made, w.handOut? action = some made →
      ∀ name, made.robs name = true → spoilt name = true) :
    InStep spoilt w w (w.act action) (w.actCalmly action) := by
  have hself : Resembles spoilt w w := rfl
  cases hmade : w.handOut? action with
  | none =>
    rw [actCalmly_of_idle hmade]
    exact act hself hmade
  | some made =>
    obtain ⟨hmaking, -, hact⟩ := handOut_cases hmade
    have htake : InStep spoilt w w w.take w.take := hself.take
    rw [hact, actCalmly_of_handOut hmade]
    rcases deliver_cases w.take made.delivery with hoff | ⟨callback, name, found, cut⟩
    · rw [hoff]
      exact (htake.andThen (deliverCalmly · (kin_of_temper rfl) _)).andThen
        (record · .countDelivered)
    · have hname (leaves : made.delivery.closing ≠ []) : spoilt name = true := by
        refine spoils made hmade name ?_
        rw [hmaking]
        exact cut.robs leaves
      rw [cut.deliver, cut.calm]
      let told : Watch := (w.take.tell made.delivery).log (.found name found)
      have htold : InStep spoilt w w told told :=
        (htake.andThen fun h => same h (·.tell made.delivery) (fun _ => rfl) fun _ => rfl).andThen
          fun h => log h rfl
      refine htold.andThen fun h => ⟨?_, rfl, ?_⟩
      · rw [Resembles, firm_settleCall, firm_settleCall]
        exact (firm_closing told hname).symm
      · cases made.delivery <;> rfl

/-! ## What the calm watch is told -/

/-- Watches in step hand out deliveries that have the same calls due. -/
theorem Resembles.due (h : Resembles spoilt w v) (action : Action) :
    (w.handOut? action).toList.flatMap HandOut.due =
      (v.handOut? action).toList.flatMap HandOut.due := by
  have hdue {u : Watch} {made : HandOut} (hmade : u.handOut? action = some made) :
      made.due =
        match u.callbacks[made.delivery.callback]? with
        | none => []
        | some callback => callback.target.tells (callback.through made.delivery.signal) :=
    (congrArg HandOut.due (Watch.handOut_cases hmade).1).trans
      (due_handOut u.take made.delivery)
  rcases h.handOut_cases action with ⟨hw, hv⟩ | ⟨made, made', hw, hv, hsame⟩
  · rw [hw, hv]
  · rw [hw, hv, Option.toList_some, Option.toList_some, List.flatMap_singleton,
      List.flatMap_singleton, hdue hw, hdue hv, h.callbacks, hsame]

/-- Without failures a target is told everything. -/
theorem told_callCalmly (w : Watch) (target : Target) (signals : List Signal) :
    (w.callCalmly target signals).told = w.told ++ target.tells signals := by
  induction signals generalizing w with
  | nil =>
    cases target <;> exact (List.append_nil _).symm
  | cons signal rest ih =>
    have hcons : target.tells (signal :: rest) = target.tells [signal] ++ target.tells rest := by
      cases target <;> rfl
    have hfirst := (tells_callTarget w target signal).told
    rw [hcons, ← List.append_assoc, ← hfirst]
    exact ih _

/-- Calmly, listeners are told all that they are to be told. -/
theorem told_actCalmly (w : Watch) (action : Action) :
    (w.actCalmly action).told =
      w.told ++ (w.handOut? action).toList.flatMap HandOut.due := by
  cases hmade : w.handOut? action with
  | none =>
    have hact := (deed_act w action).told
    rw [hmade, eased_of_idle hmade] at hact
    rw [actCalmly_of_idle hmade]
    exact hact
  | some made =>
    have hdue : made.due = (w.take.handOut made.delivery).due :=
      congrArg HandOut.due (handOut_cases hmade).1
    have hsettle : (settleCall ⟨w.take.deliverCalmly made.delivery, true⟩).told =
        (w.take.deliverCalmly made.delivery).told := rfl
    rw [actCalmly_of_handOut hmade, hsettle, Option.toList_some, List.flatMap_singleton, hdue,
      due_handOut, deliverCalmly]
    cases w.take.callbacks[made.delivery.callback]? with
    | none => exact (List.append_nil _).symm
    | some callback => exact told_callCalmly _ _ _

/-! ## Whole runs -/

theorem runCalmly_cons (w : Watch) (action : Action) (rest : List Action) :
    w.runCalmly (action :: rest) = (w.actCalmly action).runCalmly rest := rfl

/-- A run and a calm one differ only for those who are spoilt by failures, and calmly listeners
are told all that they are to be told in the run. -/
theorem inStep_runCalmly (h : Resembles spoilt w v) (same : w.temper = v.temper)
    {actions : List Action}
    (spoils : ∀ made ∈ w.handOuts actions, ∀ name, made.robs name = true →
      spoilt name = true) :
    InStep spoilt w v (w.run actions) (v.runCalmly actions) ∧
      (v.runCalmly actions).told = v.told ++ (w.handOuts actions).flatMap HandOut.due := by
  -- What both watches keep in common is that they resemble each other and that their listeners have
  -- one temper. A step is taken apart: first the failure is left out of it in the one watch, then
  -- the calm step is taken in both.
  induction actions generalizing w v with
  | nil => exact ⟨InStep.refl h, (List.append_nil _).symm⟩
  | cons action rest ih =>
    have hfails : InStep spoilt w w (w.act action) (w.actCalmly action) :=
      InStep.of_failure fun made hmade => spoils made
        (List.mem_append_left _ (Option.mem_toList.mpr hmade))
    have hcalm : InStep spoilt w v (w.actCalmly action) (v.actCalmly action) :=
      InStep.actCalmly h (kin_of_temper same) action
    have hstep : InStep spoilt w v (w.act action) (v.actCalmly action) :=
      ⟨hfails.like.trans hcalm.like, hfails.left, hcalm.right⟩
    have hsame : (w.act action).temper = (v.actCalmly action).temper :=
      hstep.left.trans (same.trans hstep.right.symm)
    obtain ⟨hrun, htold⟩ := ih hstep.like hsame fun made hmade =>
      spoils made (List.mem_append_right _ hmade)
    refine ⟨hstep.andThen fun _ => hrun, ?_⟩
    rw [runCalmly_cons, htold, told_actCalmly, ← h.due action, handOuts, List.flatMap_append,
      List.append_assoc]

/-- The same run happens calmly in two watches. -/
theorem InStep.runCalmly (h : Resembles spoilt w v) (kin : Kin w v) (actions : List Action) :
    InStep spoilt w v (w.runCalmly actions) (v.runCalmly actions) := by
  induction actions generalizing w v with
  | nil => exact refl h
  | cons action rest ih =>
    have hfirst := actCalmly h kin action
    exact hfirst.andThen fun h => ih h (hfirst.kin kin)

/-- If all deliveries come off, a calm run is no other run. -/
theorem runCalmly_of_returned {actions : List Action}
    (returned : ∀ made ∈ w.handOuts actions, made.returned = true) :
    w.runCalmly actions = w.run actions := by
  induction actions generalizing w with
  | nil => rfl
  | cons action rest ih =>
    have hfirst : w.actCalmly action = w.act action := actCalmly_of_returned fun made hmade =>
      returned made (List.mem_append_left _ (Option.mem_toList.mpr hmade))
    rw [runCalmly_cons, run_cons, hfirst]
    exact ih fun made hmade => returned made (List.mem_append_right _ hmade)

/-! ## Who fails, and over what -/

/-- No run changes what listeners fail over and what they do in reply. -/
theorem temper_run (w : Watch) (actions : List Action) : (w.run actions).temper = w.temper := by
  have hlike : Resembles (fun _ => true) w w := rfl
  exact (inStep_runCalmly hlike rfl fun _ _ _ _ => rfl).1.left

/-- What a call fails over depends on the temper of the listeners only. -/
theorem failsOver_congr (same : v.temper = w.temper) (target : Target) (signal : Signal) :
    v.failsOver target signal = w.failsOver target signal := by
  cases target with
  | feed id => rfl
  | listener name =>
    cases signal with
    | round key => rfl
    | found found => simp only [failsOver, same]

/-- A call changes nobody's temper. -/
theorem temper_callTarget (w : Watch) (target : Target) (signal : Signal) :
    (w.callTarget target signal).watch.temper = w.temper := by
  have hlike : Resembles (fun _ => true) w w := rfl
  exact (InStep.callTarget hlike (kin_of_temper rfl) target signal).left

/-- If a delivery comes off, nobody failed over anything. -/
theorem not_fails_of_returned {target : Target} {signals : List Signal}
    (returned : (w.callAll target signals).returned = true) {signal : Signal}
    (hm : signal ∈ signals) : w.failsOver target signal = false := by
  induction signals generalizing w with
  | nil => cases hm
  | cons first rest ih =>
    unfold callAll at returned
    dsimp only at returned
    split at returned
    case isFalse hr => exact absurd returned hr
    case isTrue hr =>
      rcases List.mem_cons.mp hm with rfl | hm
      · refine Bool.eq_false_iff.mpr fun hfails => ?_
        obtain ⟨name, found, -, -, hcall⟩ := callTarget_of_fails hfails
        rw [hcall] at hr
        cases hr
      · have hrest := ih returned hm
        rwa [failsOver_congr (temper_callTarget w target first)] at hrest

/-- A delivery fails exactly if its listener fails over something that it is told. -/
theorem returned_handOut (w : Watch) (d : Delivery) :
    (w.handOut d).returned = false ↔
      ∃ target ∈ (w.handOut d).target, ∃ signal ∈ (w.handOut d).calls,
        w.failsOver target signal = true := by
  constructor
  · intro hr
    rcases deliver_cases w d with hoff | ⟨callback, name, found, cut⟩
    · have hreturned : (w.handOut d).returned = true := congrArg Call.returned hoff
      exact absurd (hr.symm.trans hreturned) Bool.false_ne_true
    · refine ⟨.listener name, cut.handOut_target, .found found, ?_, cut.fails⟩
      rw [cut.calls]
      exact List.mem_singleton_self _
  · rintro ⟨target, htarget, signal, hsignal, hfails⟩
    obtain ⟨callback, known, rfl⟩ := Option.map_eq_some_iff.mp htarget
    refine Bool.eq_false_iff.mpr fun hr => ?_
    have hall : ((w.tell d).callAll callback.target (callback.through d.signal)).returned =
        true := by
      have hdeliver : (w.deliver d).returned = true := hr
      rwa [deliver_eq, known] at hdeliver
    rw [calls_of_returned known hr] at hsignal
    have hholds := not_fails_of_returned hall hsignal
    exact Bool.false_ne_true (hholds.symm.trans hfails)

/-- The end of a round is told once if the delivery comes off, and not at all if it fails; nobody
who is told without a gate can fail over it. -/
theorem count_round {callback : CallbackId} {c : Callback}
    (known : w.callbacks[callback]? = some c) (key : DocumentKey) :
    let h := w.handOut (.round callback key)
    h.calls.count (.round key) = (if h.returned then 1 else 0) ∧
      (c.gate = none → h.returned = true) := by
  intro h
  let d : Delivery := .round callback key
  rcases deliver_cases w d with hoff | ⟨other, name, found, cut⟩
  · have hr : h.returned = true := congrArg Call.returned hoff
    have hcalls : h.calls = c.through d.signal := calls_of_returned known hr
    refine ⟨?_, fun _ => hr⟩
    rw [hr, hcalls]
    rcases c.through_cases d with hthrough | ⟨found, hthrough⟩
    · rw [hthrough]
      exact List.count_singleton_self
    · have hother : Signal.found found ≠ .round key := fun he => by cases he
      rw [hthrough, List.count_cons_of_ne hother]
      exact List.count_singleton_self
  · have hr : h.returned = false := cut.returned
    have hcalls : h.calls = [.found found] := cut.calls
    refine ⟨?_, fun hopen => ?_⟩
    · rw [hr, hcalls]
      exact List.count_eq_zero.mpr fun hm => by cases List.mem_singleton.mp hm
    · obtain rfl : c = other := Option.some.inj (known.symm.trans cut.known)
      have hthrough := cut.through
      rw [Callback.through, hopen] at hthrough
      cases hthrough

/-! ## Gates -/

/-- Whether a callback is behind a gate. -/
def isSparse (w : Watch) (callback : CallbackId) : Bool :=
  w.callbacks[callback]?.any fun c => c.gate.isSome

/-- Every delivery that was handed out in a run was so by one of its actions. -/
theorem handOut_of_mem {actions : List Action} {h : HandOut} (hm : h ∈ w.handOuts actions) :
    ∃ earlier action later, actions = earlier ++ action :: later ∧
      (w.run earlier).handOut? action = some h := by
  induction actions generalizing w with
  | nil => cases hm
  | cons action rest ih =>
    rcases List.mem_append.mp hm with hm | hm
    · exact ⟨[], action, rest, rfl, Option.mem_toList.mp hm⟩
    · obtain ⟨earlier, made, later, rfl, hmade⟩ := ih hm
      exact ⟨action :: earlier, made, later, rfl, hmade⟩

/-- In a run, a delivery fails exactly if its listener fails over something that it is told. -/
theorem returned_of_mem_handOuts {actions : List Action} {h : HandOut}
    (hm : h ∈ w.handOuts actions) :
    h.returned = false ↔
      ∃ target ∈ h.target, ∃ signal ∈ h.calls, w.failsOver target signal = true := by
  obtain ⟨earlier, action, later, -, hmade⟩ := handOut_of_mem hm
  have htemper : (w.run earlier).take.temper = w.temper := temper_run w earlier
  rw [(handOut_cases hmade).1, returned_handOut]
  simp only [failsOver_congr htemper]

/-- Once a callback was made, it stays behind a gate, or without one. -/
theorem gate_act {callback : CallbackId} {c : Callback}
    (known : w.callbacks[callback]? = some c) (action : Action) :
    ∃ later, (w.act action).callbacks[callback]? = some later ∧
      later.gate.isSome = c.gate.isSome := by
  obtain ⟨told, htold, hgate⟩ : ∃ told, (w.eased action).callbacks[callback]? = some told ∧
      told.gate.isSome = c.gate.isSome := by
    unfold eased
    split
    · exact ⟨c, known, rfl⟩
    case h_2 made _ =>
      by_cases hsame : made.delivery.callback = callback
      · refine ⟨c.tell made.delivery.signal, ?_, Option.isSome_map⟩
        simp only [tell, take, List.getElem?_modify, hsame, if_true, known]
        rfl
      · refine ⟨c, ?_, rfl⟩
        simp only [tell, take, List.getElem?_modify, hsame, if_false, known]
        rfl
  refine ⟨told, ?_, hgate⟩
  cases deed_act w action with
  | tells tells => rw [tells.callbacks, htold]
  | closes key closes => rw [closes.callbacks, htold]
  | joins enrolment joins =>
    rw [joins.callbacks]
    rcases choice_cases (w.eased action) enrolment with ⟨-, hc⟩ | ⟨hc, -⟩
    · rw [hc, List.getElem?_append_left (List.getElem?_eq_some_iff.mp htold).1, htold]
    · rw [hc, htold]

/-- A callback has a gate after a run exactly if it had one before. -/
theorem gate_run {callback : CallbackId} {c : Callback}
    (known : w.callbacks[callback]? = some c) (actions : List Action) :
    ∃ later, (w.run actions).callbacks[callback]? = some later ∧
      later.gate.isSome = c.gate.isSome := by
  induction actions generalizing w c with
  | nil => exact ⟨c, known, rfl⟩
  | cons action rest ih =>
    obtain ⟨next, hnext, hgate⟩ := gate_act known action
    obtain ⟨later, hlater, hsame⟩ := ih hnext
    exact ⟨later, hlater, hsame.trans hgate⟩

/-! ## Runs -/

/-- What the listener of a name has been told. -/
def toldTo (w : Watch) (name : String) : List (String × Signal) :=
  w.told.filter fun call => call.1 = name

/-- Nobody is spared anything but those who are spoilt. -/
theorem Resembles.toldTo (h : Resembles spoilt w v) {name : String} (spared : spoilt name = false) :
    w.toldTo name = v.toldTo name := by
  refine h.same (·.toldTo name) fun u => ?_
  simp only [Watch.toldTo, told, firm, Array.toList_filter, List.filterMap_filter,
    List.filter_filterMap]
  refine congrArg (List.filterMap · u.journal.toList) (funext fun event => ?_)
  cases event with
  | round listener key =>
    by_cases hname : listener = name
    · simp [Event.isFirm, Event.told?, hname, spared]
    · have hother : (some (listener, Signal.round key)).filter (fun call => call.1 = name) =
          none := by simp [Option.filter, hname]
      simp only [Event.told?]
      split
      · rfl
      · exact hother.symm
  | _ => rfl

/-- A delivery is handed out to a callback that was made. -/
theorem known_of_handOut (settings : Settings) (listeners : List Listener)
    {earlier : List Action} {action : Action} {h : HandOut}
    (made : ((initial settings listeners).run earlier).handOut? action = some h) :
    ∃ c, ((initial settings listeners).run earlier).callbacks[h.delivery.callback]? = some c := by
  let start := initial settings listeners
  have hfamiliar : Familiar (start.run earlier) (start.arrivals earlier) :=
    (familiar_initial settings listeners).run earlier
  have hfifo : (start.handOuts earlier).map HandOut.delivery ++ (start.run earlier).pending =
      (start.arrivals earlier).map Arrival.delivery := pending_run start earlier
  have harrived : h.delivery ∈ (start.arrivals earlier).map Arrival.delivery := by
    rw [← hfifo, (handOut_cases made).2.1]
    exact List.mem_append_right _ List.mem_cons_self
  obtain ⟨a, ha, hsame⟩ := List.mem_map.mp harrived
  exact ⟨_, List.getElem?_eq_getElem (hsame ▸ hfamiliar.told a ha)⟩

/-- If those who fail over some edition do nothing about others, a calm run is a run in which
nobody fails. -/
theorem firm_runCalmly (settings : Settings) {listeners : List Listener}
    (quiet : ∀ l ∈ listeners, l.failsAt = [] ∨ l.reaction = none) (actions : List Action) :
    ((initial settings listeners).runCalmly actions).firm (fun _ => false) =
      ((initial settings (listeners.map Listener.steady)).run actions).firm fun _ => false := by
  let start := initial settings listeners
  let calm := initial settings (listeners.map Listener.steady)
  have hlistener (name : String) :
      calm.listener? name = (start.listener? name).map Listener.steady := by
    simp only [calm, start, initial, listener?, List.find?_map]
    rfl
  have hlike : Resembles (fun _ => false) start calm := by
    simp only [Resembles, firm, calm, start, initial, List.map_map]
    rfl
  -- Who fails in the first watch does not fail in the second, and so would do something about the
  -- edition there if it did anything at all.
  have hkin : Kin start calm := by
    intro name
    unfold temper
    rw [hlistener]
    cases hl : start.listener? name with
    | none => exact .inl rfl
    | some l =>
      rcases quiet l (List.mem_of_find?_eq_some hl) with hnever | hidle
      · exact .inl (congrArg (·, l.reaction) hnever)
      · exact .inr hidle
  have hholds (target : Target) (signal : Signal) : calm.failsOver target signal = false := by
    cases target with
    | feed id => rfl
    | listener name =>
      cases signal with
      | round key => rfl
      | found found =>
        simp only [failsOver, temper, hlistener]
        cases start.listener? name <;> rfl
  have hreturned : ∀ h ∈ calm.handOuts actions, h.returned = true := fun h hm => by
    refine Bool.of_not_eq_false fun hr => ?_
    obtain ⟨target, -, signal, -, hfails⟩ := (returned_of_mem_handOuts hm).mp hr
    exact Bool.false_ne_true ((hholds target signal).symm.trans hfails)
  have hcalm := (InStep.runCalmly hlike hkin actions).like
  rwa [runCalmly_of_returned hreturned] at hcalm

/-- In every run, a failure costs no more than the end of a round that was to be told after the
edition at which it happened. Without failures everything would be the same but for the ends of
rounds that were kept from listeners, and whoever was robbed of none would be told the same. All
deliveries are made in the order in which they arrive, and a delivery fails exactly if its
listener fails over what it is told. The end of a round is told once if its delivery comes off,
as it always does without a gate, and not at all if its delivery fails. -/
theorem failures_cost_ends_of_rounds (settings : Settings) (listeners : List Listener)
    (actions : List Action) :
    let start := initial settings listeners
    let w := start.run actions
    let calm := start.runCalmly actions
    let made := start.handOuts actions
    let robbed (name : String) : Bool := made.any (·.robs name)
    w.firm robbed = calm.firm robbed ∧
    (∀ name, robbed name = false → w.toldTo name = calm.toldTo name) ∧
    w.told = made.flatMap HandOut.told ∧
    calm.told = made.flatMap HandOut.due ∧
    made.map HandOut.delivery ++ w.pending =
      (start.arrivals actions).map Arrival.delivery ∧
    (∀ h ∈ made,
      (h.returned = false ↔
        ∃ target ∈ h.target, ∃ signal ∈ h.calls, start.failsOver target signal = true) ∧
      ∀ callback key, h.delivery = .round callback key →
        h.calls.count (.round key) = (if h.returned then 1 else 0) ∧
        (w.isSparse callback = false → h.returned = true)) ∧
    ((∀ l ∈ listeners, l.failsAt = [] ∨ l.reaction = none) →
      calm.firm (fun _ => false) =
        ((initial settings (listeners.map Listener.steady)).run actions).firm fun _ => false) := by
  intro start w calm made robbed
  have hself : Resembles robbed start start := rfl
  obtain ⟨hstep, hdue⟩ := inStep_runCalmly hself rfl fun h hm name hrobs =>
    List.any_eq_true.mpr ⟨h, hm, hrobs⟩
  refine ⟨hstep.like, fun name spared => hstep.like.toldTo spared, told_run start actions, hdue,
    pending_run start actions, fun h hm => ?_, fun hquiet => ?_⟩
  · refine ⟨returned_of_mem_handOuts hm, fun callback key hround => ?_⟩
    obtain ⟨earlier, action, later, hsplit, hmade⟩ := handOut_of_mem hm
    obtain ⟨c, known⟩ := known_of_handOut settings listeners hmade
    have hmaking : h = (start.run earlier).take.handOut h.delivery := (handOut_cases hmade).1
    rw [hround] at known hmaking
    have htaken : (start.run earlier).take.callbacks[callback]? = some c := known
    obtain ⟨hcount, hopen⟩ := count_round htaken key
    rw [← hmaking] at hcount hopen
    refine ⟨hcount, fun hplain => hopen ?_⟩
    obtain ⟨last, hlast, hgate⟩ := gate_run known (action :: later)
    have hfinal : w.callbacks[callback]? = some last := by
      rw [← run_append, ← hsplit] at hlast
      exact hlast
    rw [isSparse, hfinal] at hplain
    exact Option.isNone_iff_eq_none.mp (Option.isSome_eq_false_iff.mp (hgate.symm.trans hplain))
  · exact firm_runCalmly settings hquiet actions

/-- Ann, who is told sparsely, and Ben, who is not, both fail over edition 5. Ben is told the same
as if nobody failed, and the end of the round reaches him. -/
theorem failures_cost_ends_of_rounds_of_two_listeners :
    let notes : DocumentKey := ⟨.uniform 7, "notes"⟩
    let settings : Settings := { Settings.standard with minFailures := 1, maxProbes := 1 }
    let listeners : List Listener := [⟨"ann", [5], none, none⟩, ⟨"ben", [5], none, none⟩]
    let start := initial settings listeners
    let actions : List Action :=
      [.subscribe notes "ann" { requested := 2, sparse := true },
        .subscribe notes "ben" { requested := 2, background := true }, .noteSlot ⟨notes, 5⟩] ++
      (List.replicate 8 (.work (.poller 0)) ++ List.replicate 5 (.work .delivery))
    let calm := start.runCalmly actions
    (start.run actions).toldTo "ben" = calm.toldTo "ben" ∧
    (∀ h ∈ start.handOuts actions, h.delivery = .round 1 notes →
      h.returned = true ∧ h.calls.count (.round notes) = 1) ∧
    calm.firm (fun _ => false) =
      ((initial settings (listeners.map Listener.steady)).run actions).firm fun _ => false := by
  intro notes settings listeners start actions calm
  obtain ⟨-, hothers, -, -, -, hmade, hcalm⟩ :=
    failures_cost_ends_of_rounds settings listeners actions
  refine ⟨hothers "ben" (by decide), fun h hm hround => ?_, hcalm (by decide)⟩
  obtain ⟨hcount, hopen⟩ := (hmade h hm).2 1 notes hround
  have hr : h.returned = true := hopen (by decide)
  rw [hr] at hcount
  exact ⟨hr, hcount⟩

/-- Ann is told of edition 5 when the round ends, and fails over it. The end of the round arrived
for her and nothing waits any more, but she was not told of it; she would have been told of it if
she had not failed. -/
theorem end_of_round_lost_of_failure :
    let notes : DocumentKey := ⟨.uniform 7, "notes"⟩
    let settings : Settings := { Settings.standard with minFailures := 1, maxProbes := 1 }
    let listeners : List Listener := [⟨"ann", [5], none, none⟩, ⟨"ben", [5], none, none⟩]
    let start := initial settings listeners
    let actions : List Action :=
      [.subscribe notes "ann" { requested := 2, sparse := true },
        .subscribe notes "ben" { requested := 2, background := true }, .noteSlot ⟨notes, 5⟩] ++
      (List.replicate 8 (.work (.poller 0)) ++ List.replicate 5 (.work .delivery))
    let w := start.run actions
    (w.callbacks[0]?.map Callback.target = some (.listener "ann") ∧
      ⟨.round 0 notes, some 5⟩ ∈ start.arrivals actions ∧ w.pending = []) ∧
    ("ann", .round notes) ∉ w.told ∧
    ("ann", .round notes) ∈
      ((initial settings (listeners.map Listener.steady)).run actions).told := by
  decide

end Watch

end EditionWatch
