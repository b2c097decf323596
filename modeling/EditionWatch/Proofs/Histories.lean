import EditionWatch.Proofs.Strides
import EditionWatch.Proofs.Succession

/-!
# Pollers through a run

What holds of every watch that arises in a run is gathered here: it is sound, what it knows of a
document never falls back, and what becomes of a poller in whatever happens next is known. Pollers
are made by calls, one at a time, and a new one was not told anything and waits for as long as the
settings say. A poller that was cancelled stays so.
-/

namespace EditionWatch

/-- A poller as it is made: it was told nothing, and stands before its first round or is over. -/
def Poller.IsMade (settings : Settings) (p : Poller) : Prop :=
  ∃ key origin mode stage, p = { Poller.create settings key origin mode with stage := stage } ∧
    ((∃ evicted, stage = .submitted evicted) ∨ stage = .ended)

namespace Watch

variable {settings : Settings} {u v w : Watch} {id : PollerId} {p q : Poller} {action : Action}

/-! ## How pollers are made -/

/-- One watch comes to be another with at most one more poller. -/
def Makes (w v : Watch) : Prop :=
  v.pollers.length = w.pollers.length ∨
    ∃ p, p.IsMade w.settings ∧ v.pollers = w.pollers ++ [p]

/-- To submit a poller makes this one and no other. -/
theorem makes_submitPoller (w : Watch) (key : DocumentKey) (origin : Edition) (mode : Poller.Mode)
    (evicted : List PollerId) :
    Makes w (w.submitPoller (.create w.settings key origin mode) evicted) := by
  unfold submitPoller
  dsimp only
  split
  · exact .inr ⟨_, ⟨key, origin, mode, _, rfl, .inl ⟨evicted, rfl⟩⟩, rfl⟩
  · exact .inr ⟨_, ⟨key, origin, mode, _, rfl, .inr rfl⟩, rfl⟩

/-- What comes before or after does not matter if it keeps the pollers. -/
theorem Makes.between (h : Makes v u) (settings : v.settings = w.settings)
    (before : v.pollers = w.pollers) {x : Watch} (after : x.pollers = u.pollers) : Makes w x := by
  rcases h with hlength | ⟨p, hmade, hp⟩
  · left
    rw [after, hlength, before]
  · right
    exact ⟨p, settings ▸ hmade, by rw [after, hp, before]⟩

/-- To cover a document makes one poller at most. -/
theorem makes_cover (w : Watch) (key : DocumentKey) (callback : CallbackId) (requested : Edition) :
    Makes w (w.cover key callback requested) := by
  let covered : Watch := { w with records := w.records.cover key callback }
  unfold cover
  dsimp only
  cases w.records.coverage key with
  | joined => exact .inl (congrArg List.length (pollers_flush covered))
  | promoted poller =>
    left
    rw [pollers_flush]
    exact List.length_modify _ _ _
  | started poller =>
    have hmade := makes_submitPoller covered.flush key requested .forever []
    rw [settings_flush] at hmade
    exact hmade.between (settings_flush covered) (pollers_flush covered) rfl

/-- A subscription makes one poller at most. -/
theorem makes_subscribeTarget (w : Watch) (key : DocumentKey) (target : Target)
    (options : SubscribeOptions) : Makes w (w.subscribeTarget key target options).watch := by
  have hchoice : (w.callbackFor target options.sparse).watch.settings = w.settings ∧
      (w.callbackFor target options.sparse).watch.pollers = w.pollers := by
    unfold callbackFor
    split
    · exact ⟨rfl, rfl⟩
    · split <;> exact ⟨rfl, rfl⟩
  let choice := w.callbackFor target options.sparse
  let registered : Watch := { choice.watch with
    records := choice.watch.records.register key choice.callback options.requested }
  change Makes w (if options.polls then registered.cover key choice.callback options.requested
    else registered.flush)
  split
  · exact (makes_cover registered key choice.callback options.requested).between hchoice.1
      hchoice.2 rfl
  · left
    rw [pollers_flush]
    exact congrArg List.length hchoice.2

/-- A lookup makes one poller at most. -/
theorem makes_resolve (w : Watch) (uri : EditionUri) (prefetch : Bool) :
    Makes w (w.resolve uri prefetch).watch := by
  unfold resolve
  dsimp only
  cases w.records.lookup uri.key with
  | hinted poller => exact .inl (List.length_modify _ _ _)
  | started poller evicted =>
    exact makes_submitPoller { w with records := w.records.resolve w.now uri.key prefetch } uri.key
      uri.edition .once evicted.toList

/-- An action makes one poller at most. -/
theorem makes_act (w : Watch) (action : Action) : Makes w (w.act action) := by
  rcases founds_act w action with habides | ⟨departure, hdeparture, -⟩
  · left
    have hlength := congrArg List.length habides.departures
    rw [List.append_nil] at hlength
    rw [departures, departures, List.length_map, List.length_map] at hlength
    exact hlength
  · unfold act
    split
    case isTrue => exact .inl rfl
    case isFalse =>
      cases action with
      | subscribe key name options =>
        have hlistener : (w.addListener name).settings = w.settings ∧
            (w.addListener name).pollers = w.pollers := by
          unfold addListener
          split <;> exact ⟨rfl, rfl⟩
        simp only [perform, subscribe]
        cases options.persistent with
        | true => exact .inl rfl
        | false =>
          exact (makes_subscribeTarget _ key _ _).between hlistener.1 hlistener.2 rfl
      | subscribeContent key name quiet options =>
        let opened : Watch := { w with feeds := w.feeds ++ [ContentFeed.fresh name quiet] }
        have hmakes (content : SubscribeOptions) :
            Makes w (opened.subscribeTarget key (.feed w.feeds.length) content).watch :=
          (makes_subscribeTarget opened key _ content).between rfl rfl rfl
        simp only [perform, subscribeContent]
        cases options.persistent with
        | true => exact .inl rfl
        | false => exact hmakes _
      | resolve uri prefetch name =>
        exact (makes_resolve w uri prefetch).between (x := w.perform (.resolve uri prefetch name))
          rfl rfl rfl
      | _ => cases hdeparture

/-! ## What becomes of a poller -/

/-- What becomes of a poller in what happens. -/
inductive Becomes (w : Watch) (id : PollerId) (p : Poller) : Action → Poller → Prop where
  /-- It is told something, or nothing. -/
  | told (action : Action) (idle : action ≠ .work (.poller id)) (q : Poller) (told : p.IsTold q) :
      Becomes w id p action q
  /-- In a turn of its own, it takes a stride. -/
  | turns (q : Poller) (strides : w.Strides id p (w.act (.work (.poller id))) q) :
      Becomes w id p (.work (.poller id)) q
  /-- It rests, notices that its time to wake has come and begins a round. -/
  | wakes (due : Option Instant) (rests : p.stage = .resting due) :
      Becomes w id p (.wake id) p.beginRound
  /-- Its fetch breaks down. -/
  | crashes : Becomes w id p (.crash (.poller id)) p.finish

/-- Whatever happens, it is one of these things that becomes of a poller. -/
theorem becomes_act (numbered : w.Numbered) (found : w.pollers[id]? = some p)
    (poised : p.Poised) (action : Action) :
    ∃ q, (w.act action).pollers[id]? = some q ∧ w.Becomes id p action q := by
  by_cases hidle : action.actor? = some id
  · rcases own_of_actor? hidle with rfl | rfl | rfl
    · obtain ⟨q, hq, hstrides⟩ := strides_turn found poised
      exact ⟨q, hq, .turns q hstrides⟩
    · change ∃ q, (w.wake id).pollers[id]? = some q ∧ _
      rcases w.wake_cases id with hsame | ⟨r, due, hr, hstage, -, -, hbegins⟩
      · rw [hsame]
        exact ⟨p, found, .told _ Action.noConfusion p (.refl p)⟩
      · rw [hbegins]
        obtain rfl : r = p := Option.some.inj (hr.symm.trans found)
        exact ⟨_, getElem?_modify_self found _, .wakes due hstage⟩
    · change ∃ q, (w.crash (.poller id)).pollers[id]? = some q ∧ _
      unfold crash
      dsimp only
      split
      · exact ⟨_, getElem?_modify_self found _, .crashes⟩
      · exact ⟨p, found, .told _ Action.noConfusion p (.refl p)⟩
  · obtain ⟨q, hq, htold⟩ := told_act numbered hidle found
    exact ⟨q, hq, .told _ (fun he => hidle (by rw [he]; rfl)) q htold⟩

/-- A poller that was not there before what happened was made in it. -/
theorem made_act (absent : w.pollers[id]? = none)
    (made : (w.act action).pollers[id]? = some q) : q.IsMade w.settings := by
  have hlength : w.pollers.length ≤ id := List.getElem?_eq_none_iff.mp absent
  have hmade : id < (w.act action).pollers.length := (List.getElem?_eq_some_iff.mp made).1
  rcases makes_act w action with hsame | ⟨p, hp, hgrown⟩
  · rw [hsame] at hmade
    exact absurd hmade (Nat.not_lt.mpr hlength)
  · rw [hgrown] at made
    rcases Roster.getElem?_concat_cases made with hold | ⟨-, rfl⟩
    · rw [absent] at hold
      cases hold
    · exact hp

/-! ## Watches that arise -/

/-- What a new watch has and every action keeps, every watch has that arises. -/
theorem Arises.keep {P : Watch → Prop} (new : ∀ listeners, P (initial settings listeners))
    (kept : ∀ w action, P w → P (w.act action)) (arises : w.Arises settings) : P w := by
  obtain ⟨listeners, actions, rfl⟩ := arises
  have hall (u : Watch) (hu : P u) : P (u.run actions) := by
    induction actions generalizing u with
    | nil => exact hu
    | cons action rest ih => exact ih _ (kept u action hu)
  exact hall _ (new listeners)

/-- What every watch has that arises in some run. -/
structure Regular (settings : Settings) (w : Watch) : Prop where
  settings : w.settings = settings
  numbered : w.Numbered
  sound : w.roster.Sound
  attuned : w.records.Attuned
  orderly : ∀ id, w.OrderlyAt id
  poised : ∀ (id : PollerId) (p : Poller), w.pollers[id]? = some p → p.Poised

/-- The first watch of a run is regular. -/
theorem regular_initial (settings : Settings) (listeners : List Listener) :
    (initial settings listeners).Regular settings where
  settings := rfl
  numbered := numbered_run settings listeners []
  sound := sound_run settings listeners []
  attuned := Records.attuned_initial _
  orderly _ _ found := by cases found
  poised _ _ found := by cases found

/-- If a poller waits after it took a stride, its round has a fetch to wait for. -/
theorem Strides.poised (strides : w.Strides id p v q) (poised : p.Poised) : q.Poised := by
  cases strides with
  | waits => exact poised
  | asks round request flight stage asks =>
    intro other flight' he
    cases he
    exact asks ▸ rfl
  | _ => exact fun _ _ he => by cases he

/-- Whatever becomes of a poller, it is poised for its turn. -/
theorem Becomes.poised (becomes : w.Becomes id p action q) (poised : p.Poised) : q.Poised := by
  cases becomes with
  | told action idle q told =>
    intro round flight he
    rw [told.stage] at he
    rw [told.key]
    exact poised round flight he
  | turns q strides => exact strides.poised poised
  | wakes due rests => exact fun _ _ he => by cases he
  | crashes => exact fun _ _ he => by cases he

/-- Whatever becomes of a poller, it keeps its document. -/
theorem Becomes.key (becomes : w.Becomes id p action q) : q.key = p.key := by
  cases becomes with
  | told action idle q told => exact told.key
  | turns q strides => exact strides.key
  | _ => rfl

/-- A poller that was just made is poised for its turn. -/
theorem poised_of_isMade (made : q.IsMade settings) : q.Poised := by
  obtain ⟨key, origin, mode, stage, rfl, ⟨evicted, rfl⟩ | rfl⟩ := made
  · exact fun _ _ he => by cases he
  · exact fun _ _ he => by cases he

/-- A regular watch is regular after any action. -/
theorem regular_act (regular : w.Regular settings) (action : Action) :
    (w.act action).Regular settings where
  settings := (settings_act w action).trans regular.settings
  numbered := numbered_act regular.numbered action
  sound := sound_act regular.sound action
  attuned := by
    obtain ⟨-, -, changes, -, hrecords⟩ := records_act regular.numbered action
    exact hrecords ▸ Records.attuned_run regular.attuned changes
  orderly id := (regular.orderly id).act regular.numbered action
  poised id q hq := by
    cases hfound : w.pollers[id]? with
    | none => exact poised_of_isMade (made_act hfound hq)
    | some p =>
      have hp := regular.poised id p hfound
      obtain ⟨r, hr, hbecomes⟩ := becomes_act regular.numbered hfound hp action
      exact Option.some.inj (hr.symm.trans hq) ▸ hbecomes.poised hp

/-- Whatever arises in a run is regular. -/
theorem Arises.regular (arises : w.Arises settings) : w.Regular settings :=
  arises.keep (regular_initial settings) fun _ action hw => regular_act hw action

/-- What becomes of a poller in an action is one of few things. -/
theorem Regular.becomes (regular : w.Regular settings) (found : w.pollers[id]? = some p)
    (action : Action) : ∃ q, (w.act action).pollers[id]? = some q ∧ w.Becomes id p action q :=
  becomes_act regular.numbered found (regular.poised id p found) action

/-! ## Cancelled pollers stay so -/

end Watch

namespace Roster

variable {smooth : Bool} {s t : Roster} {changes : List Records.Change} {id : PollerId}

/-- A poller that is there is cancelled. -/
def Cancels (s : Roster) (id : PollerId) : Prop :=
  ∃ p, s.pollers[id]? = some p ∧ p.cancelled = true

namespace Cancels

/-- A poller stays cancelled if none is changed so as not to be. -/
theorem of_set (h : s.Cancels id) {other : PollerId} {p next : Poller}
    (found : s.pollers[other]? = some p) (pollers : t.pollers = s.pollers.set other next)
    (kept : p.cancelled = true → next.cancelled = true) : t.Cancels id := by
  obtain ⟨q, hq, hcancelled⟩ := h
  by_cases ho : other = id
  · subst ho
    obtain rfl : p = q := Option.some.inj (found.symm.trans hq)
    refine ⟨next, ?_, kept hcancelled⟩
    rw [pollers, List.getElem?_set_self (List.getElem?_eq_some_iff.mp found).1]
  · refine ⟨q, ?_, hcancelled⟩
    rw [pollers, List.getElem?_set_ne ho]
    exact hq

/-- A poller stays cancelled when others are cancelled, too. -/
theorem of_cancelAll (h : s.Cancels id) {ids : List PollerId}
    (pollers : t.pollers = cancelAll ids s.pollers) : t.Cancels id := by
  obtain ⟨q, hq, hcancelled⟩ := h
  refine ⟨if id ∈ ids then q.cancel else q, ?_, ?_⟩
  · rw [pollers, getElem?_cancelAll, hq]
    rfl
  · split
    · rfl
    · exact hcancelled

/-- A poller stays cancelled when another one is made. -/
theorem of_add (h : s.Cancels id) {p : Poller} (pollers : t.pollers = s.pollers ++ [p]) :
    t.Cancels id := by
  obtain ⟨q, hq, hcancelled⟩ := h
  refine ⟨q, ?_, hcancelled⟩
  rw [pollers, List.getElem?_append_left (List.getElem?_eq_some_iff.mp hq).1]
  exact hq

/-- A poller stays cancelled in every step. -/
theorem step (h : s.Cancels id) (step : Step smooth s changes t) : t.Cancels id := by
  cases step with
  | record => exact h
  | turn other p next found before after key cancelled =>
    exact h.of_set found rfl fun hp => cancelled.trans hp
  | send other command =>
    obtain ⟨q, hq, hcancelled⟩ := h
    refine ⟨if other = id then q.send command else q, ?_, ?_⟩
    · rw [List.getElem?_modify, hq]
      rfl
    · split <;> exact hcancelled
  | begins other p evicted found stage =>
    have hset : (s.overwrite other { p with stage := .resting none }).Cancels id :=
      h.of_set found rfl fun hp => hp
    exact hset.of_cancelAll rfl
  | ends other p found => exact h.of_set found rfl fun hp => hp
  | quits other p cancelled found => exact h.of_set found rfl fun _ => rfl
  | collapses other p found => exact h.of_set found rfl fun hp => hp
  | refuses => exact h
  | stops => exact h
  | shutsDown => exact h.of_cancelAll rfl
  | joins => exact h
  | starts => exact h.of_add rfl
  | leaves => exact h.of_cancelAll rfl
  | hints => exact h
  | looksUp => exact h.of_add rfl

/-- A poller stays cancelled in all steps. -/
theorem steps (h : s.Cancels id) (steps : Steps smooth s changes t) : t.Cancels id := by
  induction steps with
  | refl => exact h
  | tail _ step ih => exact ih.step step

end Cancels

end Roster

namespace Watch

variable {settings : Settings} {u v w : Watch} {id : PollerId} {p q : Poller} {action : Action}

/-- A poller finds itself cancelled if it was, or if everything was stopped. -/
theorem isCancelled_iff (found : w.pollers[id]? = some p) :
    w.isCancelled p = true ↔ w.roster.Cancels id ∨ w.stopped = true := by
  rw [isCancelled, Bool.or_eq_true]
  refine or_congr_left ⟨fun hp => ⟨p, found, hp⟩, fun hcancels => ?_⟩
  obtain ⟨q, hq, hcancelled⟩ := hcancels
  rw [Option.some.inj (found.symm.trans hq)]
  exact hcancelled

/-- A poller that is cancelled stays so, whatever happens. -/
theorem isCancelled_act (regular : w.Regular settings) (found : w.pollers[id]? = some p)
    (becomes : (w.act action).pollers[id]? = some q) (cancelled : w.isCancelled p = true) :
    (w.act action).isCancelled q = true := by
  obtain ⟨changes, hsteps, -⟩ := leads_act_anyhow w action
  rw [isCancelled_iff becomes]
  rcases (isCancelled_iff found).mp cancelled with hcancels | hstopped
  · exact .inl (hcancels.steps hsteps)
  · exact .inr (stopped_act regular.numbered action hstopped)

/-- A poller that is not cancelled after what happened was not before. -/
theorem live_of_act (regular : w.Regular settings) (found : w.pollers[id]? = some p)
    (becomes : (w.act action).pollers[id]? = some q) (live : (w.act action).isCancelled q = false) :
    w.isCancelled p = false := by
  refine Bool.eq_false_iff.mpr fun hcancelled => ?_
  rw [isCancelled_act regular found becomes hcancelled] at live
  cases live

/-- A poller is there whatever happens, and stays with its document. -/
theorem key_run (regular : w.Regular settings) (found : w.pollers[id]? = some p)
    (actions : List Action) :
    ∃ q, (w.run actions).pollers[id]? = some q ∧ q.key = p.key := by
  induction actions generalizing w p with
  | nil => exact ⟨p, found, rfl⟩
  | cons action rest ih =>
    obtain ⟨r, hr, hbecomes⟩ := regular.becomes found action
    obtain ⟨q, hq, hkey⟩ := ih (regular_act regular action) hr
    exact ⟨q, hq, hkey.trans hbecomes.key⟩

/-- A poller that is not cancelled in the end never was. -/
theorem live_of_run (regular : w.Regular settings) (found : w.pollers[id]? = some p)
    {actions : List Action} (ends : (w.run actions).pollers[id]? = some q)
    (live : (w.run actions).isCancelled q = false) : w.isCancelled p = false := by
  induction actions generalizing w p with
  | nil =>
    obtain rfl : p = q := Option.some.inj (found.symm.trans ends)
    exact live
  | cons action rest ih =>
    obtain ⟨r, hr, -⟩ := regular.becomes found action
    exact live_of_act regular found hr (ih (regular_act regular action) hr ends live)

/-- What is known of a document never falls back. -/
theorem slot_le_act (regular : w.Regular settings) (action : Action) (key : DocumentKey) :
    (w.records.frontier key).slot ≤ ((w.act action).records.frontier key).slot := by
  obtain ⟨-, -, changes, -, hrecords⟩ := records_act regular.numbered action
  have hrun (changes : List Records.Change) (r : Records) (hr : r.Attuned) :
      (r.frontier key).slot ≤ ((r.run changes).frontier key).slot := by
    induction changes generalizing r with
    | nil => exact slot_le_refl _
    | cons change rest ih =>
      exact slot_le_trans (Records.slot_le_apply hr change key)
        (ih _ (Records.attuned_apply hr change))
  rw [hrecords]
  exact hrun changes _ regular.attuned

end Watch

end EditionWatch
