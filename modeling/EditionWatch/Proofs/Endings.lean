import EditionWatch.Proofs.Coverage
import EditionWatch.Proofs.Peaks

/-!
# No poller ends while it is in use

A poller has four ways to end: it was cancelled, everything was stopped, it finds the watch
gone, or nobody is left who could send it a command. None of them is open to a poller in the
records of a watch that is held, unless it was cancelled before. The invariant behind it: a
poller that was at work once is not over as long as it is stored. So whoever takes itself out
of the records and says that it was not cancelled is not there any more, and the counter of
violations stays at zero.
-/

namespace EditionWatch

namespace Records

/-- A violation is counted only for a poller that says it was not cancelled. -/
theorem violations_apply (r : Records) {change : Change}
    (h : ∀ key poller, change ≠ .removePoller key poller false) :
    (r.apply change).tally.invariantViolations = r.tally.invariantViolations := by
  obtain ⟨-, -, hviolations⟩ := r.tally_apply change
  exact hviolations h

end Records

namespace Roster

variable {s t : Roster} {smooth : Bool} {changes : List Records.Change} {id : PollerId}

/-- No step counts a violation: a poller that says it was not cancelled is not stored. -/
theorem violations_step (step : Step smooth s changes t) :
    t.records.tally.invariantViolations = s.records.tally.invariantViolations := by
  cases step with
  | record change spares =>
    refine s.records.violations_apply fun key poller he => ?_
    rw [he] at spares
    cases spares
  | quits id p cancelled found underway free honest =>
    change (s.records.apply _).tally.invariantViolations = _
    rcases honest with hc | hn
    · subst hc
      refine s.records.violations_apply fun key poller he => ?_
      injection he with _ _ hc
      cases hc
    · have hout : s.records.indexes p.key id = false := by
        rw [Records.indexes, Bool.or_eq_false_iff, decide_eq_false_iff_not,
          decide_eq_false_iff_not]
        exact not_or.mp (hn.1 p.key)
      rw [Records.removePoller_of_not_indexes hout]
  | stops => exact s.records.violations_apply fun _ _ he => by cases he
  | shutsDown => exact s.records.violations_apply fun _ _ he => by cases he
  | joins key callback requested present =>
    exact s.records.violations_apply fun _ _ he => by cases he
  | starts key callback requested p alive absent fresh =>
    exact s.records.violations_apply fun _ _ he => by cases he
  | leaves key callback => exact s.records.violations_apply fun _ _ he => by cases he
  | hints now key prefetch present => exact s.records.violations_apply fun _ _ he => by cases he
  | looksUp now key prefetch p alive absent fresh =>
    exact s.records.violations_apply fun _ _ he => by cases he
  | _ => rfl

/-- No step counts a violation. -/
theorem violations_steps (steps : Steps smooth s changes t) :
    t.records.tally.invariantViolations = s.records.tally.invariantViolations := by
  induction steps with
  | refl => rfl
  | tail _ step ih => exact (violations_step step).trans ih

/-- The poller is not over as long as it is stored. -/
def Faithful (s : Roster) (id : PollerId) : Prop :=
  ∃ p, s.pollers[id]? = some p ∧ (p.isOver = false ∨ ∀ key, ¬s.Stores key id)

namespace Faithful

/-- Steps that neither end a poller nor store one anew. -/
theorem of_same (h : Faithful s id)
    (pollers : ∀ p, s.pollers[id]? = some p →
      ∃ q, t.pollers[id]? = some q ∧ q.isOver = p.isOver)
    (stores : ∀ key, t.Stores key id → s.Stores key id) : Faithful t id := by
  obtain ⟨p, hp, hf⟩ := h
  obtain ⟨q, hq, ho⟩ := pollers p hp
  refine ⟨q, hq, ?_⟩
  rcases hf with hb | hn
  · exact .inl (ho.trans hb)
  · exact .inr fun key hst => hn key (stores key hst)

/-- Steps after which the poller is stored nowhere. -/
theorem of_not_stores (h : Faithful s id) (length : t.pollers.length = s.pollers.length)
    (stores : ∀ key, ¬t.Stores key id) : Faithful t id := by
  obtain ⟨p, hp, -⟩ := h
  have hlt : id < t.pollers.length := by
    rw [length]
    exact (List.getElem?_eq_some_iff.mp hp).1
  exact ⟨t.pollers[id], List.getElem?_eq_getElem hlt, .inr stores⟩

/-- Steps that overwrite one poller; if it is over then, it is stored nowhere. -/
theorem of_set (h : Faithful s id) {other : PollerId} {next : Poller}
    (pollers : t.pollers = s.pollers.set other next)
    (stores : ∀ key, t.Stores key id → s.Stores key id)
    (ended : next.isOver = true → ∀ key, ¬t.Stores key other) : Faithful t id := by
  by_cases ho : other = id
  · subst ho
    cases hn : next.isOver with
    | false =>
      obtain ⟨p, hp, -⟩ := h
      refine ⟨next, ?_, .inl hn⟩
      rw [pollers, List.getElem?_set_self (List.getElem?_eq_some_iff.mp hp).1]
    | true => exact h.of_not_stores (by rw [pollers, List.length_set]) (ended hn)
  · refine h.of_same (fun p hp => ⟨p, ?_, rfl⟩) stores
    rw [pollers, List.getElem?_set_ne ho]
    exact hp

/-- Steps that cancel pollers and store none anew. -/
theorem of_cancelAll (h : Faithful s id) {ids : List PollerId}
    (pollers : t.pollers = cancelAll ids s.pollers)
    (stores : ∀ key, t.Stores key id → s.Stores key id) : Faithful t id := by
  refine h.of_same (fun p hp => ⟨if id ∈ ids then p.cancel else p, ?_, ?_⟩) stores
  · rw [pollers, getElem?_cancelAll, hp]
    rfl
  · split <;> rfl

/-- Steps that make a poller; whoever was there keeps its number. -/
theorem of_grows (h : Faithful s id) {key : DocumentKey} {p : Poller} (hg : Grows s t key p) :
    Faithful t id := by
  have hlt : id < s.pollers.length := by
    obtain ⟨q, hq, -⟩ := h
    exact (List.getElem?_eq_some_iff.mp hq).1
  refine h.of_same (fun r hr => ⟨r, ?_, rfl⟩) fun k hst => ?_
  · rw [hg.pollers, List.getElem?_append_left hlt]
    exact hr
  · rcases hg.stores k id hst with hst | ⟨-, he⟩
    · exact hst
    · exact absurd (he ▸ hlt) (Nat.lt_irrefl s.pollers.length)

/-- A step in which no poller at work breaks off keeps every poller faithful. -/
theorem step (h : Faithful s id) (hs : Sound s) (step : Step true s changes t) :
    Faithful t id := by
  cases step with
  | record change spares =>
    have hk := Records.keepsPollers_apply s.records change spares
    refine h.of_same (fun p hp => ⟨p, hp, rfl⟩) fun key hst => ?_
    rw [Stores, ← hk.pool, ← hk.cache]
    exact hst
  | turn other p next found before after key cancelled =>
    refine h.of_set rfl (fun _ hst => hst) fun hover => ?_
    rw [Poller.not_isOver_of_isUnderway after] at hover
    cases hover
  | send other command =>
    refine h.of_same (fun p hp => ⟨if other = id then p.send command else p, ?_, ?_⟩)
      fun _ hst => hst
    · change (s.pollers.modify other _)[id]? = _
      rw [List.getElem?_modify, hp]
      rfl
    · split <;> rfl
  | begins other p evicted found stage =>
    have hset : Faithful (s.overwrite other { p with stage := .resting none }) id :=
      h.of_set rfl (fun _ hst => hst) fun hover => by cases hover
    exact hset.of_cancelAll rfl fun _ hst => hst
  | ends other p found underway unstored =>
    exact h.of_set rfl (fun _ hst => hst) fun _ => hs.not_stores_of_unstored found unstored
  | quits other p cancelled found underway free =>
    have hst := hs.stores_quits cancelled found
    exact h.of_set rfl (fun key hi => ((hst key id).mp hi).1)
      fun _ key hi => ((hst key other).mp hi).2 rfl
  | collapses other p found underway cause =>
    rcases cause with hf | hgone
    · cases hf
    · exact h.of_set rfl (fun _ hst => hst) fun _ => hs.not_stores_of_unstored found (.inl hgone)
  | refuses accepts cause => exact h
  | stops => exact h.of_not_stores rfl fun key hst => by rcases hst with hst | hst <;> cases hst
  | shutsDown =>
    exact h.of_not_stores (length_cancelAll _ _)
      fun key hst => by rcases hst with hst | hst <;> cases hst
  | joins key callback requested present =>
    have hback := (hs.settles_joins key callback requested present).stores
    exact h.of_same (fun p hp => ⟨p, hp, rfl⟩) fun k => hback k id
  | starts key callback requested p alive absent fresh =>
    exact h.of_grows (hs.grows_starts callback requested alive absent fresh)
  | leaves key callback =>
    exact h.of_cancelAll rfl fun k => (hs.settles_leaves key callback).stores k id
  | hints now key prefetch present =>
    have hback := (hs.settles_hints now key prefetch present).stores
    exact h.of_same (fun p hp => ⟨p, hp, rfl⟩) fun k => hback k id
  | looksUp now key prefetch p alive absent fresh =>
    exact h.of_grows (hs.grows_looksUp now prefetch alive absent fresh)

/-- A poller that was faithful is so after any steps that go smoothly. -/
theorem steps (h : Faithful s id) (hs : Sound s) (steps : Steps true s changes t) :
    Faithful t id := by
  induction steps with
  | refl => exact h
  | tail hsteps hstep ih => exact ih.step (hs.steps hsteps) hstep

end Faithful

end Roster

namespace Watch

variable {w : Watch} {id : PollerId} {p : Poller}

/-! ## The last turn of a poller -/

/-- The watch is gone, or the poller has begun and is not over. -/
def GoesOn (w : Watch) (id : PollerId) : Prop :=
  w.isAlive = false ∨ ∃ p, w.pollers[id]? = some p ∧ p.isUnderway = true

/-- A poller that is changed goes on if it is under way then. -/
theorem goesOn_modifyPoller (found : w.pollers[id]? = some p) {change : Poller → Poller}
    (after : (change p).isUnderway = true) : (w.modifyPoller id change).GoesOn id :=
  .inr ⟨change p, getElem?_modify_self found change, after⟩

/-- A poller may abandon its work once nobody holds the watch. -/
theorem goesOn_abandon (gone : ¬w.isAlive = true) : (w.abandon id).watch.GoesOn id :=
  .inl (Bool.eq_false_iff.mpr gone)

/-- A poller goes on after it took a reply. -/
theorem goesOn_takeReply (found : w.pollers[id]? = some p) (key : DocumentKey) (round : Round)
    (reply : Reply) : (w.takeReply id key round reply).watch.GoesOn id := by
  let counted : Watch := { w with records := w.records.countVerdict reply.verdict }
  have hset (v : Watch) (round : Round) (hv : v.pollers[id]? = some p) :
      (v.setRound id round).watch.GoesOn id := goesOn_modifyPoller hv rfl
  have hnoted (e : Edition) : (counted.noteSlot ⟨key, e⟩).pollers[id]? = some p := by
    rw [pollers_noteSlot]
    exact found
  unfold takeReply
  cases round with
  | askingHint e hints =>
    dsimp only
    split
    · split
      case isTrue => exact hset _ _ (hnoted e)
      case isFalse ha => exact goesOn_abandon ha
    · exact hset _ _ found
  | asking raised e misses probes =>
    dsimp only
    split
    · split
      case isTrue => exact hset _ _ (hnoted e)
      case isFalse ha => exact goesOn_abandon ha
    · exact hset _ _ found
  | fetching slot =>
    dsimp only
    split
    · refine hset _ _ ?_
      rw [pollers_noteGood]
      exact found
    · exact hset _ _ found
  | _ => exact hset _ _ found

/-- A poller goes on after it sent a request. -/
theorem goesOn_sendRequest (found : w.pollers[id]? = some p) (key : DocumentKey) (round : Round)
    (request : Request) : (w.sendRequest id key round request).watch.GoesOn id := by
  have hfound : (w.issue request).watch.pollers[id]? = some p := by
    rw [pollers_issue]
    exact found
  unfold sendRequest
  dsimp only
  split
  · exact goesOn_takeReply hfound key round _
  · exact goesOn_modifyPoller hfound rfl

/-- A background poller goes on after a round if it can say how long it rests. -/
theorem goesOn_closeRound (found : w.pollers[id]? = some p) (raised : Bool)
    (short : p.mode = .forever → (Backoff.pause? w.settings p.backoff raised).isSome = true) :
    (w.closeRound id p raised).watch.GoesOn id := by
  let counted : Watch := { w with records := w.records.countRound }
  let closed : Watch := counted.modifyPoller id fun p => { p with rounds := p.rounds + 1 }
  let told : Watch := { closed with records := closed.records.finishRound p.key }
  have htold : told.flush.pollers[id]? = some { p with rounds := p.rounds + 1 } := by
    rw [pollers_flush]
    exact getElem?_modify_self found _
  unfold closeRound
  change (if closed.isAlive then _ else closed.abandon id).watch.GoesOn id
  split
  case isFalse ha => exact goesOn_abandon ha
  case isTrue =>
    cases hm : p.mode with
    | once => exact goesOn_modifyPoller htold rfl
    | forever =>
      obtain ⟨pause, hp⟩ := Option.isSome_iff_exists.mp (short hm)
      have hpause : Backoff.pause? told.flush.settings p.backoff raised = some pause := by
        rw [settings_flush]
        exact hp
      dsimp only
      split
      case h_1 hnone => cases hnone.symm.trans hpause
      case h_2 pause _ =>
        have hpaused := getElem?_modify_self htold fun p => { p with backoff := pause.next }
        exact goesOn_modifyPoller (w := told.flush.modifyPoller id _) hpaused rfl

/-- A poller goes on in every step of its round, unless it cannot say how long it rests. -/
theorem goesOn_stepRound (found : w.pollers[id]? = some p) (round : Round)
    (short : ∀ raised, round = .over raised → p.mode = .forever →
      (Backoff.pause? w.settings p.backoff raised).isSome = true) :
    (w.stepRound id p round).watch.GoesOn id := by
  have hset (round : Round) : (w.setRound id round).watch.GoesOn id :=
    goesOn_modifyPoller found rfl
  unfold stepRound
  cases round with
  | opening hints =>
    dsimp only
    split
    case isTrue => exact hset _
    case isFalse ha => exact goesOn_abandon ha
  | hinting hints =>
    cases hints with
    | nil => exact hset _
    | cons e hints =>
      dsimp only
      split
      case isTrue => exact hset _
      case isFalse ha => exact goesOn_abandon ha
  | aligning raised =>
    dsimp only
    split
    case isTrue => exact hset _
    case isFalse ha => exact goesOn_abandon ha
  | walking raised e misses probes => exact hset _
  | confirming => exact hset _
  | «over» raised => exact goesOn_closeRound found raised (short raised rfl)
  | askingHint e hints => exact goesOn_sendRequest found _ _ _
  | asking raised e misses probes => exact goesOn_sendRequest found _ _ _
  | fetching slot => exact goesOn_sendRequest found _ _ _

/-- A poller that ends stops nobody else. -/
@[simp] theorem stopped_endPoller (w : Watch) (id : PollerId) (key : DocumentKey)
    (cancelled : Bool) : (w.endPoller id key cancelled).watch.stopped = w.stopped := by
  unfold endPoller
  dsimp only
  split <;> rfl

/-- In a turn, a poller goes on, or it was cancelled, or nobody is left to send it commands. -/
theorem stepPoller_cases (found : w.pollers[id]? = some p) (short : w.overflows id = false)
    (before : p.isOver = false) :
    (w.stepPoller id).watch.GoesOn id ∨ (w.stepPoller id).watch.isCancelled p = true ∨
      w.roster.Unreferred id := by
  have hbegin : (w.beginRound id).watch.GoesOn id := goesOn_modifyPoller found rfl
  have hquits (hc : w.isCancelled p = true) (cancelled : Bool) :
      (w.endPoller id p.key cancelled).watch.isCancelled p = true := by
    rw [isCancelled, stopped_endPoller]
    exact hc
  unfold stepPoller
  rw [found]
  dsimp only
  cases hs : p.stage with
  | submitted evicted =>
    dsimp only
    have hset : (w.setStage id (.resting none)).pollers[id]? =
        some { p with stage := .resting none } := getElem?_modify_self found _
    rw [cancelPollers_eq]
    split
    case isTrue hc =>
      refine .inr (.inl ?_)
      rw [isCancelled, stopped_endPoller]
      exact hc
    case isFalse =>
      let q : Poller := { p with stage := .resting none }
      have hcancel : (Roster.cancelAll evicted (w.setStage id (.resting none)).pollers)[id]? =
          some (if id ∈ evicted then q.cancel else q) := by
        rw [Roster.getElem?_cancelAll, hset]
        rfl
      exact .inl (goesOn_modifyPoller hcancel rfl)
  | rounding round =>
    refine .inl (goesOn_stepRound found round fun raised hr hm => ?_)
    rw [overflows, found] at short
    simp only [hs, hr, hm] at short
    rw [← Option.not_isNone, short]
    rfl
  | waiting round flight =>
    have hunderway : p.isUnderway = true := by rw [Poller.isUnderway, hs]
    dsimp only
    split
    case isTrue hc => exact .inr (.inl (hquits hc true))
    case isFalse =>
      cases flight.answer w.now with
      | none => exact .inl (.inr ⟨p, found, hunderway⟩)
      | some reply => exact .inl (goesOn_takeReply found p.key round reply)
  | resting wake =>
    have hunderway : p.isUnderway = true := by rw [Poller.isUnderway, hs]
    dsimp only
    split
    case isTrue hc => exact .inr (.inl (hquits hc true))
    case isFalse =>
      split
      · have htaken := getElem?_modify_self found (·.takeCommands w.settings)
        exact .inl (goesOn_modifyPoller htaken rfl)
      · split
        case isTrue hn =>
          have hr : w.isReferred id = false := by simpa using hn
          exact .inr (.inr (unreferred_of_not_isReferred hr))
        case isFalse =>
          split
          · exact .inl hbegin
          · exact .inl (.inr ⟨p, found, hunderway⟩)
  | ended =>
    rw [Poller.isOver, hs] at before
    cases before

/-- A poller that is over after its turn was cancelled by then, or nobody was left to send it
commands. -/
theorem free_of_turn (h : w.roster.Sound) (found : w.pollers[id]? = some p)
    (short : w.overflows id = false) (before : p.isOver = false) {q : Poller}
    (after : (w.stepPoller id).watch.pollers[id]? = some q) (ended : q.isOver = true) :
    (w.stepPoller id).watch.isCancelled p = true ∨ w.roster.Unreferred id := by
  have hleads : Leads true w [] (w.stepPoller id).watch := leads_stepPoller w id fun _ => short
  obtain ⟨changes, hsteps, -⟩ := hleads
  have hsound : (w.stepPoller id).watch.roster.Sound := h.steps hsteps
  rcases stepPoller_cases found short before with hgoes | hfree
  · rcases hgoes with hgone | ⟨r, hr, hu⟩
    · have hstopped : (w.stepPoller id).watch.stopped = true := (hsound.gone hgone).1
      rw [isCancelled, hstopped, Bool.or_true]
      exact .inl rfl
    · have hqr : q = r := Option.some.inj (after.symm.trans hr)
      rw [hqr, Poller.not_isOver_of_isUnderway hu] at ended
      cases ended
  · exact hfree

/-! ## Runs -/

/-- An action that lets pollers at work go on is smooth, or changes what the executor takes. -/
theorem isSteady_cases {action : Action} (steady : w.isSteady action = true) :
    w.isSmooth action = true ∨ ∃ kinds, action = .refuse kinds := by
  cases action with
  | refuse kinds => exact .inr ⟨kinds, rfl⟩
  | work job => cases job <;> exact .inl steady
  | crash job => cases steady
  | _ => exact .inl rfl

/-- An action that lets pollers at work go on keeps every poller faithful. -/
theorem faithful_act (h : w.roster.Sound) (faithful : w.roster.Faithful id) {action : Action}
    (steady : w.isSteady action = true) : (w.act action).roster.Faithful id := by
  rcases isSteady_cases steady with hsmooth | ⟨kinds, rfl⟩
  · have hleads : Leads true w (w.interests action) (w.act action) :=
      leads_act w action fun _ => hsmooth
    obtain ⟨changes, hsteps, -⟩ := hleads
    exact faithful.steps h hsteps
  · exact faithful.of_same (fun p hp => ⟨p, hp, rfl⟩) fun _ hst => hst

/-- A poller that was faithful is so after any run that lets pollers go on. -/
theorem faithful_run (h : w.roster.Sound) (faithful : w.roster.Faithful id)
    {actions : List Action} (steady : w.runsSteadily actions = true) :
    (w.run actions).roster.Faithful id := by
  induction actions generalizing w with
  | nil => exact faithful
  | cons action rest ih =>
    obtain ⟨hfirst, hrest⟩ := Bool.and_eq_true_iff.mp steady
    exact ih (sound_act h action) (faithful_act h faithful hfirst) hrest

/-- A run lets pollers go on if both of its parts do. -/
theorem runsSteadily_append {earlier later : List Action}
    (steady : w.runsSteadily (earlier ++ later) = true) :
    w.runsSteadily earlier = true ∧ (w.run earlier).runsSteadily later = true := by
  induction earlier generalizing w with
  | nil => exact ⟨rfl, steady⟩
  | cons action rest ih =>
    obtain ⟨hfirst, hrest⟩ := Bool.and_eq_true_iff.mp steady
    obtain ⟨hbefore, hafter⟩ := ih hrest
    exact ⟨Bool.and_eq_true_iff.mpr ⟨hfirst, hbefore⟩, hafter⟩

/-- A poller that is not stored is in nobody's records. -/
theorem not_indexes_of_not_stores {key : DocumentKey} (h : ¬w.roster.Stores key id) :
    w.records.indexes key id = false :=
  Bool.eq_false_iff.mpr fun hi => h (stores_of_indexes hi)

/-- No run counts a violation. -/
theorem violations_run (w : Watch) (actions : List Action) :
    (w.run actions).records.tally.invariantViolations = w.records.tally.invariantViolations := by
  obtain ⟨changes, hsteps, -⟩ := leads_run_anyhow w actions
  exact Roster.violations_steps hsteps

/-- As long as no fetch breaks down and no wait is too long to be said, no poller ends while it
is in the records, unless it was cancelled: the counter of violations stays at zero, a poller
that ends in a turn of its own was cancelled by then or was not in the records, and whoever was
at work and is over is in no records. -/
theorem pollers_end_unused (settings : Settings) (listeners : List Listener)
    (actions : List Action)
    (steady : (initial settings listeners).runsSteadily actions = true) :
    let w := (initial settings listeners).run actions
    w.records.tally.invariantViolations = 0 ∧
    (∀ id p q, w.pollers[id]? = some p → p.isOver = false → w.overflows id = false →
      let v := w.act (.work (.poller id))
      v.pollers[id]? = some q → q.isOver = true →
        (v.isCancelled p = true ∨ ∀ key, w.records.indexes key id = false) ∧
          ∀ key, v.records.indexes key id = false) ∧
    (∀ earlier later, actions = earlier ++ later →
      ∀ id p q, ((initial settings listeners).run earlier).pollers[id]? = some p →
        p.isOver = false → w.pollers[id]? = some q → q.isOver = true →
          ∀ key, w.records.indexes key id = false) := by
  intro w
  -- a poller that was faithful is in no records once it is over
  have hover {v : Watch} {id : PollerId} {q : Poller} (hf : v.roster.Faithful id)
      (hq : v.pollers[id]? = some q) (ho : q.isOver = true) (key : DocumentKey) :
      v.records.indexes key id = false := by
    obtain ⟨r, hr, hrest⟩ := hf
    have hqr : q = r := Option.some.inj (hq.symm.trans hr)
    rcases hrest with hb | hn
    · rw [← hqr, ho] at hb
      cases hb
    · exact not_indexes_of_not_stores (hn key)
  refine ⟨violations_run _ actions, ?_, ?_⟩
  · intro id p q hp hb hshort v hq ho
    have hsound : w.roster.Sound := sound_run settings listeners actions
    have hsteady : w.isSteady (.work (.poller id)) = true := by
      rw [isSteady, hshort]
      rfl
    have hfaithful : v.roster.Faithful id :=
      faithful_act hsound ⟨p, hp, .inl hb⟩ hsteady
    refine ⟨?_, hover hfaithful hq ho⟩
    have hfree := free_of_turn hsound hp hshort hb hq ho
    exact hfree.imp_right fun hn key => not_indexes_of_not_stores (hn.1 key)
  · intro earlier later he id p q hp hb hq ho
    subst he
    have hlater := (runsSteadily_append steady).2
    have hfaithful := faithful_run (sound_run settings listeners earlier) ⟨p, hp, .inl hb⟩ hlater
    rw [← run_append] at hfaithful
    exact hover hfaithful hq ho

/-- A poller that loses its watch to its own fetch ends in the turn of the fetch; by then it is
cancelled and its document has no poller any more. -/
theorem pollers_end_unused_of_drop_in_fetch :
    let notes : DocumentKey := ⟨.uniform 7, "notes"⟩
    let network : Network := ⟨[⟨notes, 0, 9, some .data, none, [.block]⟩], 0, 0⟩
    let turn : Action := .work (.poller 0)
    let actions : List Action :=
      [.setNetwork network, .resolve ⟨notes, 3⟩ false "mine", turn, turn, turn, turn, turn]
    let w := (initial .standard []).run actions
    w.records.indexes notes 0 = true ∧
      ∃ p q, w.pollers[0]? = some p ∧ p.isOver = false ∧ (w.act turn).pollers[0]? = some q ∧
        q.isOver = true ∧ (w.act turn).isCancelled p = true ∧
        (w.act turn).records.indexes notes 0 = false ∧
        (w.act turn).records.tally.invariantViolations = 0 := by
  intro notes network turn actions w
  have hindexed : w.records.indexes notes 0 = true := by decide
  have hbefore : (w.pollers[0]?).map Poller.isOver = some false := by decide
  have hafter : ((w.act turn).pollers[0]?).map Poller.isOver = some true := by decide
  obtain ⟨p, hp, hb⟩ := Option.map_eq_some_iff.mp hbefore
  obtain ⟨q, hq, ho⟩ := Option.map_eq_some_iff.mp hafter
  have hshort : w.overflows 0 = false := by decide
  have hsteady : (initial .standard []).runsSteadily actions = true := by decide
  have hlonger : (initial .standard []).runsSteadily (actions ++ [turn]) = true := by decide
  have hturn := (pollers_end_unused .standard [] actions hsteady).2.1 0 p q hp hb hshort hq ho
  have hcount := (pollers_end_unused .standard [] (actions ++ [turn]) hlonger).1
  have hrun : (initial .standard []).run (actions ++ [turn]) = w.act turn := run_append _ _ _
  rw [hrun] at hcount
  have hcancelled : (w.act turn).isCancelled p = true := by
    rcases hturn.1 with hc | hn
    · exact hc
    · rw [hn notes] at hindexed
      cases hindexed
  have hgone : (w.act turn).records.indexes notes 0 = false := hturn.2 notes
  exact ⟨hindexed, p, q, hp, hb, hq, ho, hcancelled, hgone, hcount⟩

end Watch

end EditionWatch
