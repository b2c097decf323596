import EditionWatch.Proofs.Stillness
import EditionWatch.Proofs.Turns

/-!
# The tally is even

Whatever a watch does, its counters can be balanced against what is there: against the callbacks
that are registered, the pollers in the pool and in the cache, the rounds of all pollers and the
blocks that it waits for. What is then missing was lost in an incident, and each incident counts
once: a block that is dropped before it was answered, a temporary poller that goes on as a
background poller, those that a shutdown takes out, and one that takes itself out.
-/

namespace EditionWatch

namespace Records

variable {r r' : Records}

/-- As many callbacks are registered as ever were, less those that were removed. -/
def Enrols (r : Records) : Prop :=
  r.tally.subscriptions = r.tally.unsubscriptions + r.registry.count

/-- Two records have as many callbacks registered, and counted as many. -/
structure KeepsRoll (r r' : Records) : Prop where
  subscriptions : r'.tally.subscriptions = r.tally.subscriptions
  unsubscriptions : r'.tally.unsubscriptions = r.tally.unsubscriptions
  count : r'.registry.count = r.registry.count

/-- What keeps the roll keeps the balance of callbacks. -/
theorem KeepsRoll.enrols (h : KeepsRoll r r') (hr : Enrols r) : Enrols r' := by
  rw [Enrols, h.subscriptions, h.unsubscriptions, h.count]
  exact hr

/-- To announce an edition enrols nobody. -/
theorem keepsRoll_announce (r : Records) (found : Found) : KeepsRoll r (r.announce found) :=
  ⟨rfl, rfl, Registry.count_put_map r.registry found.key _⟩

theorem keepsRoll_inform (r : Records) (callback : CallbackId) (found : Found) :
    KeepsRoll r (r.inform callback found) :=
  ⟨rfl, rfl, Registry.count_put_map r.registry found.key _⟩

theorem keepsRoll_cover (r : Records) (key : DocumentKey) (callback : CallbackId) :
    KeepsRoll r (r.cover key callback) := by
  unfold cover
  cases r.coverage key <;> exact ⟨rfl, rfl, rfl⟩

/-- A callback that is new for a document is counted. -/
theorem enrols_register (h : Enrols r) (key : DocumentKey) (callback : CallbackId)
    (requested : Edition) : Enrols (r.register key callback requested) := by
  have henrol : Enrols (r.enrol key callback requested) := by
    have hcount := Registry.count_add r.registry key callback requested
    have hbefore : r.tally.subscriptions = r.tally.unsubscriptions + r.registry.count := h
    simp only [Enrols, enrol]
    omega
  unfold register
  dsimp only
  cases (r.enrol key callback requested).standing key with
  | none => exact henrol
  | some found => exact (keepsRoll_inform _ callback found).enrols henrol

/-- A callback that was registered is counted when it is removed. -/
theorem enrols_unregister (h : Enrols r) (key : DocumentKey) (callback : CallbackId)
    (distinct : ((r.registry.of key).map Subscriber.callback).Nodup) :
    Enrols (r.unregister key callback) := by
  have hcount := Registry.count_remove distinct callback
  have hbefore : r.tally.subscriptions = r.tally.unsubscriptions + r.registry.count := h
  simp only [Enrols, unregister, countStops]
  omega

/-- Every change of the records keeps the balance of callbacks. -/
theorem enrols_apply (attuned : Attuned r) (h : Enrols r) (change : Change) :
    Enrols (r.apply change) := by
  cases change with
  | subscribe key callback requested polls =>
    have hregister := enrols_register h key callback requested
    cases polls with
    | false => exact hregister
    | true => exact (keepsRoll_cover _ key callback).enrols hregister
  | unsubscribe key callback => exact enrols_unregister h key callback (attuned.distinct key)
  | noteSlot now uri =>
    simp only [apply, noteSlot]
    cases (r.frontier uri.key).raiseSlot? uri.edition with
    | none => exact h
    | some frontier => exact (keepsRoll_announce _ _).enrols h
  | noteGood now uri =>
    simp only [apply, noteGood]
    cases (r.frontier uri.key).raiseGood? uri.edition with
    | none => exact h
    | some rise =>
      refine (keepsRoll_announce _ _).enrols ?_
      split <;> exact h
  | takeDelivery =>
    simp only [apply, takeDelivery?]
    cases r.queue.pop? <;> exact h
  | resolve now key prefetch =>
    have hkeeps : KeepsRoll r (r.resolve now key prefetch) := by
      unfold resolve
      dsimp only
      cases prefetch <;> cases r.pool.poller? key <;> cases r.cache.poller? key <;>
        exact ⟨rfl, rfl, rfl⟩
    exact hkeeps.enrols h
  | removePoller key poller cancelled =>
    have hkeeps : KeepsRoll r (r.removePoller key poller cancelled) := by
      unfold removePoller
      dsimp only
      cases cancelled <;> split <;> try split
      all_goals exact ⟨rfl, rfl, rfl⟩
    exact hkeeps.enrols h
  | countVerdict verdict => cases verdict <;> exact h
  | _ => exact h

/-- Every history keeps the balance of callbacks. -/
theorem enrols_run (attuned : Attuned r) (h : Enrols r) (history : List Change) :
    Enrols (r.run history) := by
  induction history generalizing r with
  | nil => exact h
  | cons change rest ih => exact ih (attuned_apply attuned change) (enrols_apply attuned h change)

end Records

namespace Watch

/-- For every run: as many callbacks are registered as ever were, less those removed; as many
rounds are counted as all pollers together brought to an end; and every probe was answered in one
of three ways, or is waited for, or was dropped. As long as someone holds the watch, all background
pollers that were not stopped are in the pool. And all temporary pollers that were made are in the
cache, except for those that were pushed out, went on as background pollers, were taken out by a
shutdown, or took themselves out. -/
theorem tally_even (settings : Settings) (listeners : List Listener) (actions : List Action) :
    let start := initial settings listeners
    let w := start.run actions
    let ds := start.annals actions
    let t := w.records.tally
    t.subscriptions = t.unsubscriptions + w.records.registry.count ∧
    t.pollRounds = w.roundsMade ∧
    t.probes = t.probesPresent + t.probesAbsent + t.probesIndeterminate + w.awaited +
      Incident.total Incident.blocksLost ds ∧
    (w.isAlive = true →
      t.backgroundStarted = t.backgroundStopped + w.records.pool.size ∧
      t.temporaryCreated = w.records.cache.byUse.size + t.temporaryEvicted +
        Incident.total Incident.promoted ds + Incident.total Incident.cleared ds +
        Incident.total Incident.exited ds) := by
  intro start w ds t
  have haccounts : Explains ds start w :=
    explains_run (numbered_initial settings listeners) (founded_initial settings listeners) actions
  obtain ⟨history, hrecords, -⟩ := records_run start actions
  have hattuned : Records.Attuned start.records := Records.attuned_initial _
  have henrols : w.records.Enrols := by
    rw [hrecords]
    exact Records.enrols_run hattuned rfl history
  have hrounds : (t.pollRounds : Int) - w.roundsMade = 0 := haccounts.rounds
  have hprobes : (t.probes : Int) - t.answered - w.awaited =
      0 + Incident.total Incident.blocksLost ds := haccounts.probes
  refine ⟨henrols, by omega, ?_, fun alive => ⟨counts_run settings listeners actions alive, ?_⟩⟩
  · rw [Tally.answered] at hprobes
    omega
  · have hmissing : (t.temporaryCreated : Int) - t.temporaryEvicted - w.records.cache.byUse.size =
        0 + Incident.total Incident.departed ds := haccounts.missing alive
    rw [Incident.total_departed] at hmissing
    omega

/-- Four temporary pollers are made: one is pushed out, one goes on as a background poller, one is
taken out by the shutdown, and the last one takes itself out. A probe is dropped meanwhile. -/
theorem tally_even_of_departures :
    let notes : DocumentKey := ⟨.uniform 7, "notes"⟩
    let plans : DocumentKey := ⟨.uniform 7, "plans"⟩
    let settings : Settings := { Settings.standard with maxTemporary := 1 }
    let actions : List Action :=
      [.setNetwork ⟨[⟨plans, 5, 5, none, none, []⟩], 0, 0⟩,
        .resolve ⟨notes, 0⟩ false "first", .resolve ⟨plans, 0⟩ false "second",
        .subscribe plans "ann" { background := true }, .resolve ⟨notes, 0⟩ false "third",
        .probe ⟨plans, 5⟩ false, .dropProbe, .shutdown, .resolve ⟨notes, 0⟩ false "fourth",
        .work (.poller 3)]
    let w := (initial settings []).run actions
    let ds := (initial settings []).annals actions
    (w.isAlive = true ∧ w.records.cache.byUse.size = 0 ∧ w.records.tally.temporaryEvicted = 1) ∧
      (Incident.total Incident.promoted ds = 1 ∧ Incident.total Incident.cleared ds = 1 ∧
        Incident.total Incident.exited ds = 1 ∧ Incident.total Incident.blocksLost ds = 1) ∧
      w.records.tally.temporaryCreated = 4 ∧ w.records.tally.probes = 1 := by
  intro notes plans settings actions
  dsimp only
  obtain ⟨-, -, hprobes, hlive⟩ := tally_even settings [] actions
  have hgone : ((initial settings []).run actions).isAlive = true ∧
      ((initial settings []).run actions).records.cache.byUse.size = 0 ∧
      ((initial settings []).run actions).records.tally.temporaryEvicted = 1 := by decide
  have hincidents :
      Incident.total Incident.promoted ((initial settings []).annals actions) = 1 ∧
      Incident.total Incident.cleared ((initial settings []).annals actions) = 1 ∧
      Incident.total Incident.exited ((initial settings []).annals actions) = 1 ∧
      Incident.total Incident.blocksLost ((initial settings []).annals actions) = 1 := by
    decide
  have hunheard : ((initial settings []).run actions).records.tally.answered +
      ((initial settings []).run actions).awaited = 0 := by decide
  obtain ⟨-, hcreated⟩ := hlive hgone.1
  rw [hgone.2.1, hgone.2.2, hincidents.1, hincidents.2.1, hincidents.2.2.1] at hcreated
  rw [Tally.answered] at hunheard
  rw [hunheard, hincidents.2.2.2] at hprobes
  exact ⟨hgone, hincidents, hcreated, hprobes⟩

end Watch

end EditionWatch
