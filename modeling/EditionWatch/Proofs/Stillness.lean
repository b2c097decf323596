import EditionWatch.Proofs.Custody
import EditionWatch.Proofs.Retrievals

/-!
# Everything is still once it was stopped

When everything was stopped, be it by a shutdown or because nobody holds the watch any more, each
poller that is not in the midst of a turn is over with its next turn, without another fetch; so is
the sweeper, and no content comes any more. A poller that is made later is no exception: all it
does is to take itself out of the records again. So when no job is ready the records are empty of
pollers, and as many background pollers were stopped as were started. The errands that follow
hints hold the watch like its owner, and as long as one of them is not over nothing is stopped by
the owner giving the watch up.
-/

namespace EditionWatch

namespace Records

/-! ## Background pollers are counted -/

/-- Of the background pollers that were started and not stopped all are in the pool. -/
def Balanced (r : Records) : Prop :=
  r.tally.backgroundStarted = r.tally.backgroundStopped + r.pool.size

/-- Two records have the same pool, and counted as many background pollers. -/
structure KeepsBackground (r r' : Records) : Prop where
  pool : r'.pool = r.pool
  started : r'.tally.backgroundStarted = r.tally.backgroundStarted
  stopped : r'.tally.backgroundStopped = r.tally.backgroundStopped

/-- What keeps the pool and its counts keeps them balanced. -/
theorem Balanced.of_keeps {r r' : Records} (h : r.Balanced) (keeps : KeepsBackground r r') :
    r'.Balanced := by
  rw [Balanced, keeps.started, keeps.stopped, keeps.pool]
  exact h

/-- To register someone changes nothing about background pollers. -/
theorem keepsBackground_register (r : Records) (key : DocumentKey) (callback : CallbackId)
    (requested : Edition) : KeepsBackground r (r.register key callback requested) := by
  unfold register
  dsimp only
  cases (r.enrol key callback requested).standing key <;> exact ⟨rfl, rfl, rfl⟩

/-- A change that spares pollers changes nothing about background pollers. -/
theorem keepsBackground_apply (r : Records) (change : Change)
    (spares : change.sparesPollers = true) : KeepsBackground r (r.apply change) := by
  cases change with
  | subscribe key callback requested polls =>
    cases polls with
    | false => exact keepsBackground_register r key callback requested
    | true => cases spares
  | noteSlot now uri =>
    simp only [apply, noteSlot]
    cases (r.frontier uri.key).raiseSlot? uri.edition <;> exact ⟨rfl, rfl, rfl⟩
  | noteGood now uri =>
    simp only [apply, noteGood]
    cases (r.frontier uri.key).raiseGood? uri.edition with
    | none => exact ⟨rfl, rfl, rfl⟩
    | some rise =>
      dsimp only
      cases rise.slotRose <;> exact ⟨rfl, rfl, rfl⟩
  | takeDelivery =>
    simp only [apply, takeDelivery?]
    cases r.queue.pop? <;> exact ⟨rfl, rfl, rfl⟩
  | countVerdict verdict => cases verdict <;> exact ⟨rfl, rfl, rfl⟩
  | unsubscribe key callback => cases spares
  | resolve now key prefetch => cases spares
  | removePoller key poller cancelled => cases spares
  | removePollers => cases spares
  | forgetPollers => cases spares
  | _ => exact ⟨rfl, rfl, rfl⟩

/-- Whoever joins a poller makes the pool no larger. -/
theorem size_join (pool : PollerPool) (key : DocumentKey) (callback : CallbackId) :
    (pool.join key callback).size = pool.size := by
  unfold PollerPool.join
  cases hentry : pool.get? key with
  | none => rfl
  | some entry =>
    dsimp only
    split
    · rfl
    · rw [KeyMap.size_insert, hentry, if_neg (Option.some_ne_none entry), Nat.add_zero]

/-- The pool is smaller by the poller that nobody needs any more. -/
theorem size_leave (pool : PollerPool) (key : DocumentKey) (callback : CallbackId) :
    (pool.leave key callback).pool.size + (pool.leave key callback).idle.toList.length =
      pool.size := by
  unfold PollerPool.leave
  cases hentry : pool.get? key with
  | none => rfl
  | some entry =>
    dsimp only
    split
    · refine KeyMap.size_erase ?_
      rw [hentry]
      exact Option.some_ne_none entry
    · change (pool.insert key _).size + 0 = pool.size
      rw [KeyMap.size_insert, hentry, if_neg (Option.some_ne_none entry), Nat.add_zero]

/-- A document that has a poller in the pool has an entry there. -/
theorem get?_of_poller? {pool : PollerPool} {key : DocumentKey} {poller : PollerId}
    (h : pool.poller? key = some poller) : pool.get? key ≠ none := by
  intro hnone
  rw [PollerPool.poller?, hnone] at h
  cases h

/-- To cover a document starts a background poller and counts it, or promotes one and counts it. -/
theorem balanced_cover {r : Records} (h : r.Balanced) (key : DocumentKey)
    (callback : CallbackId) : (r.cover key callback).Balanced := by
  have hstart (poller : PollerId) (absent : r.pool.poller? key = none) :
      r.tally.backgroundStarted + 1 =
        r.tally.backgroundStopped + ((r.pool.start key poller).join key callback).size := by
    have hnone : r.pool.get? key = none := Option.map_eq_none_iff.mp absent
    rw [size_join, PollerPool.start, KeyMap.size_insert, if_pos hnone, ← Nat.add_assoc]
    exact congrArg (· + 1) h
  unfold cover coverage
  cases hpool : r.pool.poller? key with
  | some poller =>
    change r.tally.backgroundStarted =
      r.tally.backgroundStopped + (r.pool.join key callback).size
    rw [size_join]
    exact h
  | none =>
    cases r.cache.poller? key with
    | some poller => exact hstart poller hpool
    | none => exact hstart r.pollersMade hpool

/-- Only when pollers are forgotten they are not counted. -/
theorem balanced_apply {r : Records} (h : r.Balanced) {change : Change}
    (counted : change ≠ .forgetPollers) : (r.apply change).Balanced := by
  cases hspares : change.sparesPollers with
  | true => exact h.of_keeps (keepsBackground_apply r change hspares)
  | false =>
    cases change with
    | subscribe key callback requested polls =>
      cases polls with
      | false => cases hspares
      | true =>
        have hregistered := h.of_keeps (keepsBackground_register r key callback requested)
        exact balanced_cover hregistered key callback
    | unsubscribe key callback =>
      have hleave := size_leave r.pool key callback
      change r.tally.backgroundStarted = r.tally.backgroundStopped +
        (r.pool.leave key callback).idle.toList.length + (r.pool.leave key callback).pool.size
      rw [Balanced] at h
      omega
    | resolve now key prefetch =>
      refine h.of_keeps ?_
      simp only [apply, resolve]
      cases r.pool.poller? key <;> cases r.cache.poller? key <;> cases prefetch <;>
        exact ⟨rfl, rfl, rfl⟩
    | removePoller key poller cancelled =>
      simp only [apply, removePoller]
      split
      case isTrue hpool =>
        have herase := KeyMap.size_erase (get?_of_poller? hpool)
        have hremoved : r.tally.backgroundStarted =
            r.tally.backgroundStopped + 1 + (r.pool.erase key).size := by
          rw [Balanced] at h
          omega
        cases cancelled <;> exact hremoved
      case isFalse =>
        split
        · cases cancelled <;> exact h
        · exact h
    | removePollers =>
      change r.tally.backgroundStarted = r.tally.backgroundStopped + r.pool.size + 0
      exact h
    | forgetPollers => exact absurd rfl counted
    | _ => cases hspares

end Records

namespace Roster

variable {smooth : Bool} {s t : Roster} {changes : List Records.Change}

/-- As long as someone holds the watch, background pollers are counted. -/
def Counts (s : Roster) : Prop := s.alive = true → s.records.Balanced

/-- Every step counts the background pollers that it starts and stops. -/
theorem Counts.step (h : Counts s) (step : Step smooth s changes t) : Counts t := by
  have hrecord (change : Records.Change) (counted : change ≠ .forgetPollers) :
      s.alive = true → (s.records.apply change).Balanced :=
    fun alive => Records.balanced_apply (h alive) counted
  cases step with
  | record change spares => exact hrecord change fun he => by rw [he] at spares; cases spares
  | quits id p cancelled found underway free honest =>
    exact hrecord (.removePoller p.key id cancelled) Records.Change.noConfusion
  | stops => exact fun alive => by cases alive
  | shutsDown => exact hrecord .removePollers Records.Change.noConfusion
  | joins key callback requested present => exact hrecord _ Records.Change.noConfusion
  | starts key callback requested p alive absent fresh =>
    exact hrecord (.subscribe key callback requested true) Records.Change.noConfusion
  | leaves key callback => exact hrecord (.unsubscribe key callback) Records.Change.noConfusion
  | hints now key prefetch present => exact hrecord _ Records.Change.noConfusion
  | looksUp now key prefetch p alive absent fresh =>
    exact hrecord (.resolve now key prefetch) Records.Change.noConfusion
  | _ => exact h

theorem Counts.steps (h : Counts s) (steps : Steps smooth s changes t) : Counts t := by
  induction steps with
  | refl => exact h
  | tail _ step ih => exact ih.step step

/-- Where the records are the same the same pollers are stored. -/
theorem stores_of_records (h : t.records = s.records) {key : DocumentKey} {id : PollerId}
    (hst : t.Stores key id) : s.Stores key id := by
  rw [Stores, ← h]
  exact hst

/-- A poller that comes to be stored was made just then. -/
theorem Sound.stores_or_made (h : Sound s) (steps : Steps smooth s changes t) :
    s.pollers.length ≤ t.pollers.length ∧ ∀ key id, t.Stores key id →
      s.Stores key id ∨ s.pollers.length ≤ id := by
  induction steps with
  | refl => exact ⟨Nat.le_refl _, fun _ _ => .inl⟩
  | tail earlier step ih =>
    obtain ⟨hlength, hstores⟩ := ih
    rcases (h.steps earlier).settles_or_grows step with hs | ⟨other, p, hg⟩
    · exact ⟨Nat.le_trans hlength (Nat.le_of_eq hs.length.symm),
        fun key id hst => hstores key id (hs.stores key id hst)⟩
    · refine ⟨?_, fun key id hst => ?_⟩
      · rw [hg.pollers, List.length_append]
        exact Nat.le_add_right_of_le hlength
      · rcases hg.stores key id hst with hold | ⟨-, rfl⟩
        · exact hstores key id hold
        · exact .inr hlength

end Roster

namespace Watch

variable {v w : Watch} {id : PollerId} {p : Poller} {action : Action}

/-! ## Pollers -/

/-- A poller that is there after an effect was there before, where only the actor's work went on,
or it was just made. -/
theorem poller_effect {actor : Option PollerId} {bearing : Bool}
    (effect : Effect actor bearing w v) (found : v.pollers[id]? = some p) :
    (∃ q, w.pollers[id]? = some q ∧ (p.stage = q.stage ∨ actor = some id ∧
      (p.isRounding = true → w.stopped = false ∨ q.isRounding = true))) ∨
      w.pollers.length ≤ id ∧ w.IsNew p := by
  have hsame (pollers : v.pollers = w.pollers) :
      ∃ q, w.pollers[id]? = some q ∧ (p.stage = q.stage ∨ actor = some id ∧
        (p.isRounding = true → w.stopped = false ∨ q.isRounding = true)) :=
    ⟨p, pollers ▸ found, .inl rfl⟩
  cases effect with
  | alike _ same => exact .inl (hsame same.pollers)
  | touch other change stage telling =>
    have hmodified : (w.pollers.modify other change)[id]? = some p := found
    rw [List.getElem?_modify] at hmodified
    obtain ⟨q, hq, hp⟩ := Option.map_eq_some_iff.mp hmodified
    refine .inl ⟨q, hq, .inl ?_⟩
    rw [← hp]
    split
    · exact stage q
    · rfl
  | advance other change acting free =>
    have hmodified : (w.pollers.modify other change)[id]? = some p := found
    rw [List.getElem?_modify] at hmodified
    obtain ⟨q, hq, hp⟩ := Option.map_eq_some_iff.mp hmodified
    refine .inl ⟨q, hq, ?_⟩
    by_cases hid : other = id
    · subst hid
      rw [if_pos rfl] at hp
      subst hp
      exact .inr ⟨acting, free q hq⟩
    · rw [if_neg hid] at hp
      exact .inl (hp ▸ rfl)
  | make made new hints inbox =>
    have happended : (w.pollers ++ [made])[id]? = some p := found
    rcases Roster.getElem?_concat_cases happended with hold | ⟨rfl, rfl⟩
    · exact .inl ⟨p, hold, .inl rfl⟩
    · exact .inr ⟨Nat.le_refl _, new⟩
  | pursue feed pursuing uri hfeed wants running =>
    refine .inl (hsame ?_)
    obtain ⟨_, _, _, hs⟩ := submitErrand_eq
      { w with feeds := w.feeds.modify feed (·.pursue uri.edition) } .retrieval
      (.retrieval feed) uri
    rw [hs]
  | cancelFeed feed => exact .inl (hsame rfl)
  | depart number flight own => exact .inl (hsame rfl)
  | _ => exact .inl (hsame rfl)

/-- A poller is not in the midst of a turn: it was handed over, waits, rests or is over. -/
def Pauses (w : Watch) (id : PollerId) : Prop :=
  ∀ p, w.pollers[id]? = some p → p.isRounding = false

/-- Once everything was stopped no poller takes up a round any more. -/
theorem pauses_act (numbered : w.Numbered) (stopped : w.stopped = true) (pauses : w.Pauses id)
    (action : Action) : (w.act action).Pauses id := by
  cases houtside : action.isOutside with
  | true =>
    rw [Pauses, (alike_act (w := w) houtside).pollers]
    exact pauses
  | false =>
    refine ((effects_act numbered houtside).keep (P := fun v => v.stopped = true ∧ v.Pauses id)
      (fun v u effect hv => ⟨stopped_effect effect hv.1, fun p hp => ?_⟩) ⟨stopped, pauses⟩).2
    rcases poller_effect effect hp with ⟨q, hq, hsame | ⟨-, hround⟩⟩ | ⟨-, hnew⟩
    · rw [Poller.isRounding, hsame]
      exact hv.2 q hq
    · rw [← Bool.not_eq_true]
      intro hp
      rcases hround hp with hrunning | hq'
      · rw [hv.1] at hrunning
        cases hrunning
      · rw [hv.2 q hq] at hq'
        cases hq'
    · rw [Poller.isRounding]
      rcases hnew with ⟨evicted, hs⟩ | ⟨-, hs⟩
      · rw [hs]
      · rw [hs]

/-- A poller came to its end, and nothing else is to be noticed of it: nothing was seen, nothing
more is known, and no errand was sent. -/
structure Retires (id : PollerId) (w v : Watch) : Prop where
  journal : v.journal = w.journal
  news : Records.KeepsNews w.records v.records
  errands : v.errands = w.errands
  ended : ∀ p, v.pollers[id]? = some p → p.stage = .ended

theorem stage_modify {pollers : List Poller} {change : Poller → Poller} {stage : Poller.Stage}
    (sets : ∀ p, (change p).stage = stage) :
    ∀ p, (pollers.modify id change)[id]? = some p → p.stage = stage := by
  intro p hp
  rw [List.getElem?_modify] at hp
  obtain ⟨q, -, hq⟩ := Option.map_eq_some_iff.mp hp
  rw [if_pos rfl] at hq
  exact hq ▸ sets q

/-- A poller that ends goes unnoticed. -/
theorem retires_endPoller (w : Watch) (id : PollerId) (key : DocumentKey) (cancelled : Bool) :
    Retires id w (w.endPoller id key cancelled).watch := by
  have hended : ∀ p, (w.finishPoller id).pollers[id]? = some p → p.stage = .ended :=
    stage_modify fun _ => rfl
  unfold endPoller
  dsimp only
  split
  · refine ⟨rfl, Records.keepsNews_removePoller w.records key id cancelled, rfl, fun p hp => ?_⟩
    have hmodified : ((w.finishPoller id).pollers.modify id Poller.cancel)[id]? = some p := hp
    rw [List.getElem?_modify] at hmodified
    obtain ⟨q, hq, hp⟩ := Option.map_eq_some_iff.mp hmodified
    rw [if_pos rfl] at hp
    exact hp ▸ hended q hq
  · exact ⟨rfl, ⟨rfl, rfl, rfl, rfl, rfl⟩, rfl, hended⟩

/-- Once everything was stopped the next turn of a poller is its last, and fetches nothing. -/
theorem retires_act (stopped : w.stopped = true) (pauses : w.Pauses id) :
    Retires id w (w.act (.work (.poller id))) := by
  change Retires id w (w.stepPoller id).watch
  unfold stepPoller
  cases hfound : w.pollers[id]? with
  | none =>
    refine ⟨rfl, ⟨rfl, rfl, rfl, rfl, rfl⟩, rfl, fun p hp => ?_⟩
    rw [hfound] at hp
    cases hp
  | some p =>
    have hcancelled (v : Watch) (hv : v.stopped = true) : v.isCancelled p = true := by
      rw [isCancelled, hv, Bool.or_true]
    have hpauses := pauses p hfound
    dsimp only
    cases hstage : p.stage with
    | submitted evicted =>
      dsimp only
      rw [cancelPollers_eq]
      split
      case isTrue =>
        have hend := retires_endPoller
          { w.setStage id (.resting none) with
            pollers := Roster.cancelAll evicted (w.setStage id (.resting none)).pollers }
          id p.key true
        exact ⟨hend.journal, hend.news, hend.errands, hend.ended⟩
      case isFalse hrunning => exact absurd (hcancelled _ stopped) hrunning
    | rounding round => rw [Poller.isRounding, hstage] at hpauses; cases hpauses
    | waiting round flight =>
      dsimp only
      rw [if_pos (hcancelled w stopped)]
      exact retires_endPoller w id p.key true
    | resting wake =>
      dsimp only
      rw [if_pos (hcancelled w stopped)]
      exact retires_endPoller w id p.key true
    | ended =>
      refine ⟨rfl, ⟨rfl, rfl, rfl, rfl, rfl⟩, rfl, fun q hq => ?_⟩
      rw [hfound, Option.some.injEq] at hq
      rw [← hq, hstage]

/-- Once everything was stopped the sweeper sweeps no more. -/
theorem act_sweeper_of_stopped (stopped : w.stopped = true) :
    w.act (.work .sweeper) = { w with sweeper := .ended } := by
  change w.stepSweeper.watch = _
  unfold stepSweeper
  cases hsweeper : w.sweeper with
  | ended =>
    dsimp only
    rw [← hsweeper]
  | submitted =>
    dsimp only
    rw [if_pos stopped]
  | sleeping wake =>
    dsimp only
    rw [if_pos stopped]

/-- No poller is lost in an effect, and the executor takes what it took. -/
theorem grows_effect {actor : Option PollerId} {bearing : Bool}
    (effect : Effect actor bearing w v) :
    v.refused = w.refused ∧ w.pollers.length ≤ v.pollers.length := by
  cases effect with
  | alike _ same now refused => exact ⟨refused, Nat.le_of_eq (by rw [same.pollers])⟩
  | touch other change stage telling => exact ⟨rfl, Nat.le_of_eq (List.length_modify _ _ _).symm⟩
  | advance other change acting free =>
    exact ⟨rfl, Nat.le_of_eq (List.length_modify _ _ _).symm⟩
  | make made new hints inbox =>
    refine ⟨rfl, ?_⟩
    change w.pollers.length ≤ (w.pollers ++ [made]).length
    rw [List.length_append]
    exact Nat.le_add_right _ _
  | pursue feed pursuing uri hfeed wants running =>
    obtain ⟨_, _, _, hs⟩ := submitErrand_eq
      { w with feeds := w.feeds.modify feed (·.pursue uri.edition) } .retrieval
      (.retrieval feed) uri
    rw [hs]
    exact ⟨rfl, Nat.le_refl _⟩
  | _ => exact ⟨rfl, Nat.le_refl _⟩

/-- The work of a poller stands where it stood after an action that is not its own; a new one was
handed over, if the executor takes pollers. -/
theorem stage_act (numbered : w.Numbered) (idle : action.actor? ≠ some id)
    (found : (w.act action).pollers[id]? = some p) :
    (∃ q, w.pollers[id]? = some q ∧ p.stage = q.stage) ∨ w.pollers.length ≤ id ∧
      (w.takes .poller = true → ∃ evicted, p.stage = .submitted evicted) := by
  cases houtside : action.isOutside with
  | true =>
    rw [(alike_act (w := w) houtside).pollers] at found
    exact .inl ⟨p, found, rfl⟩
  | false =>
    let Stands (v : Watch) : Prop :=
      (v.refused = w.refused ∧ w.pollers.length ≤ v.pollers.length) ∧
        ∀ p, v.pollers[id]? = some p →
          (∃ q, w.pollers[id]? = some q ∧ p.stage = q.stage) ∨ w.pollers.length ≤ id ∧
            (w.takes .poller = true → ∃ evicted, p.stage = .submitted evicted)
    have hstep (v u : Watch) (effect : Effect action.actor? (w.bears action) v u)
        (hv : Stands v) : Stands u := by
      obtain ⟨⟨hrefused, hlength⟩, hold⟩ := hv
      obtain ⟨hrefused', hlength'⟩ := grows_effect effect
      refine ⟨⟨hrefused'.trans hrefused, Nat.le_trans hlength hlength'⟩, fun p hp => ?_⟩
      rcases poller_effect effect hp with ⟨q, hq, hsame | ⟨hactor, -⟩⟩ | ⟨hlate, hnew⟩
      · rw [hsame]
        exact hold q hq
      · exact absurd hactor idle
      · refine .inr ⟨Nat.le_trans hlength hlate, fun takes => ?_⟩
        rcases hnew with hsubmitted | ⟨hnot, -⟩
        · exact hsubmitted
        · rw [Watch.takes, hrefused, ← Watch.takes, takes] at hnot
          cases hnot
    have hw : Stands w := ⟨⟨rfl, Nat.le_refl _⟩, fun p hp => .inl ⟨p, hp, rfl⟩⟩
    exact ((effects_act numbered houtside).keep hstep hw).2 p found

/-! ## Pollers that are made once everything was stopped -/

/-- Everything was stopped, and the pollers in the records have yet to begin. -/
structure Dormant (w : Watch) : Prop where
  stopped : w.stopped = true
  submitted : ∀ key id, w.roster.Stores key id →
    ∃ p evicted, w.pollers[id]? = some p ∧ p.stage = .submitted evicted

/-- A poller that ends takes itself out, or it is not in the records. -/
theorem records_endPoller (w : Watch) (id : PollerId) (key : DocumentKey) (cancelled : Bool) :
    (w.endPoller id key cancelled).watch.records = w.records.removePoller key id cancelled ∨
      (w.endPoller id key cancelled).watch.records = w.records ∧
        (w.isAlive = false ∨ w.records.indexes key id = false) := by
  unfold endPoller
  dsimp only
  split
  case isTrue => exact .inl rfl
  case isFalse hn => exact .inr ⟨rfl, Bool.and_eq_false_iff.mp (Bool.eq_false_iff.mpr hn)⟩

/-- A poller that begins only after everything was stopped takes itself out of the records. -/
theorem not_stores_of_begins (sound : w.roster.Sound) (stopped : w.stopped = true)
    (found : w.pollers[id]? = some p) {evicted : List PollerId}
    (stage : p.stage = .submitted evicted) (key : DocumentKey) :
    ¬(w.act (.work (.poller id))).roster.Stores key id := by
  let begun : Watch :=
    { w.setStage id (.resting none) with
      pollers := Roster.cancelAll evicted (w.setStage id (.resting none)).pollers }
  have hact : w.act (.work (.poller id)) = (begun.endPoller id p.key true).watch := by
    have hcancelled : begun.isCancelled p = true := by
      have hstopped : begun.stopped = true := stopped
      rw [isCancelled, hstopped, Bool.or_true]
    change (w.stepPoller id).watch = _
    unfold stepPoller
    simp only [found, stage]
    rw [cancelPollers_eq, if_pos hcancelled]
  rw [hact]
  intro hst
  rcases records_endPoller begun id p.key true with hr | ⟨hr, hout⟩
  · have hremoved : (w.roster.change (.removePoller p.key id true)).Stores key id :=
      Roster.stores_of_records hr hst
    exact ((sound.stores_quits true found key id).mp hremoved).2 rfl
  · have hstored : w.roster.Stores key id := Roster.stores_of_records hr hst
    rcases hout with hgone | hother
    · exact (sound.gone hgone).2 key id hstored
    · obtain ⟨q, hq, hkey, -⟩ := sound.own key id hstored
      cases found.symm.trans hq
      rw [hkey, Records.indexes, Bool.or_eq_false_iff] at hother
      exact hstored.elim (of_decide_eq_false hother.1) (of_decide_eq_false hother.2)

/-- Every action leaves a watch dormant that was so. -/
theorem dormant_act (sound : w.roster.Sound) (numbered : w.Numbered) (dormant : w.Dormant)
    (takes : w.takes .poller = true) (action : Action) : (w.act action).Dormant := by
  refine ⟨stopped_act numbered action dormant.stopped, fun key id hst => ?_⟩
  obtain ⟨changes, hsteps, -⟩ := leads_act_anyhow w action
  obtain ⟨-, hstores⟩ := sound.stores_or_made hsteps
  obtain ⟨p, hp, -⟩ := (sound_act sound action).own key id hst
  -- A poller that was there is stored only if it was, and so it had yet to begin.
  have hstored (q : Poller) (hq : w.pollers[id]? = some q) : w.roster.Stores key id :=
    (hstores key id hst).resolve_right
      (Nat.not_le.mpr (List.getElem?_eq_some_iff.mp hq).1)
  have hbefore (q : Poller) (hq : w.pollers[id]? = some q) :
      ∃ evicted, q.stage = .submitted evicted := by
    obtain ⟨same, evicted, hsame, hstage⟩ := dormant.submitted key id (hstored q hq)
    rw [hq, Option.some.injEq] at hsame
    exact ⟨evicted, hsame ▸ hstage⟩
  by_cases hactor : action.actor? = some id
  · have hkept (h : w.act action = w) :
        ∃ p evicted, (w.act action).pollers[id]? = some p ∧ p.stage = .submitted evicted := by
      rw [h] at hst ⊢
      exact dormant.submitted key id hst
    rcases own_of_actor? hactor with rfl | rfl | rfl
    · cases hq : w.pollers[id]? with
      | none =>
        refine hkept ?_
        change (w.stepPoller id).watch = w
        simp only [stepPoller, hq]
      | some q =>
        obtain ⟨evicted, hstage⟩ := hbefore q hq
        exact absurd hst (not_stores_of_begins sound dormant.stopped hq hstage key)
    · refine hkept ?_
      rcases w.wake_cases id with hsame | ⟨q, due, hq, hrests, -⟩
      · exact hsame
      · obtain ⟨evicted, hstage⟩ := hbefore q hq
        exact absurd (hstage.symm.trans hrests) Poller.Stage.noConfusion
    · refine hkept ?_
      change w.crash (.poller id) = w
      cases hq : w.pollers[id]? with
      | none => simp [crash, hq]
      | some q =>
        obtain ⟨evicted, hstage⟩ := hbefore q hq
        simp [crash, hq, Poller.flight?, hstage]
  · rcases stage_act numbered hactor hp with ⟨q, hq, hsame⟩ | ⟨-, hnew⟩
    · obtain ⟨evicted, hstage⟩ := hbefore q hq
      exact ⟨p, evicted, hp, hsame.trans hstage⟩
    · obtain ⟨evicted, hstage⟩ := hnew takes
      exact ⟨p, evicted, hp, hstage⟩

/-! ## Everything is still -/

/-- A watch in which everything was stopped does nothing any more along some actions. -/
structure Still (w : Watch) (later : List Action) : Prop where
  /-- Everything stays stopped, and with it all pollers are cancelled. -/
  stopped : (w.run later).stopped = true
  /-- Once a poller is not in the midst of a turn its next turn is its last, and goes unnoticed. -/
  pollers : ∀ id early late, later = early ++ late → (w.run early).Pauses id →
    Retires id (w.run later) ((w.run later).act (.work (.poller id)))
  /-- The sweeper does not sweep in its next turn, but is over. -/
  sweeper : (w.run later).act (.work .sweeper) = { w.run later with sweeper := .ended }
  /-- No more content comes to any feed. -/
  feeds : ∀ id, Silent id w later
  /-- No listener hears of content, be it brought or not. -/
  unheard : (w.run later).contentNews = w.contentNews

/-- A watch in which everything was stopped is still whatever happens later. -/
theorem still_run (numbered : w.Numbered) (stopped : w.stopped = true) (later : List Action) :
    Still w later := by
  induction later generalizing w with
  | nil =>
    exact {
      stopped := stopped
      pollers := fun id early late split pauses => by
        obtain ⟨rfl, rfl⟩ := List.append_eq_nil_iff.mp split.symm
        exact retires_act stopped pauses
      sweeper := act_sweeper_of_stopped stopped
      feeds := fun _ => silent_nil numbered (.inl stopped)
      unheard := rfl }
  | cons action rest ih =>
    have hrest := ih (numbered_act numbered action) (stopped_act numbered action stopped)
    have hunheard : (w.act action).contentNews = w.contentNews := by
      refine (contentNews_act numbered action).1 fun id => ?_
      have hsilent : Silent id w [action] := silent_run numbered (.inl stopped) [action]
      exact Option.toList_eq_nil_iff.mp (List.append_eq_nil_iff.mp hsilent.told).1
    exact {
      stopped := hrest.stopped
      pollers := fun id early late split pauses => by
        cases early with
        | nil => exact hrest.pollers id [] rest rfl (pauses_act numbered stopped pauses action)
        | cons first early =>
          obtain ⟨rfl, rfl⟩ := List.cons.inj split
          exact hrest.pollers id early late rfl pauses
      sweeper := hrest.sweeper
      feeds := fun _ => silent_run numbered (.inl stopped) (action :: rest)
      unheard := hrest.unheard.trans hunheard }

/-- Giving the watch up stops everything, unless errands hold it. Then it is held until they are
over, and once everything was stopped all is still. -/
theorem still_once_given_up (settings : Settings) (listeners : List Listener)
    (actions : List Action) :
    let w := (initial settings listeners).run actions
    ((w.act .release).stopped = true ↔
      w.stopped = true ∨ ∀ errand ∈ w.errands, errand.purpose.holds = false) ∧
    (w.held = false → w.stopped = false → ∃ errand ∈ w.errands, errand.purpose.holds = true) ∧
    (w.stopped = true → ∀ later, Still w later) := by
  intro w
  refine ⟨?_, fun given running => ?_,
    fun stopped later => still_run (numbered_run settings listeners actions) stopped later⟩
  · change w.release.stopped = true ↔ _
    unfold release reap isAlive
    dsimp only
    rw [Bool.false_or]
    split
    case isTrue hheld =>
      obtain ⟨errand, hmem, hholds⟩ := List.any_eq_true.mp hheld
      refine ⟨.inl, fun h => h.resolve_right fun hnone => ?_⟩
      rw [hnone errand hmem] at hholds
      cases hholds
    case isFalse hnone =>
      refine ⟨fun _ => .inr fun errand hmem => ?_, fun _ => rfl⟩
      exact Bool.eq_false_iff.mpr fun hholds => hnone (List.any_eq_true.mpr ⟨errand, hmem, hholds⟩)
  · have halive : w.isAlive = true :=
      (sound_run settings listeners actions).alive_of_running running
    rw [isAlive, given, Bool.false_or] at halive
    exact List.any_eq_true.mp halive

/-- A hint that is followed up while the owner gives the watch up holds it: nothing is stopped, and
the background poller goes on to fetch. -/
theorem fetches_on_of_hint_in_flight :
    let notes : DocumentKey := ⟨.uniform 7, "notes"⟩
    let network : Network := ⟨[⟨notes, 5, 5, none, none, []⟩], 0, 0⟩
    let w := ((initial .standard []).run [.setNetwork network,
      .subscribe notes "ann" { background := true }, .hint ⟨notes, 5⟩, .work (.errand 0)]).act
        .release
    w.held = false ∧ w.stopped = false ∧
      (w.pollers.map fun p => (w.isCancelled p, p.isRounding)) = [(false, false)] ∧
      w.fetches = [⟨.block, ⟨notes, 5⟩⟩] ∧
      (w.run (List.replicate 6 (.work (.poller 0)))).fetches =
        [⟨.block, ⟨notes, 5⟩⟩, ⟨.block, ⟨notes, 0⟩⟩] := by
  decide

/-- A watch that is given up while a hint is checked stops with the reply, and is still then. -/
theorem still_once_given_up_of_check :
    let notes : DocumentKey := ⟨.uniform 7, "notes"⟩
    let actions : List Action := [.setNetwork ⟨[], 3, 3⟩,
      .subscribe notes "ann" { background := true }, .check ⟨notes, 5⟩ "ann", .work (.errand 0),
      .release]
    let ended : List Action := actions ++ [.elapse 3, .work (.errand 0)]
    let w := (initial .standard []).run actions
    let v := (initial .standard []).run ended
    w.held = false ∧ w.stopped = false ∧
      (∃ errand ∈ w.errands, errand.purpose.holds = true) ∧
      v.stopped = true ∧ v.Pauses 0 ∧ Still v [.work (.poller 0), .elapse 9] := by
  intro notes actions ended w v
  obtain ⟨-, hholds, -⟩ := still_once_given_up .standard [] actions
  obtain ⟨-, -, hstill⟩ := still_once_given_up .standard [] ended
  have hheld : w.held = false := by decide
  have hrunning : w.stopped = false := by decide
  have hstopped : v.stopped = true := by decide
  have hpauses : v.Pauses 0 := by
    intro p hp
    have hnone : (v.pollers[0]?).map Poller.isRounding = some false := by decide
    rw [hp] at hnone
    exact Option.some.inj hnone
  exact ⟨hheld, hrunning, hholds hheld hrunning, hstopped, hpauses, hstill hstopped _⟩

/-! ## Shutting down -/

/-- The executor takes pollers as long as it is not told to refuse them. -/
theorem takes_act (numbered : w.Numbered) (takes : w.takes .poller = true)
    (accepts : ∀ kinds, action = .refuse kinds → .poller ∉ kinds) :
    (w.act action).takes .poller = true := by
  have hsame (refused : (w.act action).refused = w.refused) :
      (w.act action).takes .poller = true := by
    rw [Watch.takes, refused]
    exact takes
  cases houtside : action.isOutside with
  | false =>
    exact hsame ((effects_act numbered houtside).keep (P := fun v => v.refused = w.refused)
      (fun _ _ effect hv => (grows_effect effect).1.trans hv) rfl)
  | true =>
    cases action with
    | elapse span => exact hsame rfl
    | setNetwork network => exact hsame rfl
    | refuse kinds =>
      change (!kinds.contains JobKind.poller) = true
      simpa using accepts kinds rfl
    | _ => cases houtside

/-- Every run leaves a watch dormant that was so. -/
theorem dormant_run (sound : w.roster.Sound) (numbered : w.Numbered) (dormant : w.Dormant)
    (takes : w.takes .poller = true) {later : List Action}
    (accepts : ∀ kinds, .refuse kinds ∈ later → .poller ∉ kinds) : (w.run later).Dormant := by
  induction later generalizing w with
  | nil => exact dormant
  | cons action rest ih =>
    have htakes := takes_act numbered takes fun kinds he =>
      accepts kinds (List.mem_cons.mpr (.inl he.symm))
    exact ih (sound_act sound action) (numbered_act numbered action)
      (dormant_act sound numbered dormant takes action) htakes
      fun kinds hmem => accepts kinds (List.mem_cons_of_mem _ hmem)

/-- When no job is ready, the records of a dormant watch have no pollers. -/
theorem Dormant.not_stores (dormant : w.Dormant) (idle : w.readyJobs = []) (key : DocumentKey)
    (id : PollerId) : ¬w.roster.Stores key id := by
  intro hst
  obtain ⟨p, evicted, hp, hstage⟩ := dormant.submitted key id hst
  have hready := not_isPollerReady idle hp
  rw [isPollerReady, hstage] at hready
  cases hready

/-- Nothing is left of the pollers in the records once everything was shut down. -/
theorem dormant_shutdown (held : w.held = true) : (w.act .shutdown).Dormant := by
  rw [act_of_held held, perform, shutdown, cancelPollers_eq]
  exact ⟨rfl, fun key id hst => by rcases hst with hpool | hcache <;> contradiction⟩

/-- As long as someone holds a watch, its background pollers are counted. -/
theorem counts_run (settings : Settings) (listeners : List Listener) (actions : List Action) :
    ((initial settings listeners).run actions).roster.Counts := by
  obtain ⟨changes, hsteps, -⟩ := leads_run_anyhow (initial settings listeners) actions
  have hinitial : (initial settings listeners).roster.Counts := fun _ => rfl
  exact hinitial.steps hsteps

/-- A shutdown is final, whatever is called later and as long as the executor takes pollers: all
stays still, and whenever no job is ready the records have no pollers. By then as many background
pollers were stopped as were started, unless nobody holds the watch any more: a poller that finds
the watch gone is not counted. -/
theorem shutdown_is_final (settings : Settings) (listeners : List Listener)
    (actions later : List Action)
    (held : ((initial settings listeners).run actions).held = true)
    (takes : ((initial settings listeners).run actions).takes .poller = true)
    (accepts : ∀ kinds, .refuse kinds ∈ later → .poller ∉ kinds) :
    let w := ((initial settings listeners).run actions).act .shutdown
    let v := w.run later
    Still w later ∧
      (v.readyJobs = [] → v.records.pool.size = 0 ∧ v.records.cache.byUse.size = 0 ∧
        (v.isAlive = true →
          v.records.tally.backgroundStarted = v.records.tally.backgroundStopped)) := by
  intro w v
  let before := (initial settings listeners).run actions
  have hnumbered : before.Numbered := numbered_run settings listeners actions
  have hsound : before.roster.Sound := sound_run settings listeners actions
  have hw : w.Dormant := dormant_shutdown held
  have htakes : w.takes .poller = true := takes_act hnumbered takes fun _ he => by cases he
  have hv : v.Dormant :=
    dormant_run (sound_act hsound .shutdown) (numbered_act hnumbered .shutdown) hw htakes accepts
  refine ⟨still_run (numbered_act hnumbered .shutdown) hw.stopped later, fun idle => ?_⟩
  have hpool : v.records.pool.size = 0 := by
    refine KeyMap.size_eq_zero_of_get? fun key => ?_
    cases hentry : v.records.pool.get? key with
    | none => rfl
    | some entry =>
      refine absurd (.inl ?_) (hv.not_stores idle key entry.poller)
      change (v.records.pool.get? key).map PoolEntry.poller = some entry.poller
      rw [hentry]
      rfl
  have hcache : v.records.cache.byUse.size = 0 := by
    refine KeyMap.size_eq_zero_of_get? fun key => ?_
    cases hentry : v.records.cache.byUse.get? key with
    | none => rfl
    | some poller => exact absurd (.inr hentry) (hv.not_stores idle key poller)
  refine ⟨hpool, hcache, fun alive => ?_⟩
  have hcounts : v.roster.Counts := by
    change ((before.act .shutdown).run later).roster.Counts
    have h := counts_run settings listeners (actions ++ .shutdown :: later)
    rwa [run_append] at h
  have hbalanced : v.records.Balanced := hcounts alive
  rw [Records.Balanced, hpool, Nat.add_zero] at hbalanced
  exact hbalanced

/-- A poller that is about to fetch while everything is shut down still fetches. So does an errand
for content that had yet to begin, though it drops the fetch at once. And a poller that is made
later is never counted as stopped if the watch is given up before it begins. -/
theorem fetches_on_or_uncounted_after_shutdown :
    let notes : DocumentKey := ⟨.uniform 7, "notes"⟩
    let polling : List Action :=
      .subscribe notes "ann" { background := true } :: List.replicate 5 (.work (.poller 0))
    let w := ((initial .standard []).run polling).act .shutdown
    let retrieving : List Action :=
      [.subscribeContent notes "ann" false {}, .noteSlot ⟨notes, 1⟩, .work .delivery]
    let u := ((initial .standard []).run retrieving).act .shutdown
    let later : List Action :=
      [.subscribe notes "ann" { background := true }, .release, .work (.poller 0), .work .sweeper]
    let v := ((initial .standard []).act .shutdown).run later
    (w.fetches = [] ∧ (w.act (.work (.poller 0))).fetches = [⟨.block, ⟨notes, 0⟩⟩]) ∧
      (u.fetches = [] ∧ (u.act (.work (.errand 0))).fetches = [⟨.content, ⟨notes, 1⟩⟩] ∧
        (u.act (.work (.errand 0))).errands = []) ∧
      (∀ kinds, .refuse kinds ∈ later → .poller ∉ kinds) ∧ v.readyJobs = [] ∧
      v.records.tally.backgroundStarted = 1 ∧ v.records.tally.backgroundStopped = 0 := by
  intro notes polling w retrieving u later v
  have hdropped : (u.act (.work (.errand 0))).errands = [] := List.isEmpty_iff.mp (by decide)
  exact ⟨⟨by decide, by decide⟩, ⟨by decide, by decide, hdropped⟩, by simp [later], by decide,
    by decide, by decide⟩

/-- A poller that waits for a fetch is shut down, a second one is made later. Both are over in the
end, and counted. -/
theorem shutdown_is_final_of_late_subscriber :
    let notes : DocumentKey := ⟨.uniform 7, "notes"⟩
    let diary : DocumentKey := ⟨.uniform 7, "diary"⟩
    let actions : List Action :=
      [.setNetwork ⟨[], 3, 3⟩, .subscribe notes "ann" { background := true }] ++
        List.replicate 6 (.work (.poller 0))
    let later : List Action :=
      [.subscribe diary "ann" { background := true }, .elapse 3, .work (.poller 0),
        .work (.poller 1), .work .sweeper]
    let w := ((initial .standard []).run actions).act .shutdown
    let v := w.run later
    (w.pollers.map Poller.flight?).map Option.isSome = [true] ∧ w.Pauses 0 ∧ Still w later ∧
      v.readyJobs = [] ∧ v.isAlive = true ∧ v.records.pool.size = 0 ∧
      v.records.tally.backgroundStarted = v.records.tally.backgroundStopped ∧
      v.records.tally.backgroundStarted = 2 := by
  intro notes diary actions later
  have haccepts : ∀ kinds, .refuse kinds ∈ later → .poller ∉ kinds := by simp [later]
  obtain ⟨hstill, hidle⟩ :=
    shutdown_is_final .standard [] actions later (by decide) (by decide) haccepts
  obtain ⟨hpool, -, hcounted⟩ := hidle (by decide)
  have hpauses : (((initial .standard []).run actions).act .shutdown).Pauses 0 := by
    intro p hp
    have hwaits : (((initial .standard []).run actions).act .shutdown).pollers[0]?.map
        Poller.isRounding = some false := by decide
    rw [hp] at hwaits
    exact Option.some.inj hwaits
  exact ⟨by decide, hpauses, hstill, by decide, by decide, hpool, hcounted (by decide),
    by decide⟩

end Watch

end EditionWatch
