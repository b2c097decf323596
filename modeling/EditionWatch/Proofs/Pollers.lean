import EditionWatch.Proofs.Effects

/-!
# What a poller is told

Nobody but a poller itself carries on its work. Others send it commands and cancel it, whatever
they do, and a poller looks at its commands only when it rests. The hints among them it puts in
order, from the newest down, and so they are whenever a round begins.
-/

namespace EditionWatch

namespace Round

/-- Editions in order, from the newest down. -/
def Falls (hints : List Edition) : Prop := hints.Pairwise fun newer older => older < newer

/-- A hint that was added is among the hints, and no other is new. -/
theorem mem_addHint {e hint : Edition} {hints : List Edition} (h : hint ∈ addHint e hints) :
    hint = e ∨ hint ∈ hints := by
  induction hints with
  | nil => exact .inl (List.mem_singleton.mp h)
  | cons first rest ih =>
    rw [addHint] at h
    split at h
    · exact List.mem_cons.mp h
    · split at h
      · exact .inr h
      · rcases List.mem_cons.mp h with hfirst | hrest
        · exact .inr (List.mem_cons.mpr (.inl hfirst))
        · exact (ih hrest).imp_right (List.mem_cons_of_mem first)

/-- Hints stay in falling order when one is added. -/
theorem falls_addHint (e : Edition) {hints : List Edition} (h : Falls hints) :
    Falls (addHint e hints) := by
  induction hints with
  | nil => exact List.pairwise_singleton _ _
  | cons first rest ih =>
    obtain ⟨hfirst, hrest⟩ := List.pairwise_cons.mp h
    rw [addHint]
    split
    case isTrue hnewer =>
      refine List.pairwise_cons.mpr ⟨fun hint hm => ?_, h⟩
      rcases List.mem_cons.mp hm with rfl | hm
      · exact hnewer
      · exact UInt64.lt_trans (hfirst hint hm) hnewer
    case isFalse hnewer =>
      split
      · exact h
      case isFalse hother =>
        have holder : e < first :=
          UInt64.lt_of_le_of_ne (UInt64.not_lt.mp hnewer) fun he => hother he.symm
        refine List.pairwise_cons.mpr ⟨fun hint hm => ?_, ih hrest⟩
        rcases mem_addHint hm with rfl | hm
        · exact holder
        · exact hfirst hint hm

end Round

/-- The hints with which a round is about to begin. -/
def Poller.Stage.opening? : Poller.Stage → Option (List Edition)
  | .rounding (.opening hints) => some hints
  | .waiting (.opening hints) _ => some hints
  | _ => none

/-- The hints of a poller are in order, those for its next round and those with which a round is
about to begin. -/
structure Poller.Orderly (p : Poller) : Prop where
  next : Round.Falls p.hints
  opening : ∀ hints ∈ p.stage.opening?, Round.Falls hints

namespace Poller.Orderly

variable {p q : Poller}

/-- A poller that is told something stays orderly. -/
theorem told (h : p.Orderly) (told : p.IsTold q) : q.Orderly where
  next := told.hints ▸ h.next
  opening := told.stage ▸ h.opening

/-- A poller that goes on to a stage that does not begin a round. -/
theorem goes (h : p.Orderly) (next : q.hints = p.hints) (stage : q.stage.opening? = none) :
    q.Orderly where
  next := next ▸ h.next
  opening hints hm := by
    rw [stage] at hm
    cases hm

/-- A poller that begins a round takes its hints along and stays orderly. -/
theorem beginRound (h : p.Orderly) : p.beginRound.Orderly where
  next := .nil
  opening hints hm := by
    have hhints : p.hints = hints := Option.some.inj hm
    exact hhints ▸ h.next

/-- A poller that takes its commands stays orderly. -/
theorem takeCommands (h : p.Orderly) (settings : Settings) :
    (p.takeCommands settings).Orderly := by
  have hfold (commands : List Command) (q : Poller) (hq : Round.Falls q.hints) :
      Round.Falls (commands.foldl (apply settings) q).hints := by
    induction commands generalizing q with
    | nil => exact hq
    | cons command rest ih =>
      refine ih _ ?_
      cases command with
      | hint e => exact Round.falls_addHint e hq
      | pollForever => exact hq
  have hstage := (p.takeCommands_same settings).2.2
  exact ⟨hfold p.inbox p h.next, hstage ▸ h.opening⟩

end Poller.Orderly

namespace Watch

variable {actor : Option PollerId} {bearing : Bool} {v w : Watch} {id : PollerId} {p q : Poller}

/-! ## What others do to a poller -/

/-- An effect that is not a poller's own only tells it something. -/
theorem told_effect (effect : Effect actor bearing w v) (idle : actor ≠ some id)
    (found : w.pollers[id]? = some p) : ∃ q, v.pollers[id]? = some q ∧ p.IsTold q := by
  have hsame (pollers : v.pollers = w.pollers) : ∃ q, v.pollers[id]? = some q ∧ p.IsTold q :=
    ⟨p, pollers ▸ found, .refl p⟩
  cases effect with
  | alike _ same => exact hsame same.pollers
  | touch other change stage telling =>
    by_cases hid : other = id
    · subst hid
      rcases telling with hown | htold
      · exact absurd hown idle
      · exact ⟨change p, getElem?_modify_self found change, htold p⟩
    · refine ⟨p, ?_, .refl p⟩
      change (w.pollers.modify other change)[id]? = some p
      rw [List.getElem?_modify, found]
      exact congrArg some (if_neg hid)
  | advance other change acting free =>
    have hid : other ≠ id := fun he => idle (he ▸ acting)
    refine ⟨p, ?_, .refl p⟩
    change (w.pollers.modify other change)[id]? = some p
    rw [List.getElem?_modify, found]
    exact congrArg some (if_neg hid)
  | make made new hints inbox =>
    have hlt : id < w.pollers.length := (List.getElem?_eq_some_iff.mp found).1
    exact ⟨p, (List.getElem?_append_left hlt).trans found, .refl p⟩
  | pursue feed pursuing uri hfeed wants running =>
    obtain ⟨_, _, _, hs⟩ := submitErrand_eq
      { w with feeds := w.feeds.modify feed (·.pursue uri.edition) } .retrieval
      (.retrieval feed) uri
    exact hsame (by rw [hs])
  | _ => exact hsame rfl

/-- An action that is not a poller's own only tells it something. -/
theorem told_act (numbered : w.Numbered) {action : Action} (idle : action.actor? ≠ some id)
    (found : w.pollers[id]? = some p) :
    ∃ q, (w.act action).pollers[id]? = some q ∧ p.IsTold q := by
  cases houtside : action.isOutside with
  | true => exact ⟨p, (alike_act (w := w) houtside).pollers ▸ found, .refl p⟩
  | false =>
    have hkept := (effects_act numbered houtside).keep
      (P := fun v => ∃ q, v.pollers[id]? = some q ∧ p.IsTold q) ?_ ⟨p, found, .refl p⟩
    · exact hkept
    · intro u v effect hu
      obtain ⟨q, hq, htold⟩ := hu
      obtain ⟨r, hr, htold'⟩ := told_effect effect idle hq
      exact ⟨r, hr, htold.trans htold'⟩

/-! ## Hints in order -/

/-- The hints of one poller are in order. -/
def OrderlyAt (w : Watch) (id : PollerId) : Prop := ∀ p, w.pollers[id]? = some p → p.Orderly

theorem OrderlyAt.same (h : w.OrderlyAt id) (pollers : v.pollers = w.pollers) : v.OrderlyAt id :=
  fun p found => h p (pollers ▸ found)

/-- If one poller is changed, all stay orderly as long as that one does. -/
theorem OrderlyAt.modifyPoller (h : w.OrderlyAt id) (other : PollerId) {change : Poller → Poller}
    (keeps : ∀ p : Poller, p.Orderly → (change p).Orderly) :
    (w.modifyPoller other change).OrderlyAt id := by
  intro p found
  have hmodified : (w.pollers.modify other change)[id]? = some p := found
  rw [List.getElem?_modify] at hmodified
  obtain ⟨q, hq, rfl⟩ := Option.map_eq_some_iff.mp hmodified
  split
  · exact keeps q (h q hq)
  · exact h q hq

/-- A poller that goes on to a stage that does not begin a round keeps its hints. -/
theorem OrderlyAt.setStage (h : w.OrderlyAt id) {stage : Poller.Stage}
    (other : stage.opening? = none) : (w.setStage id stage).OrderlyAt id :=
  h.modifyPoller id fun _ hp => hp.goes rfl other

/-- A poller whose work is over has no hints to begin a round with. -/
theorem OrderlyAt.finishPoller (h : w.OrderlyAt id) : (w.finishPoller id).OrderlyAt id :=
  h.modifyPoller id fun _ hp => ⟨hp.next, fun _ hm => nomatch hm⟩

/-- Pollers that are cancelled stay orderly. -/
theorem OrderlyAt.cancelPollers (h : w.OrderlyAt id) (ids : List PollerId) :
    (w.cancelPollers ids).OrderlyAt id := by
  induction ids generalizing w with
  | nil => exact h
  | cons other rest ih => exact ih (h.modifyPoller other fun _ hp => hp.told (.cancel _))

/-- A poller that ends has neither hints nor commands left to be out of order. -/
theorem OrderlyAt.endPoller (h : w.OrderlyAt id) (key : DocumentKey) (cancelled : Bool) :
    (w.endPoller id key cancelled).watch.OrderlyAt id := by
  let ended : Watch := w.finishPoller id
  have hended : ended.OrderlyAt id := h.finishPoller
  let removed : Watch := { ended with records := ended.records.removePoller key id cancelled }
  have hremoved : removed.OrderlyAt id := hended.same rfl
  unfold Watch.endPoller
  dsimp only
  split
  · exact hremoved.modifyPoller id fun _ hp => hp.told (.cancel _)
  · exact hended

/-- A poller that takes a reply stays orderly. -/
theorem OrderlyAt.takeReply (h : w.OrderlyAt id) (key : DocumentKey) {round : Round}
    (falls : ∀ hints, round = .opening hints → Round.Falls hints) (reply : Reply) :
    (w.takeReply id key round reply).watch.OrderlyAt id := by
  let counted : Watch := { w with records := w.records.countVerdict reply.verdict }
  have hset (v : Watch) (round : Round) (hv : v.pollers = w.pollers)
      (other : (Poller.Stage.rounding round).opening? = none) :
      (v.setRound id round).watch.OrderlyAt id := (h.same hv).setStage other
  have hgone : (counted.abandon id).watch.OrderlyAt id :=
    OrderlyAt.finishPoller (w := counted) (h.same rfl)
  unfold Watch.takeReply
  cases round with
  | opening hints =>
    refine h.modifyPoller id fun p hp => ⟨hp.next, fun other hm => ?_⟩
    rw [← Option.some.inj hm]
    exact falls hints rfl
  | askingHint e hints =>
    dsimp only
    split
    · split
      · exact hset _ _ (pollers_noteSlot counted _) rfl
      · exact hgone
    · exact hset counted _ rfl rfl
  | asking raised e misses probes =>
    dsimp only
    split
    · split
      · exact hset _ _ (pollers_noteSlot counted _) rfl
      · exact hgone
    · exact hset counted _ rfl rfl
  | fetching slot =>
    dsimp only
    split
    · exact hset _ _ (pollers_noteGood w _) rfl
    · exact hset w _ rfl rfl
  | _ => exact hset w _ rfl rfl

/-- A poller that sends a request waits for the reply to it. -/
theorem OrderlyAt.sendRequest (h : w.OrderlyAt id) (key : DocumentKey) {round : Round}
    {request : Request} (asks : round.request? key = some request) :
    (w.sendRequest id key round request).watch.OrderlyAt id := by
  have hissued : (w.issue request).watch.OrderlyAt id := h.same (pollers_issue w request)
  unfold Watch.sendRequest
  dsimp only
  split
  · refine hissued.takeReply key (fun hints hround => ?_) _
    rw [hround] at asks
    cases asks
  · refine hissued.setStage ?_
    cases round <;> first | rfl | cases asks

/-- A poller that closes a round stays orderly. -/
theorem OrderlyAt.closeRound (h : w.OrderlyAt id) (p : Poller) (found : Bool) :
    (w.closeRound id p found).watch.OrderlyAt id := by
  let counted : Watch := { w with records := w.records.countRound }
  let closed : Watch := counted.modifyPoller id fun p => { p with rounds := p.rounds + 1 }
  let told : Watch := { closed with records := closed.records.finishRound p.key }
  have hclosed : closed.OrderlyAt id :=
    (h.same (v := counted) rfl).modifyPoller id fun _ hp => ⟨hp.next, hp.opening⟩
  have htold : told.flush.OrderlyAt id := hclosed.same (pollers_flush told)
  unfold Watch.closeRound
  change (if closed.isAlive then _ else closed.abandon id).watch.OrderlyAt id
  split
  · dsimp only
    split
    · exact htold.setStage rfl
    · split
      · exact htold.finishPoller
      case h_2 pause _ =>
        let paused : Watch := told.flush.modifyPoller id fun p => { p with backoff := pause.next }
        have hpaused : paused.OrderlyAt id :=
          htold.modifyPoller id fun _ hp => ⟨hp.next, hp.opening⟩
        exact hpaused.setStage rfl
  · exact hclosed.finishPoller

/-- A poller that takes a step in its round stays orderly. -/
theorem OrderlyAt.stepRound (h : w.OrderlyAt id) (p : Poller) (round : Round) :
    (w.stepRound id p round).watch.OrderlyAt id := by
  unfold Watch.stepRound
  cases round with
  | opening hints =>
    dsimp only
    split
    · exact h.setStage rfl
    · exact h.finishPoller
  | hinting hints =>
    cases hints with
    | nil => exact h.setStage rfl
    | cons e hints =>
      dsimp only
      split
      · refine h.setStage ?_
        unfold Round.tryHint
        split <;> rfl
      · exact h.finishPoller
  | aligning raised =>
    dsimp only
    split
    · exact h.setStage rfl
    · exact h.finishPoller
  | walking raised e misses probes =>
    refine h.setStage ?_
    unfold Round.proceed
    split
    · rfl
    · split <;> rfl
  | confirming =>
    refine h.setStage ?_
    split
    · unfold Round.confirm
      split
      · rfl
      · split <;> rfl
    · rfl
  | «over» raised => exact h.closeRound p raised
  | askingHint e hints => exact h.sendRequest p.key rfl
  | asking raised e misses probes => exact h.sendRequest p.key rfl
  | fetching slot => exact h.sendRequest p.key rfl

/-- A turn of a poller leaves its hints in order. -/
theorem OrderlyAt.stepPoller (h : w.OrderlyAt id) : (w.stepPoller id).watch.OrderlyAt id := by
  unfold Watch.stepPoller
  cases hfound : w.pollers[id]? with
  | none => exact h
  | some p =>
    dsimp only
    cases hstage : p.stage with
    | submitted evicted =>
      have hrests : (w.setStage id (.resting none)).OrderlyAt id := h.setStage rfl
      have hbegun := hrests.cancelPollers evicted
      dsimp only
      split
      · exact hbegun.endPoller p.key true
      · exact hbegun.modifyPoller id fun _ hp => hp.beginRound
    | rounding round => exact h.stepRound p round
    | waiting round flight =>
      dsimp only
      split
      · exact h.endPoller p.key true
      · split
        · exact h
        · refine h.takeReply p.key (fun hints hround => (h p hfound).opening hints ?_) _
          rw [hstage, hround]
          rfl
    | resting wake =>
      dsimp only
      split
      · exact h.endPoller p.key true
      · split
        · exact (h.modifyPoller id fun _ hp => hp.takeCommands w.settings).modifyPoller id
            fun _ hp => hp.beginRound
        · split
          · exact h.endPoller p.key false
          · split
            · exact h.modifyPoller id fun _ hp => hp.beginRound
            · exact h
    | ended => exact h

/-- An effect that is not a poller's own leaves its hints in order, and a new poller has none. -/
theorem OrderlyAt.effect (h : w.OrderlyAt id) (effect : Effect actor bearing w v)
    (idle : actor ≠ some id) : v.OrderlyAt id := by
  intro q hq
  cases hfound : w.pollers[id]? with
  | some p =>
    obtain ⟨r, hr, htold⟩ := told_effect effect idle hfound
    exact Option.some.inj (hr.symm.trans hq) ▸ (h p hfound).told htold
  | none =>
    have hmodify (other : PollerId) (change : Poller → Poller) :
        ¬(w.pollers.modify other change)[id]? = some q := by
      rw [List.getElem?_modify, hfound]
      exact Option.some_ne_none q ∘ Eq.symm
    have hsame (pollers : v.pollers = w.pollers) : q.Orderly := by
      rw [pollers, hfound] at hq
      cases hq
    cases effect with
    | alike _ same => exact hsame same.pollers
    | touch other change stage telling => exact absurd hq (hmodify other change)
    | advance other change acting free => exact absurd hq (hmodify other change)
    | make made new hints inbox =>
      rcases Roster.getElem?_concat_cases hq with hold | ⟨-, rfl⟩
      · exact h q hold
      · refine ⟨hints ▸ .nil, fun given hm => ?_⟩
        rcases new with ⟨evicted, hstage⟩ | ⟨-, hstage⟩ <;> rw [hstage] at hm <;> cases hm
    | pursue feed pursuing uri hfeed wants running =>
      obtain ⟨_, _, _, hs⟩ := submitErrand_eq
        { w with feeds := w.feeds.modify feed (·.pursue uri.edition) } .retrieval
        (.retrieval feed) uri
      exact hsame (by rw [hs])
    | _ => exact hsame rfl

/-- A poller that wakes begins a round with its hints in order. -/
theorem OrderlyAt.wake (h : w.OrderlyAt id) (other : PollerId) : (w.wake other).OrderlyAt id := by
  rcases w.wake_cases other with hsame | ⟨-, -, -, -, -, -, hbegins⟩
  · rw [hsame]
    exact h
  · rw [hbegins]
    exact h.modifyPoller other fun _ hp => hp.beginRound

/-- Whatever happens, pollers stay orderly. -/
theorem OrderlyAt.act (h : w.OrderlyAt id) (numbered : w.Numbered) (action : Action) :
    (w.act action).OrderlyAt id := by
  by_cases hidle : action.actor? = some id
  · rcases own_of_actor? hidle with rfl | rfl | rfl
    · exact h.stepPoller
    · exact h.wake id
    · change (w.crash (.poller id)).OrderlyAt id
      unfold Watch.crash
      dsimp only
      split
      · exact h.finishPoller
      · exact h
  · cases houtside : action.isOutside with
    | true => exact h.same (alike_act houtside).pollers
    | false =>
      exact (effects_act numbered houtside).keep (P := fun v => v.OrderlyAt id)
        (fun _ _ effect hu => hu.effect effect hidle) h

/-- The hints of all pollers are in order, whatever happened. -/
theorem orderly_run (settings : Settings) (listeners : List Listener) (actions : List Action)
    (id : PollerId) : ((initial settings listeners).run actions).OrderlyAt id := by
  have hrun (w : Watch) (numbered : w.Numbered) (h : w.OrderlyAt id) :
      (w.run actions).OrderlyAt id := by
    induction actions generalizing w with
    | nil => exact h
    | cons action rest ih => exact ih _ (numbered_act numbered action) (h.act numbered action)
  exact hrun _ (numbered_run settings listeners []) fun _ hp => by cases hp

end Watch

end EditionWatch
