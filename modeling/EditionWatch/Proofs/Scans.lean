import EditionWatch.Proofs.Grounds
import EditionWatch.Proofs.Lookups
import EditionWatch.Proofs.Pollers
import EditionWatch.Proofs.Rounds

/-!
# Rounds as they are played

A poller plays its round in turns, and between them anything else may happen. Each of its turns is a
move of the round, or issues the fetch that belongs to the next move and waits for the reply; what
others do makes no move as long as it leaves alone what is known of the document, and the network.
So wherever a poller is found in its round, it is on the way from the beginning of the round to what
every such round comes to, with just the fetches issued that go with it; and from there it needs
only turns of its own and time.
-/

namespace EditionWatch

/-- Nothing is seen when the delivery job is submitted. -/
theorem Watch.journal_flush (w : Watch) : w.flush.journal = w.journal := by
  unfold flush submitJob
  split
  · split <;> rfl
  · rfl

/-- To issue a fetch, even one that takes the watch away, changes nothing that is known. -/
theorem Watch.frontier_issue (w : Watch) (request : Request) (key : DocumentKey) :
    (w.issue request).watch.records.frontier key = w.records.frontier key := by
  have hlast (v : Watch) :
      (if v.network.releases request then v.release else v).records.frontier key =
        v.records.frontier key := by
    split
    · unfold release reap
      split <;> rfl
    · rfl
  unfold issue
  cases request.kind with
  | block => exact hlast _
  | content => exact hlast _

/-- A stage that closes a round is that of a round that is over. -/
theorem Poller.Stage.eq_of_closes? {stage : Poller.Stage} {raised : Bool}
    (h : stage.closes? = some raised) : stage = .rounding (.over raised) := by
  cases stage with
  | rounding round =>
    cases round <;> cases h
    rfl
  | _ => cases h

/-- A poller that waits for nothing and has hints to begin with is about to begin. -/
theorem Poller.eq_of_opening? {p : Poller} {hints : List Edition}
    (h : p.stage.opening? = some hints) (idle : p.flight?.isSome = false) :
    p.stage = .rounding (.opening hints) := by
  rw [flight?] at idle
  cases hstage : p.stage with
  | rounding round =>
    rw [hstage] at h
    cases round <;> cases h
    rfl
  | waiting round flight =>
    rw [hstage] at idle
    cases idle
  | _ =>
    rw [hstage] at h
    cases h

namespace Course

variable {c : Course} {s : Round.Progress} {frontier : Frontier} {stopped : Bool}
  {made issued : List Request} {request : Request} {w : Watch} {id : PollerId} {p : Poller}

/-! ## What a poller sees -/

/-- What a watch shows to the poller: what is known of the document, what was fetched by now, and
what does not change. -/
structure Sees (c : Course) (frontier : Frontier) (stopped : Bool) (made : List Request)
    (w : Watch) : Prop where
  shows : c.Shows frontier.slot stopped w
  good : (w.records.frontier c.key).good = frontier.good
  fetches : w.fetches = made

namespace Sees

/-- The frontier of the document is the one that is seen. -/
theorem frontier_eq (h : c.Sees frontier stopped made w) :
    w.records.frontier c.key = frontier := by
  have hparts : w.records.frontier c.key =
      ⟨(w.records.frontier c.key).slot, (w.records.frontier c.key).good⟩ := rfl
  rw [hparts, h.shows.slot, h.good]

theorem modifyPoller (h : c.Sees frontier stopped made w) (id : PollerId)
    (change : Poller → Poller) : c.Sees frontier stopped made (w.modifyPoller id change) :=
  ⟨h.shows.modifyPoller id change, h.good, h.fetches⟩

/-- To submit the delivery job does not change what is seen. -/
theorem flush (h : c.Sees frontier stopped made w) : c.Sees frontier stopped made w.flush := by
  refine ⟨h.shows.flush, ?_, ?_⟩
  · rw [Watch.frontier_flush]
    exact h.good
  · rw [Watch.fetches, Watch.journal_flush]
    exact h.fetches

theorem countVerdict (h : c.Sees frontier stopped made w) (verdict : Verdict) :
    c.Sees frontier stopped made { w with records := w.records.countVerdict verdict } := by
  refine ⟨h.shows.countVerdict verdict, ?_, h.fetches⟩
  cases verdict <;> exact h.good

/-- What is known of the document has changed. -/
theorem update (h : c.Sees frontier stopped made w) {r : Records} {raised : Frontier}
    (is : r.frontier c.key = raised) :
    c.Sees raised stopped made { w with records := r } where
  shows := ⟨h.shows.settings, h.shows.network, h.shows.alive, congrArg Frontier.slot is,
    h.shows.stopped⟩
  good := congrArg Frontier.good is
  fetches := h.fetches

/-- A slot that is noted is seen in the frontier. -/
theorem noteSlot (h : c.Sees frontier stopped made w) (e : Edition) :
    c.Sees { frontier with slot := raised frontier.slot e } stopped made
      (w.noteSlot ⟨c.key, e⟩) := by
  refine flush (w := { w with records := w.records.noteSlot w.now ⟨c.key, e⟩ }) (h.update ?_)
  rw [Records.frontier_noteSlot, if_pos rfl, h.frontier_eq]

theorem noteGood (h : c.Sees frontier stopped made w)
    (sound : ∀ key, (w.records.frontier key).Sound) (e : Edition) :
    c.Sees ⟨raised frontier.slot e, raised frontier.good e⟩ stopped made
      (w.noteGood ⟨c.key, e⟩) := by
  refine flush (w := { w with records := w.records.noteGood w.now ⟨c.key, e⟩ }) (h.update ?_)
  rw [Records.frontier_noteGood sound, if_pos rfl, h.frontier_eq]

/-- A fetch that is issued is seen as the last one. -/
theorem issue (h : c.Sees frontier stopped made w)
    (keeps : c.network.releases request = false) :
    c.Sees frontier stopped (made ++ [request]) (w.issue request).watch := by
  refine ⟨h.shows.issue keeps, ?_, ?_⟩
  · rw [Watch.frontier_issue]
    exact h.good
  · rw [Watch.fetches_issue, h.fetches]

end Sees

/-! ## What a turn makes of a round -/

/-- The round of a poller has come to a point, and the poller has nothing to wait for. -/
structure Lands (c : Course) (id : PollerId) (p : Poller) (stopped : Bool) (made : List Request)
    (s : Round.Progress) (w : Watch) : Prop where
  sees : c.Sees s.frontier stopped made w
  poller : w.pollers[id]? = some { p with stage := .rounding s.round }

/-- The round of a poller has come to a point, and the poller waits for the reply to the fetch that
belongs to the next move. -/
structure Waits (c : Course) (id : PollerId) (p : Poller) (stopped : Bool) (made : List Request)
    (s : Round.Progress) (flight : Flight) (request : Request) (w : Watch) : Prop where
  sees : c.Sees s.frontier stopped made w
  poller : w.pollers[id]? = some { p with stage := .waiting s.round flight }
  asks : s.round.request? c.key = some request
  replies : flight.reply = c.network.reply request

/-- A poller that goes on lands where its round moves to. -/
theorem lands_setRound (sees : c.Sees s.frontier stopped made w) (found : w.pollers[id]? = some p) :
    c.Lands id p stopped made s (w.setRound id s.round).watch :=
  ⟨sees.modifyPoller id _, Watch.getElem?_modify_self found _⟩

/-- A poller that takes the reply to its fetch makes a move. -/
theorem lands_takeReply (sees : c.Sees s.frontier stopped made w)
    (sound : ∀ key, (w.records.frontier key).Sound) (found : w.pollers[id]? = some p)
    (asks : s.round.request? c.key = some request) {reply : Reply}
    (replies : c.network.reply request = some reply) :
    c.Lands id p stopped made (c.move s) (w.takeReply id c.key s.round reply).watch := by
  obtain ⟨round, frontier, fetches⟩ := s
  have hraises (e : Edition) (records : Records) (h : records.frontier c.key = frontier) :
      records.raisesSlot ⟨c.key, e⟩ = isAbove e frontier.slot := by
    rw [Records.raisesSlot, h]
  let counted : Watch := { w with records := w.records.countVerdict reply.verdict }
  have hcounted : c.Sees frontier stopped made counted := sees.countVerdict reply.verdict
  have hnoted (e : Edition) : (counted.noteSlot ⟨c.key, e⟩).pollers[id]? = some p := by
    rw [Watch.pollers_noteSlot]
    exact found
  unfold Watch.takeReply
  cases round with
  | askingHint e hints =>
    cases asks
    dsimp only
    split
    case isTrue hpresent =>
      have hholds : c.holds e = true := (verdict_eq_present_iff replies).mp hpresent
      rw [if_pos hcounted.shows.alive, hraises e _ hcounted.frontier_eq,
        move_askingHint_of_present hholds]
      exact lands_setRound (hcounted.noteSlot e) (hnoted e)
    case isFalse hpresent =>
      have hholds : c.holds e = false :=
        Bool.eq_false_iff.mpr (mt (verdict_eq_present_iff replies).mpr hpresent)
      rw [move_askingHint_of_absent hholds]
      exact lands_setRound hcounted found
  | asking raised e misses probes =>
    cases asks
    dsimp only
    split
    case isTrue hpresent =>
      have hholds : c.holds e = true := (verdict_eq_present_iff replies).mp hpresent
      rw [if_pos hcounted.shows.alive, hraises e _ hcounted.frontier_eq,
        move_asking_of_present hholds]
      exact lands_setRound (hcounted.noteSlot e) (hnoted e)
    case isFalse hpresent =>
      have hholds : c.holds e = false :=
        Bool.eq_false_iff.mpr (mt (verdict_eq_present_iff replies).mpr hpresent)
      rw [move_asking_of_absent hholds]
      exact lands_setRound hcounted found
  | fetching e =>
    cases asks
    have hbrings : c.brings e = decide (reply = .data) := by
      refine decide_eq_decide.mpr ?_
      rw [replies, Option.some.injEq]
    have hmove : c.move ⟨.fetching e, frontier, fetches⟩ = ⟨.over true,
        if c.brings e then ⟨raised frontier.slot e, raised frontier.good e⟩ else frontier,
        fetches ++ [c.content e]⟩ := rfl
    dsimp only
    rw [hmove, hbrings, sees.shows.alive, Bool.and_true]
    cases decide (reply = .data) with
    | true =>
      have hfound : (w.noteGood ⟨c.key, e⟩).pollers[id]? = some p := by
        rw [Watch.pollers_noteGood]
        exact found
      exact lands_setRound (sees.noteGood sound e) hfound
    | false => exact lands_setRound sees found
  | _ => cases asks

/-- What a turn does in a round that is not over: it makes the next move, or it issues the fetch
that belongs to it and waits. -/
inductive Plays (c : Course) (id : PollerId) (p : Poller) (stopped : Bool) (made : List Request)
    (s : Round.Progress) (v : Watch) : Prop where
  | moves (lands : c.Lands id p stopped (made ++ (s.round.request? c.key).toList) (c.move s) v)
  | waits (flight : Flight) (request : Request)
      (waits : c.Waits id p stopped (made ++ [request]) s flight request v)

/-- A turn that issues a fetch makes the next move if the reply is there at once, else the poller
waits for it. -/
theorem plays_sendRequest (sees : c.Sees s.frontier stopped made w)
    (sound : ∀ key, (w.records.frontier key).Sound) (found : w.pollers[id]? = some p)
    (asks : s.round.request? c.key = some request) (keeps : c.network.releases request = false) :
    c.Plays id p stopped made s (w.sendRequest id c.key s.round request).watch := by
  let v := (w.sendRequest id c.key s.round request).watch
  change c.Plays id p stopped made s v
  have hissued : c.Sees s.frontier stopped (made ++ [request]) (w.issue request).watch :=
    sees.issue keeps
  have hfound : (w.issue request).watch.pollers[id]? = some p := by
    rw [Watch.pollers_issue]
    exact found
  have hreply : (w.issue request).flight.reply = c.network.reply request := by
    rw [← sees.shows.network]
    rfl
  have hsound (key : DocumentKey) : ((w.issue request).watch.records.frontier key).Sound := by
    rw [Watch.frontier_issue]
    exact sound key
  cases hanswer : (w.issue request).flight.answer w.now with
  | some reply =>
    have hv : v = ((w.issue request).watch.takeReply id c.key s.round reply).watch := by
      simp only [v, Watch.sendRequest, hanswer]
    have hreplies := hreply.symm.trans (Flight.reply_of_answer hanswer)
    refine .moves ?_
    rw [hv, asks]
    exact lands_takeReply hissued hsound hfound asks hreplies
  | none =>
    have hv : v = (w.issue request).watch.setStage id
        (.waiting s.round (w.issue request).flight) := by
      simp only [v, Watch.sendRequest, hanswer]
    rw [hv]
    exact .waits _ request
      ⟨hissued.modifyPoller id _, Watch.getElem?_modify_self hfound _, asks, hreply⟩

/-- A turn in a round that is not over plays the next move. -/
theorem plays_stepRound (sees : c.Sees s.frontier stopped made w)
    (sound : ∀ key, (w.records.frontier key).Sound) (found : w.pollers[id]? = some p)
    (key : p.key = c.key) (origin : p.origin = c.origin)
    (going : (Poller.Stage.rounding s.round).closes? = none)
    (keeps : ∀ request, request.uri.key = c.key → c.network.releases request = false) :
    c.Plays id p stopped made s (w.stepRound id p s.round).watch := by
  obtain ⟨round, frontier, fetches⟩ := s
  have hfrontier : w.records.frontier c.key = frontier := sees.frontier_eq
  -- a move without a fetch
  have hquiet (t : Round.Progress) (move : c.move ⟨round, frontier, fetches⟩ = t)
      (same : t.frontier = frontier) (quiet : round.request? c.key = none) :
      c.Plays id p stopped made ⟨round, frontier, fetches⟩ (w.setRound id t.round).watch := by
    refine .moves ?_
    rw [move, quiet, Option.toList_none, List.append_nil]
    exact lands_setRound (same ▸ sees) found
  unfold Watch.stepRound
  rw [key, hfrontier]
  cases round with
  | opening hints =>
    dsimp only
    rw [if_pos sees.shows.alive]
    exact hquiet _ rfl rfl rfl
  | hinting hints =>
    cases hints with
    | nil => exact hquiet _ rfl rfl rfl
    | cons e hints =>
      dsimp only
      rw [if_pos sees.shows.alive]
      exact hquiet _ rfl rfl rfl
  | aligning raised =>
    dsimp only
    rw [if_pos sees.shows.alive, origin]
    exact hquiet _ rfl rfl rfl
  | walking raised e misses probes =>
    dsimp only
    rw [sees.shows.settings]
    exact hquiet _ rfl rfl rfl
  | confirming =>
    dsimp only
    rw [if_pos sees.shows.alive]
    exact hquiet _ rfl rfl rfl
  | askingHint e hints => exact plays_sendRequest sees sound found rfl (keeps _ rfl)
  | asking raised e misses probes => exact plays_sendRequest sees sound found rfl (keeps _ rfl)
  | fetching e => exact plays_sendRequest sees sound found rfl (keeps _ rfl)
  | «over» raised => cases going

end Course

/-! ## What is done along with a round -/

namespace Watch

variable {w v : Watch} {id : PollerId} {p : Poller} {action : Action}

/-- The work of a poller is over. -/
def HasEnded (w : Watch) (id : PollerId) : Prop :=
  ∃ p, w.pollers[id]? = some p ∧ p.stage = .ended

/-- What a poller fetches in an action: what is fetched in its turn. -/
def fetchesIn (w : Watch) (id : PollerId) : Action → List Request
  | .work (.poller other) =>
    if other = id then (w.act (.work (.poller other))).fetches.drop w.fetches.length else []
  | _ => []

/-- In the turn of another, a poller fetches nothing. -/
theorem fetchesIn_of_ne (h : action ≠ .work (.poller id)) : w.fetchesIn id action = [] := by
  cases action with
  | work job =>
    cases job with
    | poller other =>
      refine if_neg fun he => h ?_
      rw [he]
    | _ => rfl
  | _ => rfl

/-- What a poller fetches along some actions, in order. -/
def fetchesBy (w : Watch) (id : PollerId) : List Action → List Request
  | [] => []
  | action :: rest => w.fetchesIn id action ++ (w.act action).fetchesBy id rest

/-- What is known of a document stays as it is, and so does the network, and the watch is held. -/
structure Leaves (w : Watch) (key : DocumentKey) (v : Watch) : Prop where
  frontier : v.records.frontier key = w.records.frontier key
  network : v.network = w.network
  alive : v.isAlive = true

/-- Along some actions, a poller takes turns, and nothing else has to do with what it sees. It may
be told whatever there is to tell, be cancelled and break down. -/
def Unimpeded (w : Watch) (id : PollerId) (key : DocumentKey) : List Action → Prop
  | [] => True
  | action :: rest =>
    (action = .work (.poller id) ∨ w.Leaves key (w.act action)) ∧
      (w.act action).Unimpeded id key rest

/-- Nothing but turns of the poller impedes nothing. -/
theorem unimpeded_turns (w : Watch) (id : PollerId) (key : DocumentKey) (n : Nat) :
    w.Unimpeded id key (List.replicate n (.work (.poller id))) := by
  induction n generalizing w with
  | zero => trivial
  | succ n ih => exact ⟨.inl rfl, ih _⟩

/-- What a run makes of a watch that arises arises as well. -/
theorem Arises.run {settings : Settings} (h : w.Arises settings) (actions : List Action) :
    (w.run actions).Arises settings := by
  obtain ⟨listeners, earlier, rfl⟩ := h
  exact ⟨listeners, earlier ++ actions, run_append _ _ _⟩

/-- What an action makes of a watch that arises arises as well. -/
theorem Arises.act {settings : Settings} (h : w.Arises settings) (action : Action) :
    (w.act action).Arises settings := h.run [action]

theorem Arises.numbered {settings : Settings} (h : w.Arises settings) : w.Numbered := by
  obtain ⟨listeners, actions, rfl⟩ := h
  exact numbered_run settings listeners actions

/-- Frontiers are sound in every watch that arises. -/
theorem Arises.frontier_sound {settings : Settings} (h : w.Arises settings) (key : DocumentKey) :
    (w.records.frontier key).Sound := by
  obtain ⟨listeners, actions, rfl⟩ := h
  obtain ⟨history, hpeaks⟩ := peaks_run settings listeners actions
  exact hpeaks.sound key

/-- No action changes the settings. -/
theorem settings_act (w : Watch) (action : Action) : (w.act action).settings = w.settings :=
  settings_run w [action]

/-- A poller that is over does nothing in its turn. -/
theorem act_ended (found : w.pollers[id]? = some p) (stage : p.stage = .ended) :
    w.act (.work (.poller id)) = w := by
  change (w.stepPoller id).watch = w
  unfold stepPoller
  rw [found]
  simp only [stage]

/-- A poller that breaks down ends; it cannot unless it waits. -/
theorem crash_cases (found : w.pollers[id]? = some p) :
    w.act (.crash (.poller id)) = w ∨ (w.act (.crash (.poller id))).HasEnded id := by
  change w.crash (.poller id) = w ∨ (w.crash (.poller id)).HasEnded id
  unfold crash
  dsimp only
  split
  · exact .inr ⟨_, getElem?_modify_self found _, rfl⟩
  · exact .inl rfl

/-- What has ended does not begin again. -/
theorem HasEnded.act (h : w.HasEnded id) (numbered : w.Numbered) (action : Action) :
    (w.act action).HasEnded id := by
  have hended := h
  obtain ⟨p, hp, hstage⟩ := h
  by_cases hidle : action.actor? = some id
  · rcases own_of_actor? hidle with rfl | rfl | rfl
    · rw [act_ended hp hstage]
      exact hended
    · have hsame : w.act (.wake id) = w :=
        wake_of_not_resting hp fun due => by rw [hstage]; exact Poller.Stage.noConfusion
      rw [hsame]
      exact hended
    · rcases crash_cases hp with hsame | hcrash
      · rw [hsame]
        exact hended
      · exact hcrash
  · obtain ⟨q, hq, htold⟩ := told_act numbered hidle hp
    exact ⟨q, hq, htold.stage.trans hstage⟩

end Watch

namespace Course

variable {c : Course} {s t : Round.Progress} {issued : List Request} {w v : Watch}
  {id : PollerId} {p : Poller} {action : Watch.Action} {settings : Settings}

/-! ## On the way to the end of a round -/

/-- The work of a poller whose round has come to a point, with these fetches issued. -/
inductive IsAt (c : Course) (s : Round.Progress) : List Request → Poller.Stage → Prop where
  | rounding : IsAt c s s.fetches (.rounding s.round)
  | waiting (flight : Flight) (request : Request) (asks : s.round.request? c.key = some request)
      (replies : flight.reply = c.network.reply request) :
      IsAt c s (s.fetches ++ [request]) (.waiting s.round flight)

/-- A poller that is in a round is where this round has come to. -/
theorem IsAt.eq_of_rounding {round : Round} (h : c.IsAt s issued (.rounding round)) :
    round = s.round ∧ issued = s.fetches := by
  cases h
  exact ⟨rfl, rfl⟩

/-- A poller in its round does not rest. -/
theorem IsAt.ne_resting {stage : Poller.Stage} (h : c.IsAt s issued stage)
    (due : Option Instant) : stage ≠ .resting due := by
  cases h <;> exact Poller.Stage.noConfusion

/-- The round of a poller has come to a point, with these fetches issued. -/
structure Reaches (c : Course) (id : PollerId) (s : Round.Progress) (issued : List Request)
    (w : Watch) : Prop where
  sees : c.Sees s.frontier w.stopped w.fetches w
  poller : ∃ p, w.pollers[id]? = some p ∧ p.key = c.key ∧ p.origin = c.origin ∧
    c.IsAt s issued p.stage

/-- A poller that lands somewhere has reached this place. -/
theorem Lands.reaches {stopped : Bool} {made : List Request} (h : c.Lands id p stopped made s w)
    (key : p.key = c.key) (origin : p.origin = c.origin) : c.Reaches id s s.fetches w where
  sees := by
    rw [h.sees.shows.stopped, h.sees.fetches]
    exact h.sees
  poller := ⟨_, h.poller, key, origin, .rounding⟩

/-- A poller that waits for a reply has reached the request. -/
theorem Waits.reaches {stopped : Bool} {made : List Request} {flight : Flight} {request : Request}
    (h : c.Waits id p stopped made s flight request w) (key : p.key = c.key)
    (origin : p.origin = c.origin) : c.Reaches id s (s.fetches ++ [request]) w where
  sees := by
    rw [h.sees.shows.stopped, h.sees.fetches]
    exact h.sees
  poller := ⟨_, h.poller, key, origin, .waiting flight request h.asks h.replies⟩

/-- A turn of a poller in its round: it ends, or the round is where it was or one move further. -/
theorem Reaches.turn (h : c.Reaches id s issued w)
    (sound : ∀ key, (w.records.frontier key).Sound)
    (silent : w.closing? id (.work (.poller id)) = none)
    (keeps : ∀ request, request.uri.key = c.key → c.network.releases request = false) :
    let v := w.act (.work (.poller id))
    v.HasEnded id ∨ ∃ t new, (t = s ∨ t = c.move s) ∧ v.fetches = w.fetches ++ new ∧
      c.Reaches id t (issued ++ new) v := by
  intro v
  have hreaches := h
  obtain ⟨hsees, p, hp, hkey, horigin, hat⟩ := h
  rw [Watch.closing?_of_turn hp, Option.map_eq_none_iff] at silent
  cases hstage : p.stage with
  | rounding round =>
    rw [hstage] at hat silent
    cases hat with
    | rounding =>
      have hv : v = (w.stepRound id p s.round).watch := act_rounding hp hstage
      have hplays := plays_stepRound hsees sound hp hkey horigin silent keeps
      rw [← hv] at hplays
      cases hplays with
      | moves lands =>
        refine .inr ⟨c.move s, _, .inr rfl, lands.sees.fetches, ?_⟩
        rw [← fetches_move]
        exact lands.reaches hkey horigin
      | waits flight request waits =>
        exact .inr ⟨s, [request], .inl rfl, waits.sees.fetches, waits.reaches hkey horigin⟩
  | waiting round flight =>
    rw [hstage] at hat
    cases hat with
    | waiting _ request asks replies =>
      cases hawake : w.isCancelled p with
      | true =>
        have hv : v = (w.endPoller id p.key true).watch := by
          change (w.stepPoller id).watch = _
          unfold Watch.stepPoller
          rw [hp]
          simp only [hstage, hawake, if_true]
        obtain ⟨-, marked, hended⟩ := shows_endPoller hsees.shows hp true
        exact .inl ⟨_, hv ▸ hended, rfl⟩
      | false =>
        cases hanswer : flight.answer w.now with
        | none =>
          have hv : v = w := by
            change (w.stepPoller id).watch = _
            unfold Watch.stepPoller
            rw [hp]
            simp only [hstage, hawake, hanswer, Bool.false_eq_true, if_false]
          rw [hv]
          exact .inr ⟨s, [], .inl rfl, (List.append_nil _).symm, by rwa [List.append_nil]⟩
        | some reply =>
          have hv : v = (w.takeReply id c.key s.round reply).watch :=
            (act_waiting hp hstage hawake hanswer).trans (by rw [hkey])
          have hreply := replies.symm.trans (Flight.reply_of_answer hanswer)
          have hlands := lands_takeReply hsees sound hp asks hreply
          rw [← hv] at hlands
          refine .inr ⟨c.move s, [], .inr rfl, ?_, ?_⟩
          · rw [List.append_nil]
            exact hlands.sees.fetches
          · have hfetches := fetches_move c s
            rw [asks, Option.toList_some] at hfetches
            rw [List.append_nil, ← hfetches]
            exact hlands.reaches hkey horigin
  | _ =>
    rw [hstage] at hat
    cases hat

/-- What others do makes no move. -/
theorem Reaches.spared (h : c.Reaches id s issued w) (numbered : w.Numbered)
    (idle : action.actor? ≠ some id) (leaves : w.Leaves c.key (w.act action)) :
    c.Reaches id s issued (w.act action) := by
  obtain ⟨hsees, p, hp, hkey, horigin, hat⟩ := h
  obtain ⟨q, hq, htold⟩ := Watch.told_act numbered idle hp
  have hfrontier := leaves.frontier.trans hsees.frontier_eq
  refine ⟨⟨⟨?_, ?_, leaves.alive, congrArg Frontier.slot hfrontier, rfl⟩,
    congrArg Frontier.good hfrontier, rfl⟩, q, hq, htold.key.trans hkey,
    htold.origin.trans horigin, ?_⟩
  · exact (Watch.settings_act w action).trans hsees.shows.settings
  · exact leaves.network.trans hsees.shows.network
  · rw [htold.stage]
    exact hat

/-- The work of a poller has ended, or its round is on the way to some end, with these fetches
issued by now. -/
def OnTheWay (c : Course) (id : PollerId) (t : Round.Progress) (issued : List Request)
    (w : Watch) : Prop := w.HasEnded id ∨ ∃ s, c.Comes s t ∧ c.Reaches id s issued w

/-- A round stays on its way, whatever is done that has nothing to do with what its poller sees. -/
theorem OnTheWay.act {found : Bool} (h : c.OnTheWay id t issued w) (ends : t.round = .over found)
    (arises : w.Arises settings)
    (keeps : ∀ request, request.uri.key = c.key → c.network.releases request = false)
    (unimpeded : action = .work (.poller id) ∨ w.Leaves c.key (w.act action))
    (silent : w.closing? id action = none) :
    c.OnTheWay id t (issued ++ w.fetchesIn id action) (w.act action) := by
  rcases h with hended | ⟨s, hcomes, hreaches⟩
  · exact .inl (hended.act arises.numbered action)
  by_cases hown : action = .work (.poller id)
  · subst hown
    rcases hreaches.turn arises.frontier_sound silent keeps with
      hended | ⟨u, new, hmoved, hfetches, hnext⟩
    · exact .inl hended
    · have hnew : w.fetchesIn id (.work (.poller id)) = new := by
        rw [Watch.fetchesIn, if_pos rfl, hfetches, List.drop_left]
      refine .inr ⟨u, ?_, hnew ▸ hnext⟩
      rcases hmoved with rfl | rfl
      · exact hcomes
      · exact hcomes.forward ends
  · have hleaves := unimpeded.resolve_left hown
    rw [Watch.fetchesIn_of_ne hown, List.append_nil]
    by_cases hidle : action.actor? = some id
    · obtain ⟨p, hp, -, -, hat⟩ := hreaches.poller
      rcases (Watch.own_of_actor? hidle).resolve_left hown with rfl | rfl
      · have hsame : w.act (.wake id) = w := Watch.wake_of_not_resting hp hat.ne_resting
        rw [hsame]
        exact .inr ⟨s, hcomes, hreaches⟩
      · rcases Watch.crash_cases hp with hsame | hended
        · rw [hsame]
          exact .inr ⟨s, hcomes, hreaches⟩
        · exact .inl hended
    · exact .inr ⟨s, hcomes, hreaches.spared arises.numbered hidle hleaves⟩

/-- A poller that is on the way stays so until it closes the round. -/
theorem OnTheWay.run {found : Bool} {actions : List Watch.Action} (h : c.OnTheWay id t issued w)
    (ends : t.round = .over found) (arises : w.Arises settings)
    (keeps : ∀ request, request.uri.key = c.key → c.network.releases request = false)
    (unimpeded : w.Unimpeded id c.key actions) (silent : w.outcomes id actions = []) :
    c.OnTheWay id t (issued ++ w.fetchesBy id actions) (w.run actions) := by
  induction actions generalizing w issued with
  | nil =>
    rw [Watch.fetchesBy, List.append_nil]
    exact h
  | cons action rest ih =>
    obtain ⟨hfirst, hrest⟩ := unimpeded
    obtain ⟨hclosing, hsilent⟩ := List.append_eq_nil_iff.mp silent
    have hnext := h.act ends arises keeps hfirst (Option.toList_eq_nil_iff.mp hclosing)
    rw [Watch.fetchesBy, ← List.append_assoc]
    exact ih hnext (arises.act action) hrest hsilent

/-! ## Every round can be closed -/

/-- A poller that waits can close what it can close once it has made the move. -/
theorem Waits.canClose {made : List Request} {flight : Flight} {request : Request}
    {o : Round.Outcome} (h : c.Waits id p false made s flight request w)
    (arises : w.Arises settings) (key : p.key = c.key) (live : p.cancelled = false)
    (responds : c.network.Responds c.key)
    (later : ∀ v : Watch, v.Arises settings → c.Lands id p false made (c.move s) v →
      v.CanClose id o) : w.CanClose id o := by
  have hkey : request.uri.key = c.key := Round.key_of_request? h.asks
  obtain ⟨reply, hreply⟩ := Option.isSome_iff_exists.mp (responds.answers request hkey)
  -- the reply is there after the fetch has taken its time
  let v : Watch := w.act (.elapse flight.due)
  let q : Poller := { p with stage := .waiting s.round flight }
  have hsees : c.Sees s.frontier false made v :=
    ⟨⟨h.sees.shows.settings, h.sees.shows.network, h.sees.shows.alive, h.sees.shows.slot,
      h.sees.shows.stopped⟩, h.sees.good, h.sees.fetches⟩
  have hv : v.Arises settings := arises.act _
  have hq : v.pollers[id]? = some q := h.poller
  have hawake : v.isCancelled q = false := by
    rw [Watch.isCancelled, hsees.shows.stopped, Bool.or_false]
    exact live
  have hdue : flight.due ≤ v.now := Nat.le_add_left flight.due w.now
  have hanswer : flight.answer v.now = some reply := by
    rw [Flight.answer, if_pos hdue, h.replies]
    exact hreply
  have hact : v.act (.work (.poller id)) = (v.takeReply id c.key s.round reply).watch :=
    (act_waiting hq rfl hawake hanswer).trans (congrArg (fun key =>
      (v.takeReply id key s.round reply).watch) key)
  have hsilent : v.closing? id (.work (.poller id)) = none := Watch.closing?_of_turn hq
  refine canClose_of_act (.inr ⟨flight.due, rfl⟩) rfl (canClose_of_act (.inl rfl) hsilent ?_)
  refine later _ (hv.act _) ?_
  have hlands := lands_takeReply hsees hv.frontier_sound hq h.asks hreply
  rw [hact]
  exact ⟨hlands.sees, hlands.poller⟩

/-- A poller in a round that is not cancelled can close it as it comes out. -/
theorem Lands.canClose {made : List Request} {found : Bool} (h : c.Lands id p false made s w)
    (arises : w.Arises settings) (key : p.key = c.key) (origin : p.origin = c.origin)
    (live : p.cancelled = false) (responds : c.network.Responds c.key) (comes : c.Comes s t)
    (ends : t.round = .over found) : w.CanClose id ⟨found, t.frontier.slot⟩ := by
  obtain ⟨n, hn⟩ := comes
  have hturn : Watch.Action.IsOwn id (.work (.poller id)) := .inl rfl
  induction n generalizing s made w with
  | zero =>
    have hs : s = t := hn
    subst hs
    have hclosing : w.closing? id (.work (.poller id)) = some ⟨found, s.frontier.slot⟩ := by
      rw [Watch.closing?_of_turn h.poller, ends, key, h.sees.shows.slot]
      rfl
    refine ⟨[.work (.poller id)], fun action hin => ?_, ?_⟩
    · rw [List.mem_singleton.mp hin]
      exact hturn
    · rw [Watch.outcomes, hclosing]
      rfl
  | succ n ih =>
    cases hround : (Poller.Stage.rounding s.round).closes? with
    | some raised =>
      have hover : s.round = .over raised :=
        Poller.Stage.rounding.inj (Poller.Stage.eq_of_closes? hround)
      have hs : c.move s = s := move_over hover
      rw [moves, hs] at hn
      exact ih h arises hn
    | none =>
      have hsilent : w.closing? id (.work (.poller id)) = none := by
        rw [Watch.closing?_of_turn h.poller, Option.map_eq_none_iff]
        exact hround
      have hplays := plays_stepRound h.sees arises.frontier_sound h.poller key origin hround
        responds.keeps
      have hact : w.act (.work (.poller id)) =
          (w.stepRound id { p with stage := .rounding s.round } s.round).watch :=
        act_rounding h.poller rfl
      have hv := arises.act (.work (.poller id))
      refine canClose_of_act hturn hsilent ?_
      rw [← hact] at hplays
      cases hplays with
      | moves lands => exact ih (w := w.act _) ⟨lands.sees, lands.poller⟩ hv hn
      | waits flight request waits =>
        refine Waits.canClose (p := p) ⟨waits.sees, waits.poller, waits.asks, waits.replies⟩ hv key
          live responds fun u hu lands => ih lands hu hn

/-- Wherever the round of a poller has come to, it can be closed as it comes out, unless the poller
was cancelled. -/
theorem Reaches.canClose {found : Bool} (h : c.Reaches id s issued w)
    (is : w.pollers[id]? = some p) (live : w.isCancelled p = false) (arises : w.Arises settings)
    (responds : c.network.Responds c.key) (comes : c.Comes s t) (ends : t.round = .over found) :
    w.CanClose id ⟨found, t.frontier.slot⟩ := by
  obtain ⟨hsees, q, hq, hkey, horigin, hat⟩ := h
  obtain rfl : q = p := Option.some.inj (hq.symm.trans is)
  obtain ⟨hlive, hrunning⟩ := Bool.or_eq_false_iff.mp live
  rw [hrunning] at hsees
  cases hstage : q.stage with
  | rounding round =>
    rw [hstage] at hat
    cases hat with
    | rounding =>
      have hlands : c.Lands id q false w.fetches s w := ⟨hsees, by rw [← hstage]; exact hq⟩
      exact hlands.canClose arises hkey horigin hlive responds comes ends
  | waiting round flight =>
    rw [hstage] at hat
    cases hat with
    | waiting _ request asks replies =>
      have hwaits : c.Waits id q false w.fetches s flight request w :=
        ⟨hsees, by rw [← hstage]; exact hq, asks, replies⟩
      exact hwaits.canClose arises hkey hlive responds fun v hv lands =>
        lands.canClose hv hkey horigin hlive responds (comes.forward ends) ends
  | _ =>
    rw [hstage] at hat
    cases hat

/-- If a round that was on its way to an end is over, it has come there. -/
theorem OnTheWay.over {raised : Bool} (h : c.OnTheWay id t issued w)
    (found : w.pollers[id]? = some p) (stage : p.stage = .rounding (.over raised)) :
    t.round = .over raised ∧ w.records.frontier c.key = t.frontier ∧ issued = t.fetches := by
  rcases h with ⟨q, hq, hended⟩ | ⟨s, hcomes, hsees, q, hq, -, -, hat⟩
  · obtain rfl : q = p := Option.some.inj (hq.symm.trans found)
    rw [hended] at stage
    cases stage
  · obtain rfl : q = p := Option.some.inj (hq.symm.trans found)
    rw [stage] at hat
    obtain ⟨hround, hissued⟩ := hat.eq_of_rounding
    obtain rfl : s = t := hcomes.eq_of_over hround.symm
    exact ⟨hround.symm, hsees.frontier_eq, hissued⟩

end Course

namespace Watch

variable {w : Watch} {id : PollerId} {p : Poller} {settings : Settings} {hints : List Edition}

/-- A round is its scan. Whatever happened before and whatever the network replies, its hints are in
order, and what is to come of it is settled when it begins: which blocks it fetches in which order,
whether it finds something new, and which content it fetches. It comes out like this in every run in
which nothing else has to do with the document and the network stays as it is, and at any point of
such a run its poller needs only turns of its own and time to close it, unless it was cancelled or
broke down. -/
theorem round_scans (arises : w.Arises settings) (found : w.pollers[id]? = some p)
    (begun : p.stage = .rounding (.opening hints)) (alive : w.isAlive = true)
    (responds : w.network.Responds p.key) :
    let c : Course := ⟨w.settings, w.network, p.key, p.origin⟩
    Round.Falls hints ∧ ∃ report, c.Scans (w.records.frontier p.key) hints report ∧
      ∀ actions, w.Unimpeded id p.key actions → w.outcomes id actions = [] →
        let v := w.run actions
        (∀ q raised, v.pollers[id]? = some q → q.stage = .rounding (.over raised) →
          raised = report.found ∧ v.records.frontier p.key = report.frontier ∧
          w.fetchesBy id actions =
            report.probes.map c.block ++ report.contents.map c.content) ∧
        (∀ q, v.pollers[id]? = some q → q.stage ≠ .ended → v.isCancelled q = false →
          v.CanClose id ⟨report.found, report.frontier.slot⟩) := by
  intro c
  have horderly : p.Orderly := by
    obtain ⟨listeners, actions, rfl⟩ := arises
    exact orderly_run settings listeners actions id p found
  refine ⟨horderly.opening hints (by rw [begun]; rfl), ?_⟩
  obtain ⟨report, hscans, hcomes⟩ := Course.comes_report c (w.records.frontier p.key) hints
  refine ⟨report, hscans, fun actions hunimpeded hsilent => ?_⟩
  intro v
  let first : Round.Progress := ⟨.opening hints, w.records.frontier p.key, []⟩
  let last : Round.Progress := ⟨.over report.found, report.frontier,
    report.probes.map c.block ++ report.contents.map c.content⟩
  have hreaches : c.Reaches id first [] w := by
    refine ⟨⟨⟨rfl, rfl, alive, rfl, rfl⟩, rfl, rfl⟩, p, found, rfl, rfl, ?_⟩
    rw [begun]
    exact .rounding
  have hway : c.OnTheWay id last (w.fetchesBy id actions) v :=
    Course.OnTheWay.run (.inr ⟨first, hcomes, hreaches⟩) rfl arises responds.keeps hunimpeded
      hsilent
  constructor
  · intro q raised hq hstage
    obtain ⟨hover, hfrontier, hfetches⟩ := hway.over hq hstage
    exact ⟨(Round.over.inj hover).symm, hfrontier, hfetches⟩
  · intro q hq hgoing hlive
    rcases hway with ⟨r, hr, hended⟩ | ⟨s, hcomes, hreaches⟩
    · obtain rfl : r = q := Option.some.inj (hr.symm.trans hq)
      exact absurd hended hgoing
    · exact hreaches.canClose hq hlive (arises.run actions) responds hcomes rfl

/-- A poller is told of the editions 3 and 6, and then only 3 and 5 exist. In its next round it
probes both, the newer one first, and walks from the edition 4 to 7; it finds the edition 5 and
fetches its content. -/
theorem round_scans_of_hints :
    let notes : DocumentKey := ⟨.uniform 7, "notes"⟩
    let settings : Settings := { Settings.standard with minFailures := 2, maxProbes := 5 }
    let rule (e : Edition) : NetworkRule := ⟨notes, e, e, some .data, some .data, []⟩
    let turns (n : Nat) : List Action := List.replicate n (.work (.poller 0))
    let w := (initial settings []).run (.subscribe notes "ann" { background := true } ::
      turns 12 ++ [.resolve ⟨notes, 3⟩ false "bob", .resolve ⟨notes, 6⟩ false "bob",
        .work (.poller 0), .setNetwork ⟨[rule 3, rule 5], 0, 0⟩])
    let c : Course := ⟨w.settings, w.network, notes, 0⟩
    w.fetchesBy 0 (turns 17) = [6, 3, 4, 5, 6, 7].map c.block ++ [c.content 5] ∧
      (w.run (turns 17)).records.frontier notes = ⟨some 5, some 5⟩ ∧
      ∃ report, c.Scans (w.records.frontier notes) [6, 3] report ∧ report.found = true ∧
        report.frontier = ⟨some 5, some 5⟩ := by
  intro notes settings rule turns w c
  have hview : (w.pollers[0]?).map
      (fun p => (p.key, p.origin, p.stage.opening?, p.flight?.isSome)) =
        some (notes, 0, some [6, 3], false) := by decide
  have hover : ((w.run (turns 17)).pollers[0]?).map (fun p => p.stage.closes?) =
      some (some true) := by decide
  have hfetches : w.fetchesBy 0 (turns 17) = [6, 3, 4, 5, 6, 7].map c.block ++ [c.content 5] := by
    decide
  have hfrontier : (w.run (turns 17)).records.frontier notes = ⟨some 5, some 5⟩ := by decide
  obtain ⟨p, hp, hfields⟩ := Option.map_eq_some_iff.mp hview
  obtain ⟨q, hq, hcloses⟩ := Option.map_eq_some_iff.mp hover
  simp only [Prod.mk.injEq] at hfields
  obtain ⟨hkey, horigin, hopening, hidle⟩ := hfields
  have hrules : w.network = ⟨[rule 3, rule 5], 0, 0⟩ := rfl
  have hresponds : w.network.Responds p.key := by
    rw [hrules]
    exact ⟨fun request _ => Network.isSome_reply (by simp [rule]) request,
      fun request _ => Network.releases_eq_false (by simp [rule]) request⟩
  obtain ⟨-, report, hscans, hruns⟩ :=
    round_scans ⟨_, _, rfl⟩ hp (Poller.eq_of_opening? hopening hidle) (by decide) hresponds
  obtain ⟨hfound, hreport, -⟩ := (hruns (turns 17) (unimpeded_turns w 0 p.key 17)
    (by decide)).1 q true hq (Poller.Stage.eq_of_closes? hcloses)
  rw [hkey, horigin] at hscans
  rw [hkey, hfrontier] at hreport
  exact ⟨hfetches, hfrontier, report, hscans, hfound.symm, hreport.symm⟩

end Watch

end EditionWatch
