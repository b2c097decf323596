import EditionWatch.Proofs.Hints
import EditionWatch.Proofs.Origins

/-!
# Lookups

A lookup of a document that has a poller sends the edition to it as a hint. If the poller was at
rest, it makes one round with this hint, and this round comes out as rounds with hints do, however
its turns are mixed with whatever leaves the poller alone. A lookup of a document without a
poller makes one, whose first round is a walk from the edition. The first round shows no less
than the second would if the poller sets out from the right place, else it may miss editions.
-/

namespace EditionWatch

namespace Course

variable {c : Course} {slot : Option Edition} {o : Round.Outcome} {stopped : Bool} {w : Watch}
  {id : PollerId} {p : Poller} {limit : Nat}

/-- How a round with hints that begins at a slot ends. -/
def scan (c : Course) (slot : Option Edition) (hints : List Edition) : Round.Outcome :=
  Round.scan c.settings (c.network.holds c.key) c.origin slot hints

/-- What is left of a round that has not begun to walk ends with this outcome. -/
inductive Scouts (c : Course) (slot : Option Edition) (o : Round.Outcome) : Round → Prop where
  | opening (hints : List Edition) (ends : c.scan slot hints = o) : Scouts c slot o (.opening hints)
  | hinting (hints : List Edition) (ends : c.scan slot hints = o) : Scouts c slot o (.hinting hints)
  | askingHint (e : Edition) (hints : List Edition)
      (unknown : Frontier.nextUnknown ⟨slot, none⟩ ≤ e) (ends : c.scan slot (e :: hints) = o) :
      Scouts c slot o (.askingHint e hints)
  | aligning (found : Bool)
      (ends : Round.walk c.settings (c.network.holds c.key) c.settings.maxProbes.toNat found slot
        (Round.walkStart slot c.origin) 0 = o) : Scouts c slot o (.aligning found)

/-- The work of a poller in a round that has not begun to walk. -/
inductive ScoutsAt (c : Course) (slot : Option Edition) (o : Round.Outcome) :
    Poller.Stage → Prop where
  | rounding (round : Round) (scouts : c.Scouts slot o round) : ScoutsAt c slot o (.rounding round)
  | waiting (round : Round) (flight : Flight) (scouts : c.Scouts slot o round) (request : Request)
      (asks : round.request? c.key = some request)
      (replies : flight.reply = c.network.reply request) :
      ScoutsAt c slot o (.waiting round flight)

/-- The turns that a round needs at most until it walks; waiting counts as half a turn. -/
def distance : Round → Nat
  | .opening hints => 2 * hints.length + 3
  | .hinting hints => 2 * hints.length + 2
  | .askingHint _ hints => 2 * hints.length + 3
  | .aligning _ => 1
  | _ => 0

/-- The distance of the work of a poller from a walk. -/
def distanceAt : Poller.Stage → Nat
  | .rounding round => 2 * distance round + 1
  | .waiting round _ => 2 * distance round
  | _ => 0

/-- A turn has brought a round nearer to its walk, or made it walk, and changed nothing else about
its poller. -/
def Advances (c : Course) (id : PollerId) (p : Poller) (stopped : Bool) (o : Round.Outcome)
    (limit : Nat) (v : Watch) : Prop :=
  ∃ slot stage, c.Shows slot stopped v ∧ v.pollers[id]? = some { p with stage := stage } ∧
    (c.ScoutsAt slot o stage ∧ distanceAt stage < limit ∨ c.HeadsAt slot o stage)

/-- A poller that goes on in its round is nearer to its walk. -/
theorem advances_setRound (shows : c.Shows slot stopped w) (found : w.pollers[id]? = some p)
    {round : Round} (scouts : c.Scouts slot o round) (less : 2 * distance round + 1 < limit) :
    c.Advances id p stopped o limit (w.setRound id round).watch :=
  ⟨slot, .rounding round, shows.modifyPoller id _, Watch.getElem?_modify_self found _,
    .inl ⟨.rounding round scouts, less⟩⟩

/-- A poller that takes a reply about a hint is nearer to its walk, and has noted what it heard. -/
theorem advances_takeReply (shows : c.Shows slot stopped w) (found : w.pollers[id]? = some p)
    {round : Round} (scouts : c.Scouts slot o round) {request : Request}
    (asks : round.request? c.key = some request) {reply : Reply}
    (replies : c.network.reply request = some reply) :
    c.Advances id p stopped o (2 * distance round) (w.takeReply id c.key round reply).watch := by
  cases scouts with
  | askingHint e hints unknown ends =>
    cases asks
    have hcounted := shows.countVerdict reply.verdict
    unfold Watch.takeReply
    dsimp only
    split
    case isTrue hpresent =>
      have hholds := (verdict_eq_present_iff replies).mp hpresent
      rw [scan, Round.scan_cons_of_present unknown hholds] at ends
      rw [if_pos hcounted.alive]
      have hraises : Records.raisesSlot (w.records.countVerdict reply.verdict) ⟨c.key, e⟩ =
          isAbove e slot := congrArg (isAbove e) hcounted.slot
      rw [hraises]
      refine advances_setRound (hcounted.noteSlot e) ?_ (.aligning _ ends) ?_
      · rw [Watch.pollers_noteSlot]
        exact found
      · simp only [distance]
        omega
    case isFalse hpresent =>
      have habsent : ¬(Frontier.nextUnknown ⟨slot, none⟩ ≤ e ∧ c.network.holds c.key e = true) :=
        fun h => hpresent ((verdict_eq_present_iff replies).mpr h.2)
      rw [scan, Round.scan_congr (Round.hinted?_cons_of_not habsent)] at ends
      refine advances_setRound hcounted found (.hinting hints ends) ?_
      simp only [distance]
      omega
  | _ => cases asks

/-- A poller that asks after a hint is half a turn nearer to its walk. -/
theorem advances_sendRequest (shows : c.Shows slot stopped w) (found : w.pollers[id]? = some p)
    {round : Round} (scouts : c.Scouts slot o round) {request : Request}
    (asks : round.request? c.key = some request) (keeps : c.network.releases request = false) :
    c.Advances id p stopped o (2 * distance round + 1)
      (w.sendRequest id c.key round request).watch := by
  obtain ⟨v, hshows, hfound, ⟨reply, hreplies, hsent⟩ | ⟨flight, hreply, hsent⟩⟩ :=
    sendRequest_cases shows found round keeps
  · obtain ⟨next, stage, hnext, hat, hstage⟩ :=
      advances_takeReply hshows hfound scouts asks hreplies
    rw [hsent]
    exact ⟨next, stage, hnext, hat, hstage.imp_left fun h => ⟨h.1, Nat.lt_succ_of_lt h.2⟩⟩
  · rw [hsent]
    exact ⟨slot, .waiting round flight, hshows.modifyPoller id _,
      Watch.getElem?_modify_self hfound _,
      .inl ⟨.waiting round flight scouts request asks hreply, Nat.lt_succ_self _⟩⟩

/-- A turn of a round that has not begun to walk brings it nearer to its walk. -/
theorem advances_stepRound (shows : c.Shows slot stopped w) (found : w.pollers[id]? = some p)
    (key : p.key = c.key) (origin : p.origin = c.origin) {round : Round}
    (scouts : c.Scouts slot o round)
    (keeps : ∀ request, request.uri.key = c.key → c.network.releases request = false) :
    c.Advances id p stopped o (2 * distance round + 1) (w.stepRound id p round).watch := by
  have hfirst : (w.records.frontier c.key).nextUnknown = Frontier.nextUnknown ⟨slot, none⟩ := by
    rw [← shows.slot]
    rfl
  unfold Watch.stepRound
  rw [key]
  cases scouts with
  | opening hints ends =>
    dsimp only
    rw [if_pos shows.alive, Round.selectHints, hfirst]
    rw [scan, ← Round.scan_congr (Round.hinted?_filter hints)] at ends
    refine advances_setRound shows found (.hinting _ ends) ?_
    have hless := List.length_filter_le
      (fun e => decide (Frontier.nextUnknown ⟨slot, none⟩ ≤ e)) hints
    simp only [distance]
    omega
  | hinting hints ends =>
    cases hints with
    | nil => exact advances_setRound shows found (.aligning false ends) (by simp [distance])
    | cons e hints =>
      dsimp only
      rw [if_pos shows.alive, Round.tryHint, hfirst]
      split
      case isTrue hknown =>
        have hpassed : Round.hinted? (c.network.holds c.key) slot (e :: hints) =
            Round.hinted? (c.network.holds c.key) slot hints :=
          Round.hinted?_cons_of_not fun h => UInt64.not_le.mpr hknown h.1
        rw [scan, Round.scan_congr hpassed] at ends
        refine advances_setRound shows found (.hinting hints ends) ?_
        simp only [distance, List.length_cons]
        omega
      case isFalse hunknown =>
        have hunknown := UInt64.not_lt.mp hunknown
        refine advances_setRound shows found (.askingHint e hints hunknown ends) ?_
        simp only [distance, List.length_cons]
        omega
  | aligning raised ends =>
    dsimp only
    rw [if_pos shows.alive, Round.align, hfirst, origin]
    exact ⟨slot, .rounding _, shows.modifyPoller id _, Watch.getElem?_modify_self found _,
      .inr (.rounding _ (.walking raised _ 0 0 ends))⟩
  | askingHint e hints unknown ends =>
    exact advances_sendRequest shows found (.askingHint e hints unknown ends) rfl (keeps _ rfl)

/-! ## Any turn -/

/-- The poller is about to take up a hint, or in a round that has not begun to walk, or it is
over. -/
inductive Due (c : Course) (slot : Option Edition) (o : Round.Outcome) (p : Poller) : Prop where
  | called (e : Edition) (wake : Option Instant) (key : p.key = c.key)
      (origin : p.origin = c.origin) (hints : p.hints = []) (inbox : p.inbox = [.hint e])
      (rests : p.stage = .resting wake) (ends : c.scan slot [e] = o) : Due c slot o p
  | scouting (owns : c.Owns p) (scouts : c.ScoutsAt slot o p.stage) : Due c slot o p
  | ended (rests : p.stage = .ended) : Due c slot o p

/-- The next round that the poller brings to an end has this outcome, and it has not begun to
walk. -/
structure Seeks (c : Course) (id : PollerId) (slot : Option Edition) (o : Round.Outcome)
    (w : Watch) : Prop where
  shows : c.Shows slot w.stopped w
  poller : ∃ p, w.pollers[id]? = some p ∧ c.Due slot o p

/-- A poller that is due seeks the outcome. -/
theorem seeks_of_poller (shows : c.Shows slot stopped w) (found : w.pollers[id]? = some p)
    (due : c.Due slot o p) : c.Seeks id slot o w :=
  ⟨⟨shows.settings, shows.network, shows.alive, shows.slot, rfl⟩, p, found, due⟩

/-- A poller that advances seeks the outcome still, or follows the course to it. -/
theorem seeks_or_follows_of_advances (owns : c.Owns p) (h : c.Advances id p stopped o limit w) :
    ∃ next, c.Seeks id next o w ∨ c.Follows id next o w := by
  obtain ⟨next, stage, hshows, hfound, hstage⟩ := h
  have howns : c.Owns { p with stage := stage } :=
    ⟨owns.key, owns.origin, owns.hints, owns.inbox⟩
  refine ⟨next, ?_⟩
  rcases hstage with ⟨hscouts, -⟩ | hheads
  · exact .inl (seeks_of_poller hshows hfound (.scouting howns hscouts))
  · exact .inr (follows_of_poller hshows hfound howns (.inRound stage hheads))

/-- A poller that ends has no round left that could come to anything else. -/
theorem seeks_endPoller (shows : c.Shows slot stopped w) (found : w.pollers[id]? = some p)
    (cancelled : Bool) : c.Seeks id slot o (w.endPoller id p.key cancelled).watch := by
  obtain ⟨hshows, marked, hended⟩ := shows_endPoller shows found cancelled
  exact seeks_of_poller hshows hended (.ended rfl)

/-- The poller after it took a hint and began a round with it. -/
theorem poller_after_hint (found : w.pollers[id]? = some p) {e : Edition} (hints : p.hints = [])
    (inbox : p.inbox = [.hint e]) :
    ((w.modifyPoller id (·.takeCommands w.settings)).beginRound id).watch.pollers[id]? =
      some { p with hints := [], inbox := [], stage := .rounding (.opening [e]) } := by
  have htaken : p.takeCommands w.settings = { p with hints := [e], inbox := [] } := by
    rw [Poller.takeCommands, inbox, List.foldl_cons, List.foldl_nil, Poller.apply, hints]
    rfl
  have hmodified := Watch.getElem?_modify_self found (·.takeCommands w.settings)
  rw [htaken] at hmodified
  exact Watch.getElem?_modify_self hmodified (·.beginRound)

/-- A poller that is due closes no round with its next turn. -/
theorem closes?_of_due (h : c.Due slot o p) : p.stage.closes? = none := by
  cases h with
  | called e wake key origin hints inbox rests ends =>
    rw [rests]
    rfl
  | scouting owns scouts =>
    generalize p.stage = stage at scouts
    cases scouts with
    | rounding round scouts => cases scouts <;> rfl
    | waiting round flight scouts request asks replies => rfl
  | ended rests =>
    rw [rests]
    rfl

/-- A turn of the poller takes it towards its walk, and closes nothing. -/
theorem Seeks.turn (h : c.Seeks id slot o w)
    (keeps : ∀ request, request.uri.key = c.key → c.network.releases request = false) :
    w.closing? id (.work (.poller id)) = none ∧
      ∃ next, c.Seeks id next o (w.act (.work (.poller id))) ∨
        c.Follows id next o (w.act (.work (.poller id))) := by
  have hsame := h
  obtain ⟨hshows, p, hfound, hdue⟩ := h
  constructor
  · rw [Watch.closing?, if_pos rfl, hfound, Option.bind_some, closes?_of_due hdue, Option.map_none]
  change ∃ next, c.Seeks id next o (w.stepPoller id).watch ∨
    c.Follows id next o (w.stepPoller id).watch
  unfold Watch.stepPoller
  rw [hfound]
  dsimp only
  cases hdue with
  | called e wake key origin hints inbox rests ends =>
    simp only [rests]
    refine ⟨slot, .inl ?_⟩
    split
    case isTrue => exact seeks_endPoller hshows hfound true
    case isFalse =>
      rw [inbox, List.isEmpty_cons, Bool.not_false, if_pos rfl]
      have hbegun := poller_after_hint hfound hints inbox
      exact seeks_of_poller ((hshows.modifyPoller id _).modifyPoller id _) hbegun
        (.scouting ⟨key, origin, rfl, rfl⟩ (.rounding _ (.opening [e] ends)))
  | scouting owns scouts =>
    cases hs : p.stage with
    | rounding round =>
      rw [hs] at scouts
      cases scouts with
      | rounding _ scouts =>
        exact seeks_or_follows_of_advances owns
          (advances_stepRound hshows hfound owns.key owns.origin scouts keeps)
    | waiting round flight =>
      dsimp only
      split
      case isTrue => exact ⟨slot, .inl (seeks_endPoller hshows hfound true)⟩
      case isFalse =>
        cases hanswer : flight.answer w.now with
        | none => exact ⟨slot, .inl hsame⟩
        | some reply =>
          rw [hs] at scouts
          cases scouts with
          | waiting _ _ scouts request asks replies =>
            rw [owns.key]
            have hreply := Flight.reply_of_answer hanswer
            exact seeks_or_follows_of_advances owns
              (advances_takeReply hshows hfound scouts asks (replies.symm.trans hreply))
    | _ =>
      rw [hs] at scouts
      cases scouts
  | ended rests =>
    simp only [rests]
    exact ⟨slot, .inl hsame⟩

/-- What spares a poller leaves it seeking. -/
theorem Seeks.spared (h : c.Seeks id slot o w) {v : Watch} (spares : w.Spares id c.key v) :
    c.Seeks id slot o v := by
  obtain ⟨⟨hsettings, hnetwork, halive, hslot, -⟩, p, hfound, hdue⟩ := h
  exact ⟨⟨spares.settings.trans hsettings, spares.network.trans hnetwork,
    spares.alive.trans halive, spares.slot.trans hslot, rfl⟩, p, spares.poller.trans hfound, hdue⟩

/-- Along an undisturbed run, the first round that is brought to an end comes out as it was bound
to, whether it has begun to walk or not. -/
theorem first_outcome {actions : List Watch.Action}
    (h : c.Seeks id slot o w ∨ c.Follows id slot o w)
    (keeps : ∀ request, request.uri.key = c.key → c.network.releases request = false)
    (undisturbed : w.Undisturbed id c.key actions) :
    ∀ first ∈ (w.outcomes id actions).head?, first = o := by
  induction actions generalizing w slot with
  | nil => exact fun first hfirst => (by cases hfirst)
  | cons action rest ih =>
    obtain ⟨hthis, hrest⟩ := undisturbed
    by_cases hown : action = .work (.poller id)
    · subst hown
      rcases h with hseeks | hfollows
      · obtain ⟨hnone, next, hnext⟩ := hseeks.turn keeps
        rw [Watch.outcomes, hnone]
        exact ih hnext hrest
      · rcases hfollows.turn keeps with ⟨hnone, next, hnext⟩ | ⟨hsome, -⟩
        · rw [Watch.outcomes, hnone]
          exact ih (.inr hnext) hrest
        · rw [Watch.outcomes, hsome]
          exact fun first hfirst => (Option.some.inj hfirst).symm
    · have hspares := hthis.resolve_left hown
      rw [Watch.outcomes, closing?_of_ne hown]
      exact ih (h.imp (·.spared hspares) (·.spared hspares)) hrest

/-! ## The round comes to its end -/

/-- A poller that scouts closes no round with its turn. -/
theorem closing?_of_scoutsAt (found : w.pollers[id]? = some p) (owns : c.Owns p)
    (shows : c.Shows slot stopped w) (scouts : c.ScoutsAt slot o p.stage) :
    w.closing? id (.work (.poller id)) = none := by
  rw [closing?_of_found found owns shows, closes?_of_due (.scouting owns scouts), Option.map_none]

/-- A poller in a round that has not begun to walk can close it. -/
theorem canClose_of_scoutsAt (shows : c.Shows slot false w) (found : w.pollers[id]? = some p)
    (owns : c.Owns p) (live : p.cancelled = false) (scouts : c.ScoutsAt slot o p.stage)
    (answers : ∀ request, request.uri.key = c.key → (c.network.reply request).isSome = true)
    (keeps : ∀ request, request.uri.key = c.key → c.network.releases request = false) :
    w.CanClose id o := by
  induction hdistance : distanceAt p.stage using Nat.strongRecOn generalizing w p slot with
  | ind size ih =>
    have hadvanced {v : Watch} (h : c.Advances id p false o size v) : v.CanClose id o := by
      obtain ⟨next, stage, hshows, hfound, hstage⟩ := h
      have howns : c.Owns { p with stage := stage } :=
        ⟨owns.key, owns.origin, owns.hints, owns.inbox⟩
      rcases hstage with ⟨hscouts, hless⟩ | hheads
      · exact ih (distanceAt stage) hless hshows hfound howns live hscouts rfl
      · exact canClose_of_headsAt hshows hfound howns live hheads answers keeps
    have hsilent := closing?_of_scoutsAt found owns shows scouts
    cases hs : p.stage with
    | rounding round =>
      rw [hs] at scouts hdistance
      cases scouts with
      | rounding _ scouts =>
        refine canClose_of_act (.inl rfl) hsilent ?_
        rw [act_rounding found hs]
        exact hadvanced
          (hdistance ▸ advances_stepRound shows found owns.key owns.origin scouts keeps)
    | waiting round flight =>
      rw [hs] at scouts hdistance
      cases scouts with
      | waiting _ _ scouts request asks replies =>
        have hkey : request.uri.key = c.key := by
          cases scouts <;> cases asks
          rfl
        obtain ⟨reply, hreply⟩ := Option.isSome_iff_exists.mp (answers request hkey)
        exact canClose_of_reply shows found owns live hs (replies.trans hreply)
          fun v hshows hfound =>
            hadvanced (hdistance ▸ advances_takeReply hshows hfound scouts asks hreply)
    | _ =>
      rw [hs] at scouts
      cases scouts

/-- A poller that was sent a hint while it rested can close a round with it. -/
theorem canClose_of_called (shows : c.Shows slot false w) (found : w.pollers[id]? = some p)
    (key : p.key = c.key) (origin : p.origin = c.origin) (hints : p.hints = []) {e : Edition}
    (inbox : p.inbox = [.hint e]) {wake : Option Instant} (rests : p.stage = .resting wake)
    (live : p.cancelled = false)
    (answers : ∀ request, request.uri.key = c.key → (c.network.reply request).isSome = true)
    (keeps : ∀ request, request.uri.key = c.key → c.network.releases request = false) :
    w.CanClose id (c.scan slot [e]) := by
  let begun : Watch := ((w.modifyPoller id (·.takeCommands w.settings)).beginRound id).watch
  have hseeks : c.Seeks id slot (c.scan slot [e]) w :=
    seeks_of_poller shows found (.called e wake key origin hints inbox rests rfl)
  have hawake : w.isCancelled p = false := by
    rw [Watch.isCancelled, live, shows.stopped]
    rfl
  have hstep : w.act (.work (.poller id)) = begun := by
    change (w.stepPoller id).watch = _
    unfold Watch.stepPoller
    rw [found]
    simp only [rests, hawake, inbox, List.isEmpty_cons, Bool.not_false, Bool.false_eq_true,
      if_false, if_true]
    rfl
  have hbegun := poller_after_hint found hints inbox
  refine canClose_of_act (.inl rfl) (hseeks.turn keeps).1 ?_
  rw [hstep]
  exact canClose_of_scoutsAt (w := begun) ((shows.modifyPoller id _).modifyPoller id _) hbegun
    ⟨key, origin, rfl, rfl⟩ live (.rounding _ (.opening [e] rfl)) answers keeps

end Course

/-- A network answers whatever is asked about a document and does not take the watch away. -/
structure Network.Responds (net : Network) (key : DocumentKey) : Prop where
  answers : ∀ request, request.uri.key = key → (net.reply request).isSome = true
  keeps : ∀ request, request.uri.key = key → net.releases request = false

namespace Watch

variable {w v : Watch} {key : DocumentKey} {id : PollerId} {p : Poller}

/-- A watch comes about in some run of a new one with these settings. -/
def Arises (settings : Settings) (w : Watch) : Prop :=
  ∃ listeners actions, (initial settings listeners).run actions = w

/-- The roster is sound in every watch that arises. -/
theorem Arises.sound {settings : Settings} (h : w.Arises settings) : w.roster.Sound := by
  obtain ⟨listeners, actions, rfl⟩ := h
  exact sound_run settings listeners actions

/-- A watch that arises keeps the settings of its run. -/
theorem Arises.settings_eq {settings : Settings} (h : w.Arises settings) :
    w.settings = settings := by
  obtain ⟨listeners, actions, rfl⟩ := h
  exact settings_run _ actions

/-- A watch at work whose owner can call it. -/
structure Callable (w : Watch) : Prop where
  held : w.held = true
  running : w.stopped = false

/-- A watch that can be called is held by its owner. -/
theorem Callable.alive (h : w.Callable) : w.isAlive = true := by
  rw [isAlive, h.held, Bool.true_or]

/-- The temporary poller of a document rests and was told nothing. -/
structure Idle (w : Watch) (key : DocumentKey) (id : PollerId) (p : Poller) : Prop where
  cached : w.records.cache.poller? key = some id
  found : w.pollers[id]? = some p
  rests : p.stage = .resting none
  hints : p.hints = []
  inbox : p.inbox = []

/-- A document has no poller, and the executor takes new ones. -/
structure Unpolled (w : Watch) (key : DocumentKey) : Prop where
  pool : w.records.pool.poller? key = none
  cache : w.records.cache.poller? key = none
  takes : w.takes .poller = true

/-- The next round that a poller brings to an end comes out like this in every run that leaves the
poller alone, and it needs only turns of its own and time for it. -/
structure NextCloses (w : Watch) (id : PollerId) (key : DocumentKey) (o : Round.Outcome) :
    Prop where
  first : ∀ actions, w.Undisturbed id key actions →
    ∀ first ∈ (w.outcomes id actions).head?, first = o
  canClose : w.CanClose id o

/-- A lookup changes no slot, neither of its document nor of another. -/
theorem slot_resolve (r : Records) (now : Instant) (key other : DocumentKey) (prefetch : Bool) :
    ((r.resolve now key prefetch).frontier other).slot = (r.frontier other).slot :=
  congrArg (fun fs => (Frontiers.of fs other).slot)
    (Records.keepsNews_resolve r now key prefetch).frontiers

/-- A lookup of a document with a temporary poller sends the edition to it. -/
theorem act_resolve_of_cached (sound : w.roster.Sound) (held : w.held = true)
    (cached : w.records.cache.poller? key = some id) (e : Edition) (prefetch : Bool)
    (name : String) :
    w.act (.resolve ⟨key, e⟩ prefetch name) =
      (({ w with records := w.records.resolve w.now key prefetch }.modifyPoller id
        (·.send (.hint e))).bind name id) := by
  have hpool : w.records.pool.poller? key = none := by
    cases hp : w.records.pool.poller? key with
    | none => rfl
    | some other => exact absurd ((sound.apart key other hp).symm.trans cached) nofun
  have hlookup : w.records.lookup key = .hinted id := by
    rw [Records.lookup, hpool, cached]
  rw [act_of_held held, perform, resolve]
  dsimp only
  rw [hlookup]

/-- A lookup of a document whose temporary poller is at rest makes this poller begin a round with
the edition as its only hint. -/
theorem nextCloses_of_idle (sound : w.roster.Sound) (callable : w.Callable)
    (idle : w.Idle key id p) (responds : w.network.Responds key) (e : Edition) (prefetch : Bool)
    (name : String) :
    (w.act (.resolve ⟨key, e⟩ prefetch name)).NextCloses id key
      (Round.scan w.settings (w.network.holds key) p.origin (w.records.frontier key).slot [e]) := by
  let c : Course := ⟨w.settings, w.network, key, p.origin⟩
  let slot := (w.records.frontier key).slot
  obtain ⟨q, hq, hkey, hlive⟩ := sound.own key id (.inr idle.cached)
  have hqp : q = p := Option.some.inj (hq.symm.trans idle.found)
  subst hqp
  have hinbox : (q.send (.hint e)).inbox = [.hint e] := by
    have hgoing : q.isOver = false := by rw [Poller.isOver, idle.rests]
    rw [Poller.inbox_send hgoing, idle.inbox, List.nil_append]
  have hdue : c.Due slot (c.scan slot [e]) (q.send (.hint e)) :=
    .called e none hkey rfl idle.hints hinbox idle.rests rfl
  rw [act_resolve_of_cached sound callable.held idle.cached]
  let sent : Watch := ({ w with records := w.records.resolve w.now key prefetch }.modifyPoller id
    (·.send (.hint e))).bind name id
  have hfound : sent.pollers[id]? = some (q.send (.hint e)) :=
    getElem?_modify_self idle.found (·.send (.hint e))
  have hshows : c.Shows slot false sent :=
    ⟨rfl, rfl, callable.alive, slot_resolve _ _ _ _ _, callable.running⟩
  have hseeks := Course.seeks_of_poller hshows hfound hdue
  refine ⟨fun actions => Course.first_outcome (.inl hseeks) responds.keeps, ?_⟩
  exact Course.canClose_of_called hshows hfound hkey rfl idle.hints hinbox idle.rests
    (hlive callable.running) responds.answers responds.keeps

/-- A lookup of a document without a poller makes one, which may push out others. -/
theorem act_resolve_of_unpolled (held : w.held = true) (unpolled : w.Unpolled key) (e : Edition)
    (prefetch : Bool) (name : String) :
    ∃ evicted, (∀ id ∈ evicted, ∃ other, w.records.cache.poller? other = some id) ∧
      w.act (.resolve ⟨key, e⟩ prefetch name) =
        { { w with records := w.records.resolve w.now key prefetch }.log
            (.pollerSubmitted w.pollers.length key) with
          pollers := w.pollers ++ [{ Poller.create w.settings key e .once with
            stage := .submitted evicted }] }.countSubmission.bind name w.records.pollersMade := by
  let insertion := w.records.cache.insert key w.records.pollersMade
  have hlookup : w.records.lookup key =
      .started w.records.pollersMade (insertion.evicted.map Prod.snd) := by
    rw [Records.lookup, unpolled.pool, unpolled.cache]
  refine ⟨(insertion.evicted.map Prod.snd).toList, fun id hin => ?_, ?_⟩
  · obtain ⟨entry, hentry, hid⟩ := Option.map_eq_some_iff.mp (Option.mem_toList.mp hin)
    have hold : w.records.cache.poller? entry.1 = some entry.2 :=
      LookupCache.poller?_of_evicted hentry
    exact ⟨entry.1, hid ▸ hold⟩
  · rw [act_of_held held, perform, resolve]
    dsimp only
    rw [hlookup]
    dsimp only
    rw [submitPoller]
    exact congrArg (bind · name w.records.pollersMade) (if_pos unpolled.takes)

/-- A lookup of a document without a poller makes one that begins with a walk from the edition. -/
theorem nextCloses_of_unpolled (sound : w.roster.Sound) (callable : w.Callable)
    (unpolled : w.Unpolled key) (responds : w.network.Responds key) (e : Edition)
    (prefetch : Bool) (name : String) :
    (w.act (.resolve ⟨key, e⟩ prefetch name)).NextCloses w.pollers.length key
      (Round.outcome w.settings (w.network.holds key) e (w.records.frontier key).slot) := by
  obtain ⟨evicted, hevicted, hact⟩ :=
    act_resolve_of_unpolled callable.held unpolled e prefetch name
  rw [hact]
  let q : Poller := { Poller.create w.settings key e .once with stage := .submitted evicted }
  let made : Watch :=
    { { w with records := w.records.resolve w.now key prefetch }.log
        (.pollerSubmitted w.pollers.length key) with
      pollers := w.pollers ++ [q] }.countSubmission.bind name w.records.pollersMade
  have hfound : made.pollers[w.pollers.length]? = some q := List.getElem?_concat_length
  have hready : made.Ready w.pollers.length q :=
    ⟨hfound, callable.alive, rfl, rfl, .inl rfl, responds.answers, responds.keeps⟩
  have hother : w.pollers.length ∉ evicted := fun hin => by
    obtain ⟨other, hold⟩ := hevicted _ hin
    exact Nat.lt_irrefl _ (sound.lt_of_stores (.inr hold))
  have heager : made.isEager w.pollers.length q = true := by
    simp only [isEager, q, Bool.not_eq_true', List.contains_eq_mem, decide_eq_false_iff_not]
    exact hother
  have hlive : made.isCancelled q = false := callable.running
  have hslot : (made.records.frontier key).slot = (w.records.frontier key).slot :=
    slot_resolve _ _ _ _ _
  have hfollows : (Course.mk w.settings w.network key e).Follows w.pollers.length
      (made.records.frontier key).slot
      (Round.outcome w.settings (w.network.holds key) e (made.records.frontier key).slot) made :=
    hready.follows
  rw [hslot] at hfollows
  exact ⟨fun actions => Course.first_outcome (.inr hfollows) hready.keeps,
    hfollows.canClose hfound heager hlive hready.answers hready.keeps⟩

/-- A lookup of a document whose temporary poller is at rest probes the edition alone, unless it is
below the first unknown one, and then walks from where this poller always does; without a poller
it walks from the edition. The round with the hint shows no less if it sets out neither from
below the edition nor from behind the first one that is both unknown and above it. It does so
whatever exists and whatever ends a walk exactly if it would set out from there without any hint,
or if the edition is the last of all. -/
theorem hinted_round_covers_walk {settings : Settings} {w v : Watch} {key : DocumentKey}
    {id : PollerId} {p : Poller} (arises : w.Arises settings) (arises' : v.Arises settings)
    (callable : w.Callable) (callable' : v.Callable) (idle : w.Idle key id p)
    (unpolled : v.Unpolled key) (responds : w.network.Responds key)
    (network : v.network = w.network)
    (slot : (v.records.frontier key).slot = (w.records.frontier key).slot) (e : Edition)
    (prefetch : Bool) (name : String) :
    let known := (w.records.frontier key).slot
    let holds := w.network.holds key
    let begin := Round.walkStart (Records.raisedBy known (Round.hinted? holds known [e])) p.origin
    let first := max (w.records.frontier key).nextUnknown (Edition.next e)
    let hinted := Round.scan settings holds p.origin known [e]
    let fresh := Round.outcome settings holds e known
    (w.act (.resolve ⟨key, e⟩ prefetch name)).NextCloses id key hinted ∧
    (v.act (.resolve ⟨key, e⟩ prefetch name)).NextCloses v.pollers.length key fresh ∧
    (e ≤ begin → begin ≤ first → fresh.slot ≤ hinted.slot) ∧
    (Round.HintCovers p.origin e known ↔ Round.walkStart known p.origin ≤ first ∧
      (e ≤ Round.walkStart known p.origin ∨ e = Edition.last)) := by
  intro known holds begin first hinted fresh
  have hcached := nextCloses_of_idle arises.sound callable idle responds e prefetch name
  have hresponds : v.network.Responds key := network ▸ responds
  have hmade := nextCloses_of_unpolled arises'.sound callable' unpolled hresponds e prefetch name
  rw [arises.settings_eq] at hcached
  rw [arises'.settings_eq, network, slot] at hmade
  exact ⟨hcached, hmade, Round.slot_outcome_le_scan holds p.origin e known,
    Round.hintCovers_iff p.origin e known⟩

/-- A poller that was made to look a document up from the edition 4 on is given the edition 3 as a
hint. It comes to the edition 7 as a new poller does. -/
theorem hinted_round_covers_walk_of_next :
    let notes : DocumentKey := ⟨.uniform 7, "notes"⟩
    let rule (e : Edition) : NetworkRule := ⟨notes, e, e, some .data, some .data, []⟩
    let network : Network := ⟨[rule 5, rule 7], 0, 0⟩
    let w := (initial .standard []).run ((.resolve ⟨notes, 4⟩ false "first" ::
      List.replicate 12 (.work (.poller 0))) ++ [.setNetwork network])
    let v := (initial .standard []).run [.setNetwork network]
    (w.act (.resolve ⟨notes, 3⟩ false "second")).NextCloses 0 notes ⟨true, some 7⟩ ∧
      (v.act (.resolve ⟨notes, 3⟩ false "second")).NextCloses 0 notes ⟨true, some 7⟩ ∧
      (Round.outcome .standard (network.holds notes) 3 none).slot ≤
        (Round.scan .standard (network.holds notes) 4 none [3]).slot := by
  intro notes rule network w v
  have hview : (w.pollers[0]?).map (fun p => (p.origin, p.hints, p.inbox.length)) =
      some (4, [], 0) := by decide
  have hstage : (w.pollers[0]?).map (fun p => (p.isUnderway, p.stage.isInRound, p.wake?)) =
      some (true, false, none) := by decide
  obtain ⟨p, hp, hfields⟩ := Option.map_eq_some_iff.mp hview
  rw [hp, Option.map_some, Option.some.injEq] at hstage
  simp only [Prod.mk.injEq, List.length_eq_zero_iff] at hfields
  obtain ⟨horigin, hhints, hinbox⟩ := hfields
  have hrests : p.stage = .resting none := by
    simp only [Prod.mk.injEq, Poller.isUnderway, Poller.wake?] at hstage
    obtain ⟨hunderway, hout, hwake⟩ := hstage
    cases hs : p.stage with
    | submitted evicted => rw [hs] at hunderway; cases hunderway
    | rounding round => rw [hs] at hout; cases hout
    | waiting round flight => rw [hs] at hout; cases hout
    | resting wake =>
      rw [hs] at hwake
      exact congrArg Poller.Stage.resting hwake
    | ended => rw [hs] at hunderway; cases hunderway
  have hrules : w.network = network := rfl
  have hslot : (w.records.frontier notes).slot = none := by decide
  have hunknown : (w.records.frontier notes).nextUnknown = 0 := by decide
  have hresponds : w.network.Responds notes := by
    rw [hrules]
    exact ⟨fun request _ => Network.isSome_reply (by simp [network, rule]) request,
      fun request _ => Network.releases_eq_false (by simp [network, rule]) request⟩
  obtain ⟨hcached, hmade, hcovers, -⟩ := hinted_round_covers_walk (w := w) (v := v) ⟨[], _, rfl⟩
    ⟨[], _, rfl⟩ ⟨by decide, by decide⟩ ⟨by decide, by decide⟩
    ⟨by decide, hp, hrests, hhints, hinbox⟩ ⟨by decide, by decide, by decide⟩ hresponds rfl
    (by decide) 3 false "second"
  have hscan : Round.scan .standard (network.holds notes) 4 none [3] = ⟨true, some 7⟩ := by decide
  have hwalk : Round.outcome .standard (network.holds notes) 3 none = ⟨true, some 7⟩ := by decide
  rw [hrules, horigin, hslot, hscan] at hcached
  rw [hrules, hslot, hwalk] at hmade
  rw [hrules, horigin, hslot, hunknown, hscan, hwalk] at hcovers
  have habove : (3 : Edition) ≤ Round.walkStart
      (Records.raisedBy none (Round.hinted? (network.holds notes) none [3])) 4 := by decide
  have hbehind : Round.walkStart
      (Records.raisedBy none (Round.hinted? (network.holds notes) none [3])) 4 ≤
        max 0 (Edition.next 3) := by decide
  -- Without this the comparison in the goal is unfolded into both rounds before it is matched.
  rw [hscan, hwalk]
  exact ⟨hcached, hmade, hcovers habove hbehind⟩

/-- A poller that was made to look a document up from the edition 0 on is given the edition 10 as a
hint. It finds nothing, and a new poller would have found the edition 11. -/
theorem missed_behind_hint :
    let notes : DocumentKey := ⟨.uniform 7, "notes"⟩
    let network : Network := ⟨[⟨notes, 11, 11, some .data, some .data, []⟩], 0, 0⟩
    let turns : List Action := List.replicate 20 (.work (.poller 0))
    let v := (initial .standard []).run [.setNetwork network]
    let w := v.run (.resolve ⟨notes, 0⟩ false "first" :: turns)
    let again : Action := .resolve ⟨notes, 10⟩ false "second"
    w.held = true ∧ w.stopped = false ∧ w.records.cache.poller? notes = some 0 ∧
      (w.pollers[0]?.map fun p => match p.stage with
        | .resting none => (p.hints, p.inbox.length)
        | _ => ([], 1)) = some ([], 0) ∧
      v.records.lookup notes = .started 0 none ∧
      w.network.reply ⟨.block, ⟨notes, 11⟩⟩ = some .data ∧
      (w.records.frontier notes).slot = none ∧ (v.records.frontier notes).slot = none ∧
      (w.act again).outcomes 0 turns = [⟨false, none⟩] ∧
      (v.act again).outcomes 0 turns = [⟨true, some 11⟩] := by
  decide

end Watch

end EditionWatch
