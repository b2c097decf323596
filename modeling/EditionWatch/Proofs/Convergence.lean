import EditionWatch.Proofs.Walk

/-!
# Repeated rounds

The rounds of a poller come out as the walks they are made of, however their turns are mixed
with whatever else happens, as long as nobody else raises the slot or tells the poller
anything and the network stays as it is. The invariant behind it: what is left of a round in
progress ends as the round was bound to end from its beginning. And as each turn brings a
round nearer to its end, every round that has begun can be brought there.
-/

namespace EditionWatch

/-- Whether the network shows that an edition exists. -/
def Network.holds (net : Network) (key : DocumentKey) (e : Edition) : Bool :=
  (net.reply ⟨.block, ⟨key, e⟩⟩).map Reply.verdict = some .present

/-- An answer that is there is the reply to come. -/
theorem Flight.reply_of_answer {flight : Flight} {now : Instant} {reply : Reply}
    (h : flight.answer now = some reply) : flight.reply = some reply := by
  rw [answer] at h
  split at h
  · exact h
  · cases h

/-- A network whose rules all answer answers everything. -/
theorem Network.isSome_reply {net : Network}
    (h : ∀ rule ∈ net.rules, rule.block.isSome = true ∧ rule.content.isSome = true)
    (request : Request) : (net.reply request).isSome = true := by
  unfold reply
  split
  · rfl
  case h_2 rule hfound =>
    obtain ⟨hblock, hcontent⟩ := h rule (List.mem_of_find?_eq_some hfound)
    cases hkind : request.kind with
    | block => exact hblock
    | content => exact hcontent

/-- A network whose rules release nothing takes no watch away. -/
theorem Network.releases_eq_false {net : Network} (h : ∀ rule ∈ net.rules, rule.releases = [])
    (request : Request) : net.releases request = false := by
  rw [releases, List.any_eq_false]
  intro rule hrule
  simp [h rule hrule]

/-- Whether a poller is in the middle of a round. -/
def Poller.Stage.isInRound : Poller.Stage → Bool
  | .rounding _ => true
  | .waiting _ _ => true
  | _ => false

/-- Whether a poller found something in the round that it is about to close. -/
def Poller.Stage.closes? : Poller.Stage → Option Bool
  | .rounding (.over found) => some found
  | _ => none

/-- What stays the same while a poller polls. -/
structure Course where
  /-- The settings of the watch. -/
  settings : Settings
  /-- The network. -/
  network : Network
  /-- The document. -/
  key : DocumentKey
  /-- The edition that the poller started at. -/
  origin : Edition

namespace Course

variable (c : Course) {slot : Option Edition} {o : Round.Outcome}

/-- How a round that begins at a slot ends. -/
def outcome (slot : Option Edition) : Round.Outcome :=
  Round.outcome c.settings (c.network.holds c.key) c.origin slot

/-- What is left of a round in progress, without hints, ends with this outcome. -/
inductive Heads (slot : Option Edition) (o : Round.Outcome) : Round → Prop where
  | opening (ends : c.outcome slot = o) : Heads slot o (.opening [])
  | hinting (ends : c.outcome slot = o) : Heads slot o (.hinting [])
  | aligning (ends : c.outcome slot = o) : Heads slot o (.aligning false)
  | walking (found : Bool) (e : Edition) (misses probes : Nat)
      (ends : Round.walk c.settings (c.network.holds c.key) (c.settings.maxProbes.toNat - probes)
        found slot e misses = o) : Heads slot o (.walking found e misses probes)
  | asking (found : Bool) (e : Edition) (misses probes : Nat)
      (goesOn : Round.goesOn c.settings misses probes = true)
      (ends : Round.walk c.settings (c.network.holds c.key) (c.settings.maxProbes.toNat - probes)
        found slot e misses = o) : Heads slot o (.asking found e misses probes)
  | confirming (ends : o = ⟨true, slot⟩) : Heads slot o .confirming
  | fetching (e : Edition) (is : slot = some e) (ends : o = ⟨true, slot⟩) :
      Heads slot o (.fetching e)
  | «over» (found : Bool) (ends : o = ⟨found, slot⟩) : Heads slot o (.over found)

/-- The work of a poller in a round that ends with this outcome. A fetch that it waits for is
going to be answered as the network answers. -/
inductive HeadsAt (slot : Option Edition) (o : Round.Outcome) : Poller.Stage → Prop where
  | rounding (round : Round) (heads : c.Heads slot o round) : HeadsAt slot o (.rounding round)
  | waiting (round : Round) (flight : Flight) (heads : c.Heads slot o round) (request : Request)
      (asks : round.request? c.key = some request)
      (replies : flight.reply = c.network.reply request) : HeadsAt slot o (.waiting round flight)

/-- The turns that a round needs at most until it is over; waiting counts as half a turn. -/
def rank : Round → Nat
  | .opening _ => 3 * c.settings.maxProbes.toNat + 6
  | .hinting _ => 3 * c.settings.maxProbes.toNat + 5
  | .askingHint _ _ => 0
  | .aligning _ => 3 * c.settings.maxProbes.toNat + 4
  | .walking _ _ _ probes => 3 * (c.settings.maxProbes.toNat - probes) + 3
  | .asking _ _ _ probes => 3 * (c.settings.maxProbes.toNat - probes) + 2
  | .confirming => 2
  | .fetching _ => 1
  | .over _ => 0

/-- The rank of the work of a poller in a round. -/
def rankAt : Poller.Stage → Nat
  | .rounding round => 2 * c.rank round + 1
  | .waiting round _ => 2 * c.rank round
  | _ => 0

/-- What a watch shows to the poller: a slot, and what does not change. -/
structure Shows (slot : Option Edition) (stopped : Bool) (w : Watch) : Prop where
  settings : w.settings = c.settings
  network : w.network = c.network
  alive : w.isAlive = true
  slot : (w.records.frontier c.key).slot = slot
  stopped : w.stopped = stopped

end Course

/-! ## What a turn does to the scene -/

namespace Course.Shows

variable {c : Course} {slot : Option Edition} {stopped : Bool} {w : Watch}

theorem modifyPoller (h : c.Shows slot stopped w) (id : PollerId) (change : Poller → Poller) :
    c.Shows slot stopped (w.modifyPoller id change) :=
  ⟨h.settings, h.network, h.alive, h.slot, h.stopped⟩

/-- To submit the delivery job does not change what a watch shows. -/
theorem flush (h : c.Shows slot stopped w) : c.Shows slot stopped w.flush := by
  unfold Watch.flush Watch.submitJob
  split
  · split <;> exact ⟨h.settings, h.network, h.alive, h.slot, h.stopped⟩
  · exact h

theorem countVerdict (h : c.Shows slot stopped w) (verdict : Verdict) :
    c.Shows slot stopped { w with records := w.records.countVerdict verdict } := by
  refine ⟨h.settings, h.network, h.alive, ?_, h.stopped⟩
  cases verdict <;> exact h.slot

/-- A slot that is noted raises what a watch shows. -/
theorem noteSlot (h : c.Shows slot stopped w) (e : Edition) :
    c.Shows (raised slot e) stopped (w.noteSlot ⟨c.key, e⟩) := by
  refine flush (w := { w with records := w.records.noteSlot w.now ⟨c.key, e⟩ })
    ⟨h.settings, h.network, h.alive, ?_, h.stopped⟩
  have hslot := congrArg Frontier.slot
    (Records.frontier_noteSlot w.records w.now ⟨c.key, e⟩ c.key)
  rw [if_pos rfl] at hslot
  rw [← h.slot]
  exact hslot

/-- What is fetched of the slot leaves the slot as it is. -/
theorem noteGood {e : Edition} (h : c.Shows (some e) stopped w) :
    c.Shows (some e) stopped (w.noteGood ⟨c.key, e⟩) := by
  refine flush (w := { w with records := w.records.noteGood w.now ⟨c.key, e⟩ })
    ⟨h.settings, h.network, h.alive, ?_, h.stopped⟩
  have hslot : (w.records.frontier c.key).slot = some e := h.slot
  have hbelow : isAbove e (some e) = false := decide_eq_false (UInt64.lt_irrefl e)
  change ((w.records.noteGood w.now ⟨c.key, e⟩).frontier c.key).slot = some e
  unfold Records.noteGood Frontier.raiseGood?
  dsimp only
  cases isAbove e (w.records.frontier c.key).good with
  | false => exact hslot
  | true =>
    simp only [if_true, hslot, hbelow, Bool.false_eq_true, if_false]
    rw [Records.frontier_announce]
    change ((w.records.setFrontier c.key _).frontier c.key).slot = some e
    rw [Records.frontier_setFrontier, if_pos rfl]

/-- A fetch that releases nothing can be issued without a change of what a watch shows. -/
theorem issue (h : c.Shows slot stopped w) {request : Request}
    (keeps : c.network.releases request = false) :
    c.Shows slot stopped (w.issue request).watch := by
  have hnet := h.network
  unfold Watch.issue
  cases request with
  | mk kind uri =>
    cases kind with
    | block =>
      change c.Shows slot stopped (if w.network.releases ⟨.block, uri⟩ then _ else _)
      rw [hnet, keeps]
      exact ⟨h.settings, h.network, h.alive, h.slot, h.stopped⟩
    | content =>
      change c.Shows slot stopped (if w.network.releases ⟨.content, uri⟩ then _ else _)
      rw [hnet, keeps]
      exact ⟨h.settings, h.network, h.alive, h.slot, h.stopped⟩

end Course.Shows

/-! ## A turn inside a round -/

namespace Course

variable {c : Course} {slot : Option Edition} {o : Round.Outcome} {stopped : Bool} {w : Watch}
  {id : PollerId} {p : Poller} {limit : Nat}

/-- A turn has brought a round nearer to its end, and changed nothing else about its poller. -/
def MovesOn (c : Course) (id : PollerId) (p : Poller) (stopped : Bool) (o : Round.Outcome)
    (limit : Nat) (v : Watch) : Prop :=
  ∃ slot stage, c.Shows slot stopped v ∧ v.pollers[id]? = some { p with stage := stage } ∧
    c.HeadsAt slot o stage ∧ c.rankAt stage < limit

/-- A poller whose round heads for the outcome and is nearer to its end moves on. -/
theorem movesOn_setRound (shows : c.Shows slot stopped w) (found : w.pollers[id]? = some p)
    {round : Round} (heads : c.Heads slot o round) (less : 2 * c.rank round + 1 < limit) :
    c.MovesOn id p stopped o limit (w.setRound id round).watch :=
  ⟨slot, .rounding round, shows.modifyPoller id _, Watch.getElem?_modify_self found _,
    .rounding round heads, less⟩

/-- A reply shows that an edition exists if the network says so. -/
theorem verdict_eq_present_iff {e : Edition} {reply : Reply}
    (h : c.network.reply ⟨.block, ⟨c.key, e⟩⟩ = some reply) :
    reply.verdict = .present ↔ c.network.holds c.key e = true := by
  rw [Network.holds, h, decide_eq_true_eq, Option.map_some, Option.some.injEq]

/-- A poller that takes a reply moves on to a stage of lower rank. -/
theorem movesOn_takeReply (shows : c.Shows slot stopped w) (found : w.pollers[id]? = some p)
    {round : Round} (heads : c.Heads slot o round) {request : Request}
    (asks : round.request? c.key = some request) {reply : Reply}
    (replies : c.network.reply request = some reply) :
    c.MovesOn id p stopped o (2 * c.rank round) (w.takeReply id c.key round reply).watch := by
  cases heads with
  | asking raised e misses probes goesOn ends =>
    cases asks
    have hcounted := shows.countVerdict reply.verdict
    have hwalk := Round.walk_of_goesOn (c.network.holds c.key) goesOn raised slot e
    have hprobes : probes < c.settings.maxProbes.toNat := by
      rw [Round.goesOn, Bool.and_eq_true, decide_eq_true_eq, decide_eq_true_eq] at goesOn
      exact goesOn.2
    have hless : 2 * (3 * (c.settings.maxProbes.toNat - (probes + 1)) + 3) + 1 <
        2 * (3 * (c.settings.maxProbes.toNat - probes) + 2) := by omega
    rw [ends] at hwalk
    unfold Watch.takeReply
    dsimp only
    split
    case isTrue hpresent =>
      rw [(verdict_eq_present_iff replies).mp hpresent, if_pos rfl] at hwalk
      rw [if_pos hcounted.alive]
      have hraises : Records.raisesSlot (w.records.countVerdict reply.verdict) ⟨c.key, e⟩ =
          isAbove e slot := congrArg (isAbove e) hcounted.slot
      rw [hraises]
      refine movesOn_setRound (hcounted.noteSlot e) ?_ (.walking _ _ _ _ hwalk.symm) hless
      rw [Watch.pollers_noteSlot]
      exact found
    case isFalse hpresent =>
      have habsent : c.network.holds c.key e = false :=
        Bool.eq_false_iff.mpr fun hh => hpresent ((verdict_eq_present_iff replies).mpr hh)
      rw [habsent, if_neg Bool.false_ne_true] at hwalk
      exact movesOn_setRound hcounted found (.walking _ _ _ _ hwalk.symm) hless
  | fetching e is ends =>
    cases asks
    subst is
    unfold Watch.takeReply
    dsimp only
    split
    · refine movesOn_setRound shows.noteGood ?_ (.over true ends) (by simp [rank])
      rw [Watch.pollers_noteGood]
      exact found
    · exact movesOn_setRound shows found (.over true ends) (by simp [rank])
  | _ => cases asks

/-- A turn that issues a fetch takes the reply if it is there at once, else it waits for it. -/
theorem sendRequest_cases (shows : c.Shows slot stopped w) (found : w.pollers[id]? = some p)
    (round : Round) {request : Request} (keeps : c.network.releases request = false) :
    ∃ v, c.Shows slot stopped v ∧ v.pollers[id]? = some p ∧
      ((∃ reply, c.network.reply request = some reply ∧
          w.sendRequest id c.key round request = v.takeReply id c.key round reply) ∨
        ∃ flight : Flight, flight.reply = c.network.reply request ∧
          w.sendRequest id c.key round request =
            ⟨v.setStage id (.waiting round flight), false⟩) := by
  have hfound : (w.issue request).watch.pollers[id]? = some p := by
    rw [Watch.pollers_issue]
    exact found
  have hreply : (w.issue request).flight.reply = c.network.reply request := by
    rw [← shows.network]
    rfl
  refine ⟨(w.issue request).watch, shows.issue keeps, hfound, ?_⟩
  cases hanswer : (w.issue request).flight.answer w.now with
  | some reply =>
    have hreplies := hreply.symm.trans (Flight.reply_of_answer hanswer)
    exact .inl ⟨reply, hreplies, by simp only [Watch.sendRequest, hanswer]⟩
  | none => exact .inr ⟨_, hreply, by simp only [Watch.sendRequest, hanswer]⟩

/-- A poller that sends a request waits for the reply, which is one step nearer to the end. -/
theorem movesOn_sendRequest (shows : c.Shows slot stopped w) (found : w.pollers[id]? = some p)
    {round : Round} (heads : c.Heads slot o round) {request : Request}
    (asks : round.request? c.key = some request) (keeps : c.network.releases request = false) :
    c.MovesOn id p stopped o (2 * c.rank round + 1)
      (w.sendRequest id c.key round request).watch := by
  obtain ⟨v, hshows, hfound, ⟨reply, hreplies, hsent⟩ | ⟨flight, hreply, hsent⟩⟩ :=
    sendRequest_cases shows found round keeps
  · obtain ⟨next, stage, hnext, hat, hheads, hless⟩ :=
      movesOn_takeReply hshows hfound heads asks hreplies
    rw [hsent]
    exact ⟨next, stage, hnext, hat, hheads, Nat.lt_succ_of_lt hless⟩
  · rw [hsent]
    exact ⟨slot, .waiting round flight, hshows.modifyPoller id _,
      Watch.getElem?_modify_self hfound _, .waiting round flight heads request asks hreply,
      Nat.lt_succ_self _⟩

/-- A turn of a round that is not over brings it nearer to its end. -/
theorem movesOn_stepRound (shows : c.Shows slot stopped w) (found : w.pollers[id]? = some p)
    (key : p.key = c.key) (origin : p.origin = c.origin) {round : Round}
    (heads : c.Heads slot o round) (going : (Poller.Stage.rounding round).closes? = none)
    (keeps : ∀ request, request.uri.key = c.key → c.network.releases request = false) :
    c.MovesOn id p stopped o (2 * c.rank round + 1) (w.stepRound id p round).watch := by
  have hstart : (w.records.frontier c.key).nextUnknown = Frontier.nextUnknown ⟨slot, none⟩ := by
    rw [← shows.slot]
    rfl
  unfold Watch.stepRound
  rw [key]
  cases heads with
  | opening ends =>
    dsimp only
    rw [if_pos shows.alive, Round.selectHints, List.filter_nil]
    refine movesOn_setRound shows found (.hinting ends) ?_
    simp only [rank]
    omega
  | hinting ends =>
    refine movesOn_setRound shows found (.aligning ends) ?_
    simp only [rank]
    omega
  | aligning ends =>
    dsimp only
    rw [if_pos shows.alive, Round.align, hstart, origin]
    refine movesOn_setRound shows found (.walking _ _ _ _ ends) ?_
    simp only [rank]
    omega
  | walking raised e misses probes ends =>
    dsimp only
    rw [shows.settings, Round.proceed]
    split
    case isTrue hgoes =>
      refine movesOn_setRound shows found (.asking raised e misses probes hgoes ends) ?_
      simp only [rank]
      omega
    case isFalse hends =>
      have hwalk := Round.walk_of_not_goesOn (c.network.holds c.key)
        (Bool.eq_false_iff.mpr hends) raised slot e
      rw [ends] at hwalk
      cases raised with
      | true =>
        rw [if_pos rfl]
        refine movesOn_setRound shows found (.confirming hwalk) ?_
        simp only [rank]
        omega
      | false =>
        rw [if_neg Bool.false_ne_true]
        refine movesOn_setRound shows found (.over false hwalk) ?_
        simp only [rank]
        omega
  | confirming ends =>
    dsimp only
    rw [if_pos shows.alive, Round.confirm, shows.slot]
    cases slot with
    | none =>
      dsimp only
      exact movesOn_setRound shows found (.over true ends) (by simp [rank])
    | some e =>
      dsimp only
      split
      · exact movesOn_setRound shows found (.fetching e rfl ends) (by simp [rank])
      · exact movesOn_setRound shows found (.over true ends) (by simp [rank])
  | asking raised e misses probes goesOn ends =>
    exact movesOn_sendRequest shows found (.asking raised e misses probes goesOn ends) rfl
      (keeps _ rfl)
  | fetching e is ends =>
    exact movesOn_sendRequest shows found (.fetching e is ends) rfl (keeps _ rfl)
  | «over» raised ends => cases going

/-! ## Any turn -/

/-- A poller of the document from the origin, that was told nothing. -/
structure Owns (c : Course) (p : Poller) : Prop where
  key : p.key = c.key
  origin : p.origin = c.origin
  hints : p.hints = []
  inbox : p.inbox = []

/-- The next round that the work of a poller brings to an end has this outcome. -/
inductive Stands (c : Course) (slot : Option Edition) (o : Round.Outcome) :
    Poller.Stage → Prop where
  | inRound (stage : Poller.Stage) (heads : c.HeadsAt slot o stage) : Stands c slot o stage
  | between (stage : Poller.Stage) (out : stage.isInRound = false) (ends : c.outcome slot = o) :
      Stands c slot o stage
  | ended : Stands c slot o .ended

/-- Before a round, the slot decides how it ends. -/
theorem Stands.outcome_eq {stage : Poller.Stage} (h : c.Stands slot o stage)
    (out : stage.isInRound = false) (going : stage ≠ .ended) : c.outcome slot = o := by
  cases h with
  | inRound _ heads => cases heads <;> cases out
  | between _ _ ends => exact ends
  | ended => exact absurd rfl going

/-- A poller within a round heads for the outcome of the round. -/
theorem Stands.headsAt {stage : Poller.Stage} (h : c.Stands slot o stage)
    (within : stage.isInRound = true) : c.HeadsAt slot o stage := by
  cases h with
  | inRound _ heads => exact heads
  | between _ out _ =>
    rw [out] at within
    cases within
  | ended => cases within

/-- The next round of the poller that is brought to an end has this outcome. -/
structure Follows (c : Course) (id : PollerId) (slot : Option Edition) (o : Round.Outcome)
    (w : Watch) : Prop where
  shows : c.Shows slot w.stopped w
  poller : ∃ p, w.pollers[id]? = some p ∧ c.Owns p ∧ c.Stands slot o p.stage

/-- A poller at its place follows the course. -/
theorem follows_of_poller (shows : c.Shows slot stopped w) (found : w.pollers[id]? = some p)
    (owns : c.Owns p) (stands : c.Stands slot o p.stage) : c.Follows id slot o w :=
  ⟨⟨shows.settings, shows.network, shows.alive, shows.slot, rfl⟩, p, found, owns, stands⟩

/-- A poller that is changed follows the course if it is at its place then. -/
theorem follows_modifyPoller (shows : c.Shows slot stopped w) (found : w.pollers[id]? = some p)
    {change : Poller → Poller} (owns : c.Owns (change p))
    (stands : c.Stands slot o (change p).stage) :
    c.Follows id slot o (w.modifyPoller id change) :=
  follows_of_poller (shows.modifyPoller id change) (Watch.getElem?_modify_self found change) owns
    stands

/-- A poller that moves on follows the course, whatever it found meanwhile. -/
theorem follows_of_movesOn (owns : c.Owns p) (h : c.MovesOn id p stopped o limit w) :
    ∃ next, c.Follows id next o w := by
  obtain ⟨next, stage, hshows, hfound, hheads, -⟩ := h
  have howns : c.Owns { p with stage := stage } :=
    ⟨owns.key, owns.origin, owns.hints, owns.inbox⟩
  exact ⟨next, follows_of_poller hshows hfound howns (.inRound stage hheads)⟩

/-- A poller that begins a round follows the course to what the round comes to. -/
theorem follows_beginRound (shows : c.Shows slot stopped w) (found : w.pollers[id]? = some p)
    (owns : c.Owns p) (ends : c.outcome slot = o) :
    c.Follows id slot o (w.beginRound id).watch := by
  have hopening : c.HeadsAt slot o (.rounding (.opening p.hints)) := by
    rw [owns.hints]
    exact .rounding _ (.opening ends)
  have howns : c.Owns p.beginRound := ⟨owns.key, owns.origin, rfl, owns.inbox⟩
  exact follows_modifyPoller shows found howns (.inRound _ hopening)

/-- A poller that ends shows nothing new. -/
theorem shows_endPoller (shows : c.Shows slot stopped w) (found : w.pollers[id]? = some p)
    (cancelled : Bool) :
    c.Shows slot stopped (w.endPoller id p.key cancelled).watch ∧
      ∃ marked, (w.endPoller id p.key cancelled).watch.pollers[id]? =
        some { p.finish with cancelled := marked } := by
  let ended : Watch := w.finishPoller id
  have hended : ended.pollers[id]? = some p.finish :=
    Watch.getElem?_modify_self found _
  have hshows : c.Shows slot stopped ended := shows.modifyPoller id _
  unfold Watch.endPoller
  dsimp only
  split
  case isTrue =>
    have hfrontiers := (Records.keepsNews_removePoller ended.records p.key id cancelled).frontiers
    have hremoved : c.Shows slot stopped
        { ended with records := ended.records.removePoller p.key id cancelled } :=
      ⟨hshows.settings, hshows.network, hshows.alive,
        (congrArg (fun fs => (Frontiers.of fs c.key).slot) hfrontiers).trans hshows.slot,
        hshows.stopped⟩
    exact ⟨hremoved.modifyPoller id _, true, Watch.getElem?_modify_self hended _⟩
  case isFalse => exact ⟨hshows, p.cancelled, hended⟩

/-- A poller that ends follows the course: it has nothing left to do. -/
theorem follows_endPoller (shows : c.Shows slot stopped w) (found : w.pollers[id]? = some p)
    (owns : c.Owns p) (cancelled : Bool) :
    c.Follows id slot o (w.endPoller id p.key cancelled).watch := by
  obtain ⟨hshows, marked, hended⟩ := shows_endPoller shows found cancelled
  exact follows_of_poller hshows hended ⟨owns.key, owns.origin, owns.hints, rfl⟩ .ended

/-- A poller that closes a round stands before the next one, or ends. -/
theorem follows_closeRound (shows : c.Shows slot stopped w) (found : w.pollers[id]? = some p)
    (owns : c.Owns p) (raised : Bool) :
    c.Follows id slot (c.outcome slot) (w.closeRound id p raised).watch := by
  let counted : Watch := { w with records := w.records.countRound }
  let closed : Watch := counted.modifyPoller id fun p => { p with rounds := p.rounds + 1 }
  let told : Watch := { closed with records := closed.records.finishRound p.key }
  have hclosed : c.Shows slot stopped closed :=
    ⟨shows.settings, shows.network, shows.alive, shows.slot, shows.stopped⟩
  have htold : c.Shows slot stopped told.flush :=
    Shows.flush ⟨shows.settings, shows.network, shows.alive, shows.slot, shows.stopped⟩
  let q : Poller := { p with rounds := p.rounds + 1 }
  have hq : told.flush.pollers[id]? = some q := by
    rw [Watch.pollers_flush]
    exact Watch.getElem?_modify_self found _
  have howns : c.Owns q := ⟨owns.key, owns.origin, owns.hints, owns.inbox⟩
  have hrest (v : Watch) (r : Poller) (wake : Option Instant) (hv : c.Shows slot stopped v)
      (hr : v.pollers[id]? = some r) (ho : c.Owns r) :
      c.Follows id slot (c.outcome slot) (v.rest id p wake).watch :=
    follows_modifyPoller hv hr ⟨ho.key, ho.origin, ho.hints, ho.inbox⟩ (.between _ rfl rfl)
  unfold Watch.closeRound
  change c.Follows id slot _ (if closed.isAlive then _ else closed.abandon id).watch
  rw [if_pos hclosed.alive]
  dsimp only
  split
  · exact hrest _ q _ htold hq howns
  · split
    · exact follows_modifyPoller htold hq ⟨howns.key, howns.origin, howns.hints, rfl⟩ .ended
    · exact hrest _ _ _ (htold.modifyPoller id _) (Watch.getElem?_modify_self hq _)
        ⟨howns.key, howns.origin, howns.hints, howns.inbox⟩

end Course

namespace Watch

/-- The outcome of the round that a poller closes with its turn. -/
def closing? (w : Watch) (id : PollerId) : Action → Option Round.Outcome
  | .work (.poller other) =>
    if other = id then
      (w.pollers[id]?).bind fun p =>
        p.stage.closes?.map fun found => ⟨found, (w.records.frontier p.key).slot⟩
    else none
  | _ => none

/-- A poller closes a round in its turn if the round is over. -/
theorem closing?_of_turn {w : Watch} {id : PollerId} {p : Poller}
    (found : w.pollers[id]? = some p) :
    w.closing? id (.work (.poller id)) =
      p.stage.closes?.map fun raised => ⟨raised, (w.records.frontier p.key).slot⟩ := by
  rw [closing?, if_pos rfl, found, Option.bind_some]

/-- The outcomes of the rounds that a poller closes in a run, in order. -/
def outcomes (w : Watch) (id : PollerId) : List Action → List Round.Outcome
  | [] => []
  | action :: rest => (w.closing? id action).toList ++ (w.act action).outcomes id rest

/-- An action leaves a poller alone: neither the poller changes, nor what it sees. -/
structure Spares (w : Watch) (id : PollerId) (key : DocumentKey) (v : Watch) : Prop where
  poller : v.pollers[id]? = w.pollers[id]?
  slot : (v.records.frontier key).slot = (w.records.frontier key).slot
  settings : v.settings = w.settings
  network : v.network = w.network
  alive : v.isAlive = w.isAlive

/-- Along some actions, a poller takes turns and everything else leaves it alone. -/
def Undisturbed (w : Watch) (id : PollerId) (key : DocumentKey) : List Action → Prop
  | [] => True
  | action :: rest =>
    (action = .work (.poller id) ∨ w.Spares id key (w.act action)) ∧
      (w.act action).Undisturbed id key rest

/-- A turn of a poller, or time that passes. -/
def Action.IsOwn (id : PollerId) (action : Action) : Prop :=
  action = .work (.poller id) ∨ ∃ span, action = .elapse span

/-- Nothing but turns of the poller disturbs nothing. -/
theorem undisturbed_of_own {w : Watch} {id : PollerId} (key : DocumentKey)
    {actions : List Action} (h : ∀ action ∈ actions, action.IsOwn id) :
    w.Undisturbed id key actions := by
  induction actions generalizing w with
  | nil => trivial
  | cons action rest ih =>
    refine ⟨?_, ih fun other hin => h other (List.mem_cons_of_mem action hin)⟩
    rcases h action List.mem_cons_self with hturn | ⟨span, hspan⟩
    · exact .inl hturn
    · subst hspan
      exact .inr ⟨rfl, rfl, rfl, rfl, rfl⟩

/-- A poller that was told nothing, before its next round; the network answers whatever is
asked about its document and does not take the watch away. -/
structure Ready (w : Watch) (id : PollerId) (p : Poller) : Prop where
  found : w.pollers[id]? = some p
  alive : w.isAlive = true
  hints : p.hints = []
  inbox : p.inbox = []
  before : p.stage.isInRound = false ∨ p.stage = .rounding (.opening [])
  answers : ∀ request, request.uri.key = p.key → (w.network.reply request).isSome = true
  keeps : ∀ request, request.uri.key = p.key → w.network.releases request = false

/-- Turns of its own and time are enough for a poller to close a round with some outcome. -/
def CanClose (w : Watch) (id : PollerId) (o : Round.Outcome) : Prop :=
  ∃ later, (∀ action ∈ later, Action.IsOwn id action) ∧ w.outcomes id later = [o]

/-- Whether a poller is in a round or going to begin one by itself. -/
def isEager (w : Watch) (id : PollerId) (p : Poller) : Bool :=
  match p.stage with
  | .submitted evicted => !evicted.contains id
  | .rounding _ => true
  | .waiting _ _ => true
  | .resting wake => wake.isSome && w.isReferred id
  | .ended => false

end Watch

namespace Course

variable {c : Course} {slot : Option Edition} {o : Round.Outcome} {stopped : Bool} {w : Watch}
  {id : PollerId} {p : Poller}

/-- What an action of others leaves alone goes on as it was bound to. -/
theorem Follows.spared (h : c.Follows id slot o w) {v : Watch} (spares : w.Spares id c.key v) :
    c.Follows id slot o v := by
  obtain ⟨⟨hsettings, hnetwork, halive, hslot, -⟩, p, hfound, howns, hstands⟩ := h
  refine ⟨⟨spares.settings.trans hsettings, spares.network.trans hnetwork,
    spares.alive.trans halive, spares.slot.trans hslot, rfl⟩, p, ?_, howns, hstands⟩
  rw [spares.poller]
  exact hfound

/-- In a turn of its own a poller closes a round exactly if its stage says so. -/
theorem closing?_of_found (found : w.pollers[id]? = some p) (owns : c.Owns p)
    (shows : c.Shows slot stopped w) :
    w.closing? id (.work (.poller id)) = p.stage.closes?.map fun found => ⟨found, slot⟩ := by
  rw [Watch.closing?_of_turn found, owns.key, shows.slot]

/-- A round that heads for an outcome is over with this outcome, or goes on. -/
theorem Heads.over_or_going {round : Round} (h : c.Heads slot o round) :
    (∃ raised, round = .over raised ∧ o = ⟨raised, slot⟩) ∨
      (Poller.Stage.rounding round).closes? = none := by
  cases h with
  | «over» raised ends => exact .inl ⟨raised, rfl, ends⟩
  | _ => exact .inr rfl

/-- What is there once a poller that was submitted has cancelled others. -/
theorem shows_cancelPollers (shows : c.Shows slot stopped w) (found : w.pollers[id]? = some p)
    (evicted : List PollerId) :
    let v := (w.setStage id (.resting none)).cancelPollers evicted
    let q : Poller := { p with stage := .resting none }
    c.Shows slot stopped v ∧ v.pollers[id]? = some (if id ∈ evicted then q.cancel else q) := by
  intro v q
  have hset : (w.setStage id (.resting none)).pollers[id]? = some q :=
    Watch.getElem?_modify_self found _
  have hv : v = { w.setStage id (.resting none) with
      pollers := Roster.cancelAll evicted (w.setStage id (.resting none)).pollers } :=
    Watch.cancelPollers_eq _ evicted
  rw [hv]
  constructor
  · exact ⟨shows.settings, shows.network, shows.alive, shows.slot, shows.stopped⟩
  · change (Roster.cancelAll evicted (w.setStage id (.resting none)).pollers)[id]? = _
    rw [Roster.getElem?_cancelAll, hset]
    rfl

/-- The turn in which a poller begins its work. -/
theorem follows_submitted (shows : c.Shows slot stopped w) (found : w.pollers[id]? = some p)
    (owns : c.Owns p) (ends : c.outcome slot = o) (evicted : List PollerId) :
    let v := (w.setStage id (.resting none)).cancelPollers evicted
    c.Follows id slot o
      (if v.isCancelled p then v.endPoller id p.key true else v.beginRound id).watch := by
  intro v
  let q : Poller := { p with stage := .resting none }
  obtain ⟨hshows, hfound⟩ := shows_cancelPollers shows found evicted
  have hkey : (if id ∈ evicted then q.cancel else q).key = p.key := by
    split <;> rfl
  have howns : c.Owns (if id ∈ evicted then q.cancel else q) := by
    split <;> exact ⟨owns.key, owns.origin, owns.hints, owns.inbox⟩
  split
  case isTrue =>
    rw [← hkey]
    exact follows_endPoller hshows hfound howns true
  case isFalse => exact follows_beginRound hshows hfound howns ends

/-- A turn of the poller closes the round as it was bound to end, or goes on towards it. -/
theorem Follows.turn (h : c.Follows id slot o w)
    (keeps : ∀ request, request.uri.key = c.key → c.network.releases request = false) :
    (w.closing? id (.work (.poller id)) = none ∧
        ∃ next, c.Follows id next o (w.act (.work (.poller id)))) ∨
      (w.closing? id (.work (.poller id)) = some o ∧
        c.Follows id o.slot (c.outcome o.slot) (w.act (.work (.poller id)))) := by
  have hsame := h
  obtain ⟨hshows, p, hfound, howns, hstands⟩ := h
  rw [closing?_of_found hfound howns hshows]
  change (_ ∧ ∃ next, c.Follows id next o (w.stepPoller id).watch) ∨
    (_ ∧ c.Follows id o.slot (c.outcome o.slot) (w.stepPoller id).watch)
  unfold Watch.stepPoller
  rw [hfound]
  dsimp only
  cases hs : p.stage with
  | submitted evicted =>
    rw [hs] at hstands
    have hends : c.outcome slot = o := hstands.outcome_eq rfl (by simp)
    exact .inl ⟨rfl, slot, follows_submitted hshows hfound howns hends evicted⟩
  | rounding round =>
    rw [hs] at hstands
    have hheads : c.Heads slot o round := by
      cases hstands.headsAt rfl with
      | rounding _ heads => exact heads
    rcases hheads.over_or_going with ⟨raised, hround, ho⟩ | hgoing
    · subst hround ho
      exact .inr ⟨rfl, follows_closeRound hshows hfound howns raised⟩
    · rw [hgoing]
      have hmoves :=
        movesOn_stepRound hshows hfound howns.key howns.origin hheads hgoing keeps
      exact .inl ⟨rfl, follows_of_movesOn howns hmoves⟩
  | waiting round flight =>
    rw [hs] at hstands
    have hheads : c.HeadsAt slot o (.waiting round flight) := hstands.headsAt rfl
    refine .inl ⟨rfl, ?_⟩
    dsimp only
    split
    case isTrue => exact ⟨slot, follows_endPoller hshows hfound howns true⟩
    case isFalse =>
      cases hanswer : flight.answer w.now with
      | none => exact ⟨slot, hsame⟩
      | some reply =>
        cases hheads with
        | waiting _ _ heads request asks replies =>
          rw [howns.key]
          have hreply := Flight.reply_of_answer hanswer
          exact follows_of_movesOn howns
            (movesOn_takeReply hshows hfound heads asks (replies.symm.trans hreply))
  | resting wake =>
    rw [hs] at hstands
    have hends : c.outcome slot = o := hstands.outcome_eq rfl (by simp)
    refine .inl ⟨rfl, slot, ?_⟩
    dsimp only
    rw [howns.inbox, List.isEmpty_nil, Bool.not_true, if_neg Bool.false_ne_true]
    split
    case isTrue => exact follows_endPoller hshows hfound howns true
    case isFalse =>
      split
      case isTrue => exact follows_endPoller hshows hfound howns false
      case isFalse =>
        split
        · exact follows_beginRound hshows hfound howns hends
        · exact hsame
  | ended => exact .inl ⟨rfl, slot, hsame⟩

/-- What is not a turn of a poller closes no round of it. -/
theorem closing?_of_ne {action : Watch.Action} (h : action ≠ .work (.poller id)) (w : Watch) :
    w.closing? id action = none := by
  cases action with
  | work job =>
    cases job with
    | poller other =>
      refine if_neg fun he => h ?_
      rw [he]
    | _ => rfl
  | _ => rfl

/-- The slot after so many rounds from a slot. -/
def slotAfter (c : Course) (slot : Option Edition) (n : Nat) : Option Edition :=
  Round.slotAfter c.settings (c.network.holds c.key) c.origin slot n

/-- Along an undisturbed run, one round after the other comes out as the walk from the slot that
the round before left. -/
theorem Follows.run {before : Option Edition} {actions : List Watch.Action}
    (h : c.Follows id slot (c.outcome before) w)
    (keeps : ∀ request, request.uri.key = c.key → c.network.releases request = false)
    (undisturbed : w.Undisturbed id c.key actions) :
    (∀ k o, (w.outcomes id actions)[k]? = some o → o = c.outcome (c.slotAfter before k)) ∧
      ∃ next after, c.Follows id next (c.outcome after) (w.run actions) := by
  induction actions generalizing w slot before with
  | nil => exact ⟨fun k o hk => (by cases hk), slot, before, h⟩
  | cons action rest ih =>
    obtain ⟨hfirst, hrest⟩ := undisturbed
    by_cases hown : action = .work (.poller id)
    · subst hown
      rcases h.turn keeps with ⟨hnone, next, hnext⟩ | ⟨hsome, hnext⟩
      · have hlater := ih hnext hrest
        rw [Watch.outcomes, hnone]
        exact hlater
      · obtain ⟨houtcomes, hend⟩ := ih hnext hrest
        rw [Watch.outcomes, hsome]
        refine ⟨fun k o hk => ?_, hend⟩
        cases k with
        | zero => exact (Option.some.inj hk).symm
        | succ k => exact houtcomes k o hk
    · have hspares := hfirst.resolve_left hown
      have hlater := ih (h.spared hspares) hrest
      rw [Watch.outcomes, closing?_of_ne hown]
      exact hlater

/-! ## Every round comes to its end -/

/-- A turn in a round is one of the round. -/
theorem act_rounding {round : Round} (found : w.pollers[id]? = some p)
    (stage : p.stage = .rounding round) :
    w.act (.work (.poller id)) = (w.stepRound id p round).watch := by
  change (w.stepPoller id).watch = _
  unfold Watch.stepPoller
  rw [found]
  simp only [stage]

/-- A turn once a reply is there takes the reply. -/
theorem act_waiting {round : Round} {flight : Flight} {reply : Reply}
    (found : w.pollers[id]? = some p) (stage : p.stage = .waiting round flight)
    (awake : w.isCancelled p = false) (answer : flight.answer w.now = some reply) :
    w.act (.work (.poller id)) = (w.takeReply id p.key round reply).watch := by
  change (w.stepPoller id).watch = _
  unfold Watch.stepPoller
  rw [found]
  simp only [stage, awake, answer, Bool.false_eq_true, if_false]

/-- The first turn of a poller that nobody cancels begins a round. -/
theorem act_submitted {evicted : List PollerId} (found : w.pollers[id]? = some p)
    (stage : p.stage = .submitted evicted) :
    let v := (w.setStage id (.resting none)).cancelPollers evicted
    v.isCancelled p = false → w.act (.work (.poller id)) = (v.beginRound id).watch := by
  intro v awake
  change (w.stepPoller id).watch = _
  unfold Watch.stepPoller
  rw [found]
  simp only [stage]
  change Watch.Turn.watch (if v.isCancelled p then _ else _) = _
  rw [awake, if_neg Bool.false_ne_true]

/-- A turn at the time to wake begins a round. -/
theorem act_resting {wake : Option Instant} (found : w.pollers[id]? = some p)
    (stage : p.stage = .resting wake) (inbox : p.inbox = []) (awake : w.isCancelled p = false)
    (referred : w.isReferred id = true) (due : w.isDue wake = true) :
    w.act (.work (.poller id)) = (w.beginRound id).watch := by
  change (w.stepPoller id).watch = _
  unfold Watch.stepPoller
  rw [found]
  simp only [stage, awake, inbox, referred, due, List.isEmpty_nil, Bool.not_true,
    Bool.false_eq_true, if_false, if_true]

/-- An own action that closes nothing may come before. -/
theorem canClose_of_act {action : Watch.Action} (own : action.IsOwn id)
    (silent : w.closing? id action = none) (h : (w.act action).CanClose id o) :
    w.CanClose id o := by
  obtain ⟨later, hlater, ho⟩ := h
  refine ⟨action :: later, fun other hin => ?_, ?_⟩
  · rcases List.mem_cons.mp hin with hin | hin
    · rw [hin]
      exact own
    · exact hlater other hin
  · rw [Watch.outcomes, silent, ho]
    rfl

/-- A poller that waits can close what it can close once it has the reply. -/
theorem canClose_of_reply (shows : c.Shows slot false w) (found : w.pollers[id]? = some p)
    (owns : c.Owns p) (live : p.cancelled = false) {round : Round} {flight : Flight}
    (stage : p.stage = .waiting round flight) {reply : Reply} (replies : flight.reply = some reply)
    (h : ∀ v : Watch, c.Shows slot false v → v.pollers[id]? = some p →
      (v.takeReply id c.key round reply).watch.CanClose id o) : w.CanClose id o := by
  -- the reply is there after the fetch has taken its time
  let v : Watch := w.act (.elapse flight.due)
  have hshows : c.Shows slot false v :=
    ⟨shows.settings, shows.network, shows.alive, shows.slot, shows.stopped⟩
  have hawake : v.isCancelled p = false := by
    rw [Watch.isCancelled, live, hshows.stopped]
    rfl
  have hdue : flight.due ≤ v.now := Nat.le_add_left flight.due w.now
  have hanswer : flight.answer v.now = some reply := by
    rw [Flight.answer, if_pos hdue]
    exact replies
  have hstep : v.act (.work (.poller id)) = (v.takeReply id p.key round reply).watch :=
    act_waiting found stage hawake hanswer
  rw [owns.key] at hstep
  have hsilent : v.closing? id (.work (.poller id)) = none := by
    have hclosing := closing?_of_found (w := v) found owns hshows
    rw [stage] at hclosing
    exact hclosing
  refine canClose_of_act (.inr ⟨flight.due, rfl⟩) rfl (canClose_of_act (.inl rfl) hsilent ?_)
  rw [hstep]
  exact h v hshows found

/-- A poller in a round that is not cancelled can close it. -/
theorem canClose_of_headsAt (shows : c.Shows slot false w) (found : w.pollers[id]? = some p)
    (owns : c.Owns p) (live : p.cancelled = false) (heads : c.HeadsAt slot o p.stage)
    (answers : ∀ request, request.uri.key = c.key → (c.network.reply request).isSome = true)
    (keeps : ∀ request, request.uri.key = c.key → c.network.releases request = false) :
    w.CanClose id o := by
  induction hrank : c.rankAt p.stage using Nat.strongRecOn generalizing w p slot with
  | ind size ih =>
    -- a turn that moves on is followed by those that close the round
    have hmoved {v : Watch} (h : c.MovesOn id p false o size v) : v.CanClose id o := by
      obtain ⟨next, stage, hshows, hfound, hheads, hless⟩ := h
      exact ih (c.rankAt stage) hless hshows hfound
        ⟨owns.key, owns.origin, owns.hints, owns.inbox⟩ live hheads rfl
    have hturn : Watch.Action.IsOwn id (.work (.poller id)) := .inl rfl
    have hclosing := closing?_of_found found owns shows
    cases hs : p.stage with
    | rounding round =>
      rw [hs] at heads hrank hclosing
      have hheads : c.Heads slot o round := by
        cases heads with
        | rounding _ heads => exact heads
      rcases hheads.over_or_going with ⟨raised, hround, ho⟩ | hgoing
      · subst hround ho
        refine ⟨[.work (.poller id)], fun action hin => ?_, ?_⟩
        · rw [List.mem_singleton.mp hin]
          exact hturn
        · rw [Watch.outcomes, hclosing]
          rfl
      · have hmoves := movesOn_stepRound shows found owns.key owns.origin hheads hgoing keeps
        rw [hgoing] at hclosing
        refine canClose_of_act hturn hclosing ?_
        rw [act_rounding found hs]
        exact hmoved (hrank ▸ hmoves)
    | waiting round flight =>
      rw [hs] at heads hrank
      cases heads with
      | waiting _ _ heads request asks replies =>
        have hkey : request.uri.key = c.key := by
          cases heads <;> cases asks <;> rfl
        obtain ⟨reply, hreply⟩ := Option.isSome_iff_exists.mp (answers request hkey)
        exact canClose_of_reply shows found owns live hs (replies.trans hreply)
          fun v hshows hfound => hmoved (hrank ▸ movesOn_takeReply hshows hfound heads asks hreply)
    | _ =>
      rw [hs] at heads
      cases heads

/-- A poller that has just begun a round can close it. -/
theorem canClose_of_begun (shows : c.Shows slot false w) (found : w.pollers[id]? = some p)
    (owns : c.Owns p) (live : p.cancelled = false)
    (answers : ∀ request, request.uri.key = c.key → (c.network.reply request).isSome = true)
    (keeps : ∀ request, request.uri.key = c.key → c.network.releases request = false) :
    (w.beginRound id).watch.CanClose id (c.outcome slot) := by
  have hopening : c.HeadsAt slot (c.outcome slot) p.beginRound.stage := by
    change c.HeadsAt slot (c.outcome slot) (.rounding (.opening p.hints))
    rw [owns.hints]
    exact .rounding _ (.opening rfl)
  exact canClose_of_headsAt (p := p.beginRound) (shows.modifyPoller id _)
    (Watch.getElem?_modify_self found _) ⟨owns.key, owns.origin, rfl, owns.inbox⟩ live hopening
    answers keeps

/-- A poller that is in a round or going to begin one can close it as it is bound to end. -/
theorem Follows.canClose (h : c.Follows id slot o w) (found : w.pollers[id]? = some p)
    (eager : w.isEager id p = true) (live : w.isCancelled p = false)
    (answers : ∀ request, request.uri.key = c.key → (c.network.reply request).isSome = true)
    (keeps : ∀ request, request.uri.key = c.key → c.network.releases request = false) :
    w.CanClose id o := by
  obtain ⟨hshows, q, hq, howns, hstands⟩ := h
  have hpq : q = p := Option.some.inj (hq.symm.trans found)
  subst hpq
  obtain ⟨hlive, hrunning⟩ := Bool.or_eq_false_iff.mp live
  rw [hrunning] at hshows
  have hturn : Watch.Action.IsOwn id (.work (.poller id)) := .inl rfl
  have hclosing := closing?_of_found found howns hshows
  cases hs : q.stage with
  | submitted evicted =>
    rw [Watch.isEager, hs, Bool.not_eq_true', List.contains_eq_mem, decide_eq_false_iff_not]
      at eager
    rw [hs] at hstands hclosing
    have hends : c.outcome slot = o := hstands.outcome_eq rfl (by simp)
    subst hends
    let v : Watch := (w.setStage id (.resting none)).cancelPollers evicted
    obtain ⟨hvshows, hr⟩ := shows_cancelPollers hshows found evicted
    rw [if_neg eager] at hr
    have hawake : v.isCancelled q = false := by
      rw [Watch.isCancelled, hlive, hvshows.stopped]
      rfl
    refine canClose_of_act hturn hclosing ?_
    rw [act_submitted found hs hawake]
    exact canClose_of_begun hvshows hr ⟨howns.key, howns.origin, howns.hints, howns.inbox⟩ hlive
      answers keeps
  | resting wake =>
    rw [Watch.isEager, hs, Bool.and_eq_true] at eager
    obtain ⟨hwakes, hreferred⟩ := eager
    obtain ⟨time, htime⟩ := Option.isSome_iff_exists.mp hwakes
    subst htime
    rw [hs] at hstands
    have hends : c.outcome slot = o := hstands.outcome_eq rfl (by simp)
    subst hends
    let v : Watch := w.act (.elapse time)
    have hvshows : c.Shows slot false v :=
      ⟨hshows.settings, hshows.network, hshows.alive, hshows.slot, hshows.stopped⟩
    have hfound : v.pollers[id]? = some q := found
    have hdue : v.isDue (some time) = true := decide_eq_true (Nat.le_add_left time w.now)
    have hstep : v.act (.work (.poller id)) = (v.beginRound id).watch :=
      act_resting hfound hs howns.inbox live hreferred hdue
    have hsilent : v.closing? id (.work (.poller id)) = none := by
      have hclosing := closing?_of_found hfound howns hvshows
      rw [hs] at hclosing
      exact hclosing
    refine canClose_of_act (.inr ⟨time, rfl⟩) rfl (canClose_of_act hturn hsilent ?_)
    rw [hstep]
    exact canClose_of_begun hvshows hfound howns hlive answers keeps
  | ended =>
    rw [Watch.isEager, hs] at eager
    cases eager
  | _ =>
    have hheads : c.HeadsAt slot o q.stage := hstands.headsAt (hs ▸ rfl)
    exact canClose_of_headsAt hshows found howns hlive hheads answers keeps

end Course

namespace Watch

variable {w : Watch} {id : PollerId} {p : Poller}

/-- A poller about to poll follows the course that it finds. -/
theorem Ready.follows (h : w.Ready id p) :
    let c : Course := ⟨w.settings, w.network, p.key, p.origin⟩
    let slot := (w.records.frontier p.key).slot
    c.Follows id slot (c.outcome slot) w := by
  intro c slot
  have hshows : c.Shows slot w.stopped w := ⟨rfl, rfl, h.alive, rfl, rfl⟩
  refine ⟨hshows, p, h.found, ⟨rfl, rfl, h.hints, h.inbox⟩, ?_⟩
  rcases h.before with hout | hopening
  · exact .between _ hout rfl
  · rw [hopening]
    exact .inRound _ (.rounding _ (.opening rfl))

/-- Repeated rounds converge. From any state of the records and any origin there is a number of
rounds after which the slot is the newest edition that can be reached, and never before. Along
every run that leaves the poller alone, exactly the rounds before find something new; all
others find nothing and leave the slot as it is. At any point of such a run, a poller that is
in a round, or going to begin one, needs only turns of its own and time to close it. -/
theorem rounds_converge_undisturbed (ready : w.Ready id p)
    (one : 1 ≤ w.settings.minFailures) (fits : w.settings.minFailures ≤ w.settings.maxProbes) :
    let slot := (w.records.frontier p.key).slot
    ∃ n newest,
      Round.IsNewest w.settings (w.network.holds p.key) p.origin slot newest ∧
      (slot = newest ↔ n = 0) ∧
      ∀ actions, w.Undisturbed id p.key actions →
        (∀ k o, (w.outcomes id actions)[k]? = some o →
          o.found = decide (k < n) ∧ (o.slot = newest ↔ n ≤ k + 1)) ∧
        (∀ q, (w.run actions).pollers[id]? = some q → (w.run actions).isEager id q = true →
          (w.run actions).isCancelled q = false → ∃ o, (w.run actions).CanClose id o) := by
  intro slot
  let c : Course := ⟨w.settings, w.network, p.key, p.origin⟩
  have hone : 1 ≤ c.settings.minFailures.toNat := UInt64.le_iff_toNat_le.mp one
  have hfits : c.settings.minFailures.toNat ≤ c.settings.maxProbes.toNat :=
    UInt64.le_iff_toNat_le.mp fits
  obtain ⟨n, newest, hnewest, hrounds⟩ :=
    Round.rounds_converge (c.network.holds c.key) hone hfits c.origin slot
  refine ⟨n, newest, hnewest, ?_, fun actions hundisturbed => ?_⟩
  · have hzero := (hrounds 0).1
    rw [Nat.le_zero] at hzero
    exact hzero
  · obtain ⟨houtcomes, next, after, hend⟩ := ready.follows.run ready.keeps hundisturbed
    refine ⟨fun k o hk => ?_, fun q hq heager hlive =>
      ⟨_, hend.canClose hq heager hlive ready.answers ready.keeps⟩⟩
    have ho : o = c.outcome (c.slotAfter slot k) := houtcomes k o hk
    have hslot : o.slot = c.slotAfter slot (k + 1) := by
      rw [ho]
      exact Round.outcome_slotAfter slot k
    constructor
    · rw [ho]
      exact (hrounds k).2
    · rw [hslot]
      exact (hrounds (k + 1)).1

/-- With two misses ending a walk and three probes in a round, a poller finds the editions 1, 3
and 4 in two rounds. The third finds nothing, and never will the edition 9, which lies behind
a gap that is too wide. -/
theorem rounds_converge_undisturbed_of_gap :
    let notes : DocumentKey := ⟨.uniform 7, "notes"⟩
    let settings : Settings := { Settings.standard with minFailures := 2, maxProbes := 3 }
    let rule (first last : Edition) : NetworkRule :=
      ⟨notes, first, last, some .data, some .data, []⟩
    let network : Network := ⟨[rule 1 1, rule 3 4, rule 9 9], 0, 0⟩
    let w := (initial settings []).run
      [.setNetwork network, .subscribe notes "ann" { background := true }]
    let round : List Action := .elapse 30000000000 :: List.replicate 14 (.work (.poller 0))
    w.outcomes 0 (round ++ round ++ round) =
        [⟨true, some 1⟩, ⟨true, some 4⟩, ⟨false, some 4⟩] ∧
      Round.IsNewest settings (network.holds notes) 0 none (some 4) := by
  intro notes settings rule network w round
  have houtcomes : w.outcomes 0 (round ++ round ++ round) =
      [⟨true, some 1⟩, ⟨true, some 4⟩, ⟨false, some 4⟩] := by decide
  have hview : (w.pollers[0]?).map (fun p => (p.key, p.origin, p.hints, p.inbox.length)) =
      some (notes, 0, [], 0) := by decide
  have hstage : (w.pollers[0]?).map (fun p => p.stage.isInRound) = some false := by decide
  obtain ⟨p, hp, hfields⟩ := Option.map_eq_some_iff.mp hview
  rw [hp, Option.map_some, Option.some.injEq] at hstage
  simp only [Prod.mk.injEq, List.length_eq_zero_iff] at hfields
  obtain ⟨hkey, horigin, hhints, hinbox⟩ := hfields
  have hrules : w.network = network := rfl
  have hready : w.Ready 0 p := by
    refine ⟨hp, by decide, hhints, hinbox, .inl hstage, fun request _ => ?_, fun request _ => ?_⟩
    · rw [hrules]
      exact Network.isSome_reply (by simp [network, rule]) request
    · rw [hrules]
      exact Network.releases_eq_false (by simp [network, rule]) request
  have hown : ∀ action ∈ round ++ round ++ round, action.IsOwn 0 := by
    intro action hin
    have hround : action ∈ round := by simpa using hin
    rcases List.mem_cons.mp hround with helapse | hturn
    · exact .inr ⟨30000000000, helapse⟩
    · exact .inl (List.eq_of_mem_replicate hturn)
  obtain ⟨n, newest, hnewest, -, hruns⟩ :=
    rounds_converge_undisturbed hready (by decide) (by decide)
  have hthird := (hruns _ (undisturbed_of_own p.key hown)).1 2 ⟨false, some 4⟩ (by
    rw [houtcomes]
    rfl)
  have hn : n ≤ 2 := by
    have hfound := hthird.1
    simp only [eq_comm (a := false), decide_eq_false_iff_not] at hfound
    omega
  have hfour : some 4 = newest := hthird.2.mpr (by omega)
  rw [hkey, horigin, ← hfour] at hnewest
  exact ⟨houtcomes, hnewest⟩

end Watch

end EditionWatch
