import EditionWatch.Proofs.Scans
import EditionWatch.Watch.Action

/-!
# What becomes of a poller

All that can become of a poller is listed here once. In a turn of its own it takes a stride: its
round goes on by itself, issues a fetch or hears a reply, or the poller begins a round, goes to
rest, or ends. Everything else that happens only tells it something, breaks its fetch off, or makes
it in the first place. And whatever it fetches, it fetches in a stride out of a round that asks for
it.
-/

namespace EditionWatch

namespace Round

/-- A round goes on by itself, in view of what is known of its document. -/
inductive Steps (settings : Settings) (origin : Edition) (frontier : Frontier) :
    Round → Round → Prop where
  | selects (hints : List Edition) :
      Steps settings origin frontier (.opening hints) (.selectHints frontier hints)
  | passes : Steps settings origin frontier (.hinting []) (.aligning false)
  | tries (e : Edition) (hints : List Edition) :
      Steps settings origin frontier (.hinting (e :: hints)) (.tryHint frontier e hints)
  | aligns (found : Bool) :
      Steps settings origin frontier (.aligning found) (.align frontier origin found)
  | proceeds (found : Bool) (e : Edition) (misses probes : Nat) :
      Steps settings origin frontier (.walking found e misses probes)
        (.proceed settings found e misses probes)
  | confirms : Steps settings origin frontier .confirming (.confirm frontier)
  | skips : Steps settings origin frontier .confirming (.over true)

/-- A round goes on with the reply to its fetch; the slot is the one that there is afterwards. -/
inductive Hears (verdict : Verdict) (slot : Option Edition) : Round → Round → Prop where
  | hintFound (e : Edition) (hints : List Edition) (raised : Bool) (present : verdict = .present)
      (covers : some e ≤ slot) : Hears verdict slot (.askingHint e hints) (.aligning raised)
  | hintMissed (e : Edition) (hints : List Edition) (missed : verdict ≠ .present) :
      Hears verdict slot (.askingHint e hints) (.hinting hints)
  | found (found raised : Bool) (e : Edition) (misses probes : Nat)
      (present : verdict = .present) :
      Hears verdict slot (.asking found e misses probes) (.hit found raised e probes)
  | missed (found : Bool) (e : Edition) (misses probes : Nat) (missed : verdict ≠ .present) :
      Hears verdict slot (.asking found e misses probes) (.miss found e misses probes)
  | fetched (e : Edition) : Hears verdict slot (.fetching e) (.over true)

end Round

/-- The round that a poller is in. -/
def Poller.Stage.round? : Poller.Stage → Option Round
  | .rounding round => some round
  | .waiting round _ => some round
  | _ => none

/-- If a poller waits for a reply, its round has a fetch to wait for. -/
def Poller.Poised (p : Poller) : Prop :=
  ∀ round flight, p.stage = .waiting round flight → (round.request? p.key).isSome = true

/-- What a poller fetches in its next turn. -/
def Poller.issues (p : Poller) : List Request :=
  match p.stage with
  | .rounding round => (round.request? p.key).toList
  | _ => []

namespace Watch

variable {u v w : Watch} {id : PollerId} {p q : Poller}

/-- What a poller makes of itself in a turn that takes the watch from `w` to `v`. -/
inductive Strides (w : Watch) (id : PollerId) (p : Poller) (v : Watch) : Poller → Prop where
  /-- There is nothing for it to go on with. -/
  | waits (idle : p.isRounding = false) : Strides w id p v p
  /-- It was cancelled. -/
  | quits (cancelled : w.isCancelled p = true) (marked : Bool)
      (kept : p.cancelled = true → marked = true) :
      Strides w id p v { p.finish with cancelled := marked }
  /-- It rests, and nobody is left to send it a command. -/
  | leaves (wake : Option Instant) (rests : p.stage = .resting wake) (empty : p.inbox = [])
      (unreferred : w.isReferred id = false) (marked : Bool)
      (kept : p.cancelled = true → marked = true) :
      Strides w id p v { p.finish with cancelled := marked }
  /-- It begins a round. -/
  | begins (between : p.stage.isInRound = false) (going : p.stage ≠ .ended) (marked : Bool)
      (kept : p.cancelled = true → marked = true) :
      Strides w id p v { p with cancelled := marked }.beginRound
  /-- It takes its commands and begins a round. -/
  | takes (wake : Option Instant) (rests : p.stage = .resting wake) :
      Strides w id p v (p.takeCommands w.settings).beginRound
  /-- Its round goes on by itself. -/
  | steps (round next : Round) (stage : p.stage = .rounding round)
      (steps : Round.Steps w.settings p.origin (w.records.frontier p.key) round next) :
      Strides w id p v { p with stage := .rounding next }
  /-- It issues a fetch and waits for the reply. -/
  | asks (round : Round) (request : Request) (flight : Flight) (stage : p.stage = .rounding round)
      (asks : round.request? p.key = some request) :
      Strides w id p v { p with stage := .waiting round flight }
  /-- It takes the reply to its fetch. -/
  | hears (round next : Round) (reply : Reply) (stage : p.stage.round? = some round)
      (asks : (round.request? p.key).isSome = true)
      (taken : (w.fetchIn p).bind (·.answer w.now) = some reply)
      (hears : Round.Hears reply.verdict (v.records.frontier p.key).slot round next) :
      Strides w id p v { p with stage := .rounding next }
  /-- It finds the watch gone. -/
  | abandons (gone : v.isAlive = false) (rounds : Nat) :
      Strides w id p v { p.finish with rounds := rounds }
  /-- It closes a round and rests until it is told something. -/
  | rests (found : Bool) (stage : p.stage = .rounding (.over found)) (mode : p.mode = .once) :
      Strides w id p v { p with stage := .resting none, rounds := p.rounds + 1 }
  /-- It closes a round and rests for a while. -/
  | pauses (found : Bool) (pause : Backoff.Pause) (stage : p.stage = .rounding (.over found))
      (mode : p.mode = .forever) (pauses : Backoff.pause? w.settings p.backoff found = some pause) :
      Strides w id p v { p with
        stage := .resting (some (w.now + pause.wait.nanoseconds))
        rounds := p.rounds + 1
        backoff := pause.next }
  /-- It closes a round and would have to rest for longer than can be said. -/
  | overflows (found : Bool) (stage : p.stage = .rounding (.over found)) (mode : p.mode = .forever)
      (exceeds : Backoff.pause? w.settings p.backoff found = none) :
      Strides w id p v { p.finish with rounds := p.rounds + 1 }

/-- To begin a round at the time to wake is a stride, too. -/
theorem strides_wake {due : Option Instant} (rests : p.stage = .resting due) (v : Watch) :
    w.Strides id p v p.beginRound :=
  .begins (by rw [rests]; rfl) (by rw [rests]; exact Poller.Stage.noConfusion) p.cancelled
    fun hp => hp

/-- A poller stays with its document. -/
theorem Strides.key (strides : w.Strides id p v q) : q.key = p.key := by
  cases strides with
  | takes wake rests => exact (p.takeCommands_same w.settings).1
  | _ => rfl

/-! ## The inside of a round -/

/-- No time passes when the delivery job is submitted. -/
theorem now_flush (w : Watch) : w.flush.now = w.now := by
  unfold flush submitJob
  split
  · split <;> rfl
  · rfl

/-- A slot that is noted may raise the slot of its document. -/
theorem slot_noteSlot (w : Watch) (key : DocumentKey) (e : Edition) :
    ((w.noteSlot ⟨key, e⟩).records.frontier key).slot =
      raised (w.records.frontier key).slot e := by
  have hnoted := Records.frontier_noteSlot w.records w.now ⟨key, e⟩ key
  rw [if_pos rfl] at hnoted
  have hflush := frontier_flush { w with records := w.records.noteSlot w.now ⟨key, e⟩ } key
  exact congrArg Frontier.slot (hflush.trans hnoted)

/-- What comes of a reply: the poller finds the watch gone, or its round goes on. -/
theorem hears_takeReply (found : w.pollers[id]? = some p) {key : DocumentKey} {round : Round}
    (asks : (round.request? key).isSome = true) (reply : Reply) :
    let v := (w.takeReply id key round reply).watch
    (v.isAlive = false ∧ v.pollers[id]? = some p.finish) ∨
      ∃ next, v.pollers[id]? = some { p with stage := .rounding next } ∧
        Round.Hears reply.verdict (v.records.frontier key).slot round next := by
  intro v
  let counted : Watch := { w with records := w.records.countVerdict reply.verdict }
  have hset (u : Watch) (hu : u.pollers = w.pollers) (next : Round) :
      (u.setRound id next).watch.pollers[id]? = some { p with stage := .rounding next } :=
    getElem?_modify_self (hu ▸ found) _
  have hgone (halive : ¬counted.isAlive = true) : (counted.abandon id).watch.isAlive = false ∧
      (counted.abandon id).watch.pollers[id]? = some p.finish :=
    ⟨Bool.eq_false_iff.mpr halive, getElem?_modify_self found _⟩
  have hcovers (e : Edition) :
      some e ≤ ((counted.noteSlot ⟨key, e⟩).records.frontier key).slot := by
    rw [slot_noteSlot]
    exact some_le_raised _ e
  unfold v takeReply
  cases round with
  | askingHint e hints =>
    dsimp only
    split
    case isTrue hpresent =>
      split
      case isTrue =>
        refine .inr ⟨_, hset _ (pollers_noteSlot counted _) _, ?_⟩
        exact .hintFound e hints _ hpresent (hcovers e)
      case isFalse halive => exact .inl (hgone halive)
    case isFalse hmissed => exact .inr ⟨_, hset counted rfl _, .hintMissed e hints hmissed⟩
  | asking raised e misses probes =>
    dsimp only
    split
    case isTrue hpresent =>
      split
      case isTrue =>
        refine .inr ⟨_, hset _ (pollers_noteSlot counted _) _, ?_⟩
        exact .found raised _ e misses probes hpresent
      case isFalse halive => exact .inl (hgone halive)
    case isFalse hmissed =>
      exact .inr ⟨_, hset counted rfl _, .missed raised e misses probes hmissed⟩
  | fetching e =>
    dsimp only
    split
    · exact .inr ⟨_, hset _ (pollers_noteGood w _) _, .fetched e⟩
    · exact .inr ⟨_, hset w rfl _, .fetched e⟩
  | _ => cases asks

/-- A poller that takes the reply to its fetch has taken a stride. -/
theorem strides_takeReply {round : Round} (stage : p.stage.round? = some round)
    (asks : (round.request? p.key).isSome = true) {reply : Reply}
    (taken : (w.fetchIn p).bind (·.answer w.now) = some reply)
    (found : u.pollers[id]? = some p) :
    let v := (u.takeReply id p.key round reply).watch
    ∃ q, v.pollers[id]? = some q ∧ w.Strides id p v q := by
  intro v
  rcases hears_takeReply found asks reply with ⟨hgone, hended⟩ | ⟨next, hq, hhears⟩
  · exact ⟨_, hended, .abandons hgone p.rounds⟩
  · exact ⟨_, hq, .hears round next reply stage asks taken hhears⟩

/-- A poller that issues a fetch has taken a stride, if it got the reply at once or not. -/
theorem strides_sendRequest (found : w.pollers[id]? = some p) {round : Round}
    (stage : p.stage = .rounding round) {request : Request}
    (asks : round.request? p.key = some request) :
    let v := (w.sendRequest id p.key round request).watch
    ∃ q, v.pollers[id]? = some q ∧ w.Strides id p v q := by
  have hissued : (w.issue request).watch.pollers[id]? = some p := by
    rw [pollers_issue]
    exact found
  have hround : p.stage.round? = some round := by rw [stage]; rfl
  have hfetch : w.fetchIn p = some (w.issue request).flight := by
    rw [fetchIn, stage]
    dsimp only
    rw [asks]
    rfl
  unfold sendRequest
  dsimp only
  cases hanswer : (w.issue request).flight.answer w.now with
  | some reply =>
    exact strides_takeReply hround (asks ▸ rfl) (by rw [hfetch]; exact hanswer) hissued
  | none => exact ⟨_, getElem?_modify_self hissued _, .asks round request _ stage asks⟩

/-- A poller that closes a round has taken a stride. -/
theorem strides_closeRound (found : w.pollers[id]? = some p) {raised : Bool}
    (stage : p.stage = .rounding (.over raised)) :
    let v := (w.closeRound id p raised).watch
    ∃ q, v.pollers[id]? = some q ∧ w.Strides id p v q := by
  let counted : Watch := { w with records := w.records.countRound }
  let closed : Watch := counted.modifyPoller id fun p => { p with rounds := p.rounds + 1 }
  let told : Watch := { closed with records := closed.records.finishRound p.key }
  have hclosed : closed.pollers[id]? = some { p with rounds := p.rounds + 1 } :=
    getElem?_modify_self found _
  have htold : told.flush.pollers[id]? = some { p with rounds := p.rounds + 1 } := by
    rw [pollers_flush]
    exact hclosed
  change ∃ q, (w.closeRound id p raised).watch.pollers[id]? = some q ∧
    w.Strides id p (w.closeRound id p raised).watch q
  unfold closeRound
  change ∃ q, (if closed.isAlive then _ else closed.abandon id).watch.pollers[id]? = some q ∧
    w.Strides id p (if closed.isAlive then _ else closed.abandon id).watch q
  split
  case isFalse halive =>
    have hgone : (closed.abandon id).watch.isAlive = false := Bool.eq_false_iff.mpr halive
    exact ⟨_, getElem?_modify_self hclosed _, .abandons hgone (p.rounds + 1)⟩
  case isTrue =>
    dsimp only
    cases hmode : p.mode with
    | once => exact ⟨_, getElem?_modify_self htold _, .rests raised stage hmode⟩
    | forever =>
      dsimp only
      rw [settings_flush]
      cases hpause : Backoff.pause? w.settings p.backoff raised with
      | none =>
        change Backoff.pause? told.settings p.backoff raised = none at hpause
        rw [hpause]
        exact ⟨_, getElem?_modify_self htold _, .overflows raised stage hmode hpause⟩
      | some pause =>
        change Backoff.pause? told.settings p.backoff raised = some pause at hpause
        rw [hpause]
        have hback := getElem?_modify_self htold fun p => { p with backoff := pause.next }
        refine ⟨_, getElem?_modify_self hback _, ?_⟩
        change w.Strides id p _ { p with
          stage := .resting (some (told.flush.now + pause.wait.nanoseconds))
          rounds := p.rounds + 1
          backoff := pause.next }
        rw [now_flush told]
        exact .pauses raised pause stage hmode hpause

/-- A poller in a round that waits for nothing takes a stride. -/
theorem strides_stepRound (found : w.pollers[id]? = some p) {round : Round}
    (stage : p.stage = .rounding round) :
    let v := (w.stepRound id p round).watch
    ∃ q, v.pollers[id]? = some q ∧ w.Strides id p v q := by
  have hset {next : Round}
      (steps : Round.Steps w.settings p.origin (w.records.frontier p.key) round next) :
      let v := (w.setRound id next).watch
      ∃ q, v.pollers[id]? = some q ∧ w.Strides id p v q :=
    ⟨_, getElem?_modify_self found _, .steps round next stage steps⟩
  have hgone (halive : ¬w.isAlive = true) :
      let v := (w.abandon id).watch
      ∃ q, v.pollers[id]? = some q ∧ w.Strides id p v q := by
    have hdead : (w.abandon id).watch.isAlive = false := Bool.eq_false_iff.mpr halive
    exact ⟨_, getElem?_modify_self found _, .abandons hdead p.rounds⟩
  unfold stepRound
  cases round with
  | opening hints =>
    dsimp only
    split
    case isTrue => exact hset (.selects hints)
    case isFalse halive => exact hgone halive
  | hinting hints =>
    cases hints with
    | nil => exact hset .passes
    | cons e hints =>
      dsimp only
      split
      case isTrue => exact hset (.tries e hints)
      case isFalse halive => exact hgone halive
  | aligning raised =>
    dsimp only
    split
    case isTrue => exact hset (.aligns raised)
    case isFalse halive => exact hgone halive
  | walking raised e misses probes => exact hset (.proceeds raised e misses probes)
  | confirming =>
    dsimp only
    split
    · exact hset .confirms
    · exact hset .skips
  | «over» raised => exact strides_closeRound found stage
  | askingHint e hints => exact strides_sendRequest found stage rfl
  | asking raised e misses probes => exact strides_sendRequest found stage rfl
  | fetching e => exact strides_sendRequest found stage rfl

/-! ## A turn -/

/-- A poller that ends is over, and it stays marked as cancelled if it was. -/
theorem getElem?_endPoller (found : w.pollers[id]? = some p) (key : DocumentKey)
    (cancelled : Bool) :
    ∃ marked, (p.cancelled = true → marked = true) ∧
      (w.endPoller id key cancelled).watch.pollers[id]? =
        some { p.finish with cancelled := marked } := by
  have hended : (w.finishPoller id).pollers[id]? = some p.finish :=
    getElem?_modify_self found _
  unfold endPoller
  dsimp only
  split
  · exact ⟨true, fun _ => rfl, getElem?_modify_self hended Poller.cancel⟩
  · exact ⟨p.cancelled, fun hp => hp, hended⟩

/-- In a turn of its own, a poller takes a stride. -/
theorem strides_turn (found : w.pollers[id]? = some p) (poised : p.Poised) :
    let v := w.act (.work (.poller id))
    ∃ q, v.pollers[id]? = some q ∧ w.Strides id p v q := by
  have hbegin (hbetween : p.stage.isInRound = false) (hgoing : p.stage ≠ .ended) :
      let v := (w.beginRound id).watch
      ∃ q, v.pollers[id]? = some q ∧ w.Strides id p v q :=
    ⟨_, getElem?_modify_self found _, .begins hbetween hgoing p.cancelled fun hp => hp⟩
  have hwaits (hidle : p.isRounding = false) :
      ∃ q, w.pollers[id]? = some q ∧ w.Strides id p w q := ⟨p, found, .waits hidle⟩
  change ∃ q, (w.stepPoller id).watch.pollers[id]? = some q ∧
    w.Strides id p (w.stepPoller id).watch q
  unfold stepPoller
  rw [found]
  dsimp only
  cases hstage : p.stage with
  | submitted evicted =>
    have hset : (w.setStage id (.resting none)).pollers[id]? =
        some { p with stage := .resting none } := getElem?_modify_self found _
    have hcancel : ∃ marked, (p.cancelled = true → marked = true) ∧
        (Roster.cancelAll evicted (w.setStage id (.resting none)).pollers)[id]? =
          some { p with stage := .resting none, cancelled := marked } := by
      rw [Roster.getElem?_cancelAll, hset]
      by_cases hin : id ∈ evicted
      · exact ⟨true, fun _ => rfl, congrArg some (if_pos hin)⟩
      · exact ⟨p.cancelled, fun hp => hp, congrArg some (if_neg hin)⟩
    obtain ⟨marked, hkept, hmarked⟩ := hcancel
    dsimp only
    rw [cancelPollers_eq]
    split
    case isTrue hcancelled =>
      have hquits : w.isCancelled p = true := hcancelled
      obtain ⟨marked', hkept', hended⟩ := getElem?_endPoller (w := { w.setStage id (.resting none) with
        pollers := Roster.cancelAll evicted (w.setStage id (.resting none)).pollers })
        hmarked p.key true
      exact ⟨_, hended, .quits hquits marked' fun hp => hkept' (hkept hp)⟩
    case isFalse =>
      refine ⟨_, getElem?_modify_self hmarked _, ?_⟩
      exact .begins (by rw [hstage]; rfl) (by rw [hstage]; exact Poller.Stage.noConfusion) marked
        hkept
  | rounding round => exact strides_stepRound found hstage
  | waiting round flight =>
    dsimp only
    split
    case isTrue hcancelled =>
      obtain ⟨marked, hkept, hended⟩ := getElem?_endPoller found p.key true
      exact ⟨_, hended, .quits hcancelled marked hkept⟩
    case isFalse =>
      cases hanswer : flight.answer w.now with
      | none => exact hwaits (by rw [Poller.isRounding, hstage])
      | some reply =>
        have hround : p.stage.round? = some round := by rw [hstage]; rfl
        have hfetch : (w.fetchIn p).bind (·.answer w.now) = some reply := by
          rw [fetchIn, hstage]
          exact hanswer
        exact strides_takeReply hround (poised round flight hstage) hfetch found
  | resting wake =>
    dsimp only
    split
    case isTrue hcancelled =>
      obtain ⟨marked, hkept, hended⟩ := getElem?_endPoller found p.key true
      exact ⟨_, hended, .quits hcancelled marked hkept⟩
    case isFalse =>
      split
      case isTrue =>
        have htaken := getElem?_modify_self found (·.takeCommands w.settings)
        exact ⟨_, getElem?_modify_self htaken _, .takes wake hstage⟩
      case isFalse hempty =>
        split
        case isTrue hunreferred =>
          obtain ⟨marked, hkept, hended⟩ := getElem?_endPoller found p.key false
          exact ⟨_, hended, .leaves wake hstage (by simpa using hempty)
            (by simpa using hunreferred) marked hkept⟩
        case isFalse =>
          split
          · exact hbegin (by rw [hstage]; rfl) (by rw [hstage]; exact Poller.Stage.noConfusion)
          · exact hwaits (by rw [Poller.isRounding, hstage])
  | ended => exact hwaits (by rw [Poller.isRounding, hstage])

/-! ## What a turn fetches -/

/-- Nothing was fetched or reported from one state to the other, nor was everything stopped. -/
structure Hushed (w v : Watch) : Prop where
  journal : v.journal = w.journal
  stopped : v.stopped = w.stopped

theorem Hushed.trans (h : Hushed w v) (h' : Hushed v u) : Hushed w u :=
  ⟨h'.journal.trans h.journal, h'.stopped.trans h.stopped⟩

theorem hushed_flush (w : Watch) : Hushed w w.flush := by
  refine ⟨journal_flush w, ?_⟩
  unfold flush submitJob
  split
  · split <;> rfl
  · rfl

/-- A poller that ends fetches nothing. -/
theorem hushed_endPoller (w : Watch) (id : PollerId) (key : DocumentKey) (cancelled : Bool) :
    Hushed w (w.endPoller id key cancelled).watch := by
  unfold endPoller
  dsimp only
  split <;> exact ⟨rfl, rfl⟩

theorem Hushed.flush (h : Hushed w v) : Hushed w v.flush := h.trans (hushed_flush v)

/-- Nothing is fetched when a slot is noted. -/
theorem hushed_noteSlot (w : Watch) (uri : EditionUri) : Hushed w (w.noteSlot uri) :=
  Hushed.flush (v := { w with records := w.records.noteSlot w.now uri }) ⟨rfl, rfl⟩

theorem hushed_noteGood (w : Watch) (uri : EditionUri) : Hushed w (w.noteGood uri) :=
  Hushed.flush (v := { w with records := w.records.noteGood w.now uri }) ⟨rfl, rfl⟩

/-- A poller that takes a reply fetches nothing. -/
theorem hushed_takeReply (w : Watch) (id : PollerId) (key : DocumentKey) (round : Round)
    (reply : Reply) : Hushed w (w.takeReply id key round reply).watch := by
  let counted : Watch := { w with records := w.records.countVerdict reply.verdict }
  have hnoted (e : Edition) : Hushed w (counted.noteSlot ⟨key, e⟩) :=
    Hushed.trans (v := counted) ⟨rfl, rfl⟩ (hushed_noteSlot counted ⟨key, e⟩)
  unfold takeReply
  cases round with
  | askingHint e hints =>
    dsimp only
    split
    · split
      · exact (hnoted e).trans ⟨rfl, rfl⟩
      · exact ⟨rfl, rfl⟩
    · exact ⟨rfl, rfl⟩
  | asking raised e misses probes =>
    dsimp only
    split
    · split
      · exact (hnoted e).trans ⟨rfl, rfl⟩
      · exact ⟨rfl, rfl⟩
    · exact ⟨rfl, rfl⟩
  | fetching e =>
    dsimp only
    split
    · exact (hushed_noteGood w ⟨key, e⟩).trans ⟨rfl, rfl⟩
    · exact ⟨rfl, rfl⟩
  | _ => exact ⟨rfl, rfl⟩

/-- A poller that closes a round fetches nothing. -/
theorem hushed_closeRound (w : Watch) (id : PollerId) (p : Poller) (found : Bool) :
    Hushed w (w.closeRound id p found).watch := by
  let counted : Watch := { w with records := w.records.countRound }
  let closed : Watch := counted.modifyPoller id fun p => { p with rounds := p.rounds + 1 }
  let told : Watch := { closed with records := closed.records.finishRound p.key }
  have htold : Hushed w told.flush := Hushed.flush (v := told) ⟨rfl, rfl⟩
  unfold closeRound
  change Hushed w (if closed.isAlive then _ else closed.abandon id).watch
  split
  · dsimp only
    split
    · exact htold.trans ⟨rfl, rfl⟩
    · split <;> exact htold.trans ⟨rfl, rfl⟩
  · exact ⟨rfl, rfl⟩

/-- A poller that sends a request fetches this and nothing more. -/
theorem hushed_sendRequest (w : Watch) (id : PollerId) (key : DocumentKey) (round : Round)
    (request : Request) :
    Hushed (w.issue request).watch (w.sendRequest id key round request).watch := by
  unfold sendRequest
  dsimp only
  split
  · exact hushed_takeReply _ id key round _
  · exact ⟨rfl, rfl⟩

/-- A turn of a poller issues the fetch that its round asks for, if any, and is hushed besides. -/
theorem hushed_turn (found : w.pollers[id]? = some p) :
    let v := w.act (.work (.poller id))
    (p.issues = [] ∧ Hushed w v) ∨
      ∃ request, request.uri.key = p.key ∧ p.issues = [request] ∧
        Hushed (w.issue request).watch v := by
  change (p.issues = [] ∧ Hushed w (w.stepPoller id).watch) ∨ ∃ request, request.uri.key = p.key ∧
    p.issues = [request] ∧ Hushed (w.issue request).watch (w.stepPoller id).watch
  unfold stepPoller Poller.issues
  rw [found]
  dsimp only
  cases p.stage with
  | submitted evicted =>
    refine .inl ⟨rfl, ?_⟩
    dsimp only
    rw [cancelPollers_eq]
    split
    · have hended := hushed_endPoller { w.setStage id (.resting none) with
        pollers := Roster.cancelAll evicted (w.setStage id (.resting none)).pollers } id p.key true
      exact ⟨hended.journal, hended.stopped⟩
    · exact ⟨rfl, rfl⟩
  | rounding round =>
    dsimp only
    unfold stepRound
    cases round with
    | hinting hints =>
      refine .inl ⟨rfl, ?_⟩
      cases hints with
      | nil => exact ⟨rfl, rfl⟩
      | cons e hints =>
        dsimp only
        split <;> exact ⟨rfl, rfl⟩
    | askingHint e hints => exact .inr ⟨_, rfl, rfl, hushed_sendRequest w id p.key _ _⟩
    | asking raised e misses probes =>
      exact .inr ⟨_, rfl, rfl, hushed_sendRequest w id p.key _ _⟩
    | fetching e => exact .inr ⟨_, rfl, rfl, hushed_sendRequest w id p.key _ _⟩
    | «over» raised => exact .inl ⟨rfl, hushed_closeRound w id p raised⟩
    | walking raised e misses probes => exact .inl ⟨rfl, rfl, rfl⟩
    | confirming => exact .inl ⟨rfl, rfl, rfl⟩
    | opening hints =>
      refine .inl ⟨rfl, ?_⟩
      dsimp only
      split <;> exact ⟨rfl, rfl⟩
    | aligning raised =>
      refine .inl ⟨rfl, ?_⟩
      dsimp only
      split <;> exact ⟨rfl, rfl⟩
  | waiting round flight =>
    refine .inl ⟨rfl, ?_⟩
    dsimp only
    split
    · exact hushed_endPoller w id p.key true
    · split
      · exact ⟨rfl, rfl⟩
      · exact hushed_takeReply w id p.key round _
  | resting wake =>
    refine .inl ⟨rfl, ?_⟩
    dsimp only
    split
    · exact hushed_endPoller w id p.key true
    · split
      · exact ⟨rfl, rfl⟩
      · split
        · exact hushed_endPoller w id p.key false
        · split <;> exact ⟨rfl, rfl⟩
  | ended => exact .inl ⟨rfl, rfl, rfl⟩

/-- What a poller fetches in its turn is what its round asks for. -/
theorem fetches_turn (found : w.pollers[id]? = some p) :
    (w.act (.work (.poller id))).fetches = w.fetches ++ p.issues := by
  rcases hushed_turn found with ⟨hnone, hhushed⟩ | ⟨request, -, hone, hhushed⟩
  · rw [hnone, List.append_nil, fetches, hhushed.journal, fetches]
  · rw [hone, ← fetches_issue, fetches, hhushed.journal, fetches]

/-- A fetch that does not take the watch away stops nothing. -/
theorem stopped_issue {request : Request} (keeps : w.network.releases request = false) :
    (w.issue request).watch.stopped = w.stopped := by
  unfold issue
  cases request with
  | mk kind uri =>
    cases kind with
    | block =>
      change (if w.network.releases ⟨.block, uri⟩ then _ else _ : Watch).stopped = _
      rw [keeps]
      rfl
    | content =>
      change (if w.network.releases ⟨.content, uri⟩ then _ else _ : Watch).stopped = _
      rw [keeps]
      rfl

/-- A turn of a poller whose fetches do not take the watch away stops nothing. -/
theorem stopped_turn (found : w.pollers[id]? = some p)
    (keeps : ∀ request, request.uri.key = p.key → w.network.releases request = false) :
    (w.act (.work (.poller id))).stopped = w.stopped := by
  rcases hushed_turn found with ⟨-, hhushed⟩ | ⟨request, hkey, -, hhushed⟩
  · exact hhushed.stopped
  · exact hhushed.stopped.trans (stopped_issue (keeps request hkey))

end Watch

end EditionWatch
