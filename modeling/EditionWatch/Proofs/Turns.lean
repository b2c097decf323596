import EditionWatch.Proofs.Accounts

/-!
# What incidents account for in a turn

A poller and an errand each wait for one fetch at a time. Where a block is issued, somebody waits
for it from then on, and where somebody ceases to wait for one, either the reply is taken, and
counted by its verdict, or the fetch is dropped. So every action is accounted for by its incidents.
-/

namespace EditionWatch.Watch

variable {u v w : Watch} {heard later : List Incident} {owed more gone lost : Int}

/-! ## Polling -/

/-- Amounts may be written in another way. -/
theorem Accounts.cast (h : Accounts heard owed gone w v) (owes : owed = more)
    (goes : gone = lost) : Accounts heard more lost w v := owes ▸ goes ▸ h

section Polling

variable {id : PollerId} {p : Poller}

/-- A poller goes on to a stage at which it does not wait. -/
theorem accounts_setStage (found : w.pollers[id]? = some p) {stage : Poller.Stage}
    (idle : ∀ round flight, stage ≠ .waiting round flight) :
    Accounts heard p.awaits 0 w (w.setStage id stage) := by
  let change : Poller → Poller := fun p => { p with stage := stage }
  have hidle : (change p).awaits = 0 := by
    unfold Poller.awaits Poller.flight?
    cases stage with
    | waiting round flight => exact absurd rfl (idle round flight)
    | _ => rfl
  have hset : Accounts heard (p.awaits - (change p).awaits) 0 w (w.modifyPoller id change) :=
    accounts_modify found rfl fun _ round flight hstage => absurd hstage (idle round flight)
  exact hset.cast (by rw [hidle]; omega) rfl

/-- A poller that goes on in its round waits for no block any more. -/
theorem accounts_setRound (found : w.pollers[id]? = some p) (round : Round) :
    Accounts heard p.awaits 0 w (w.setRound id round).watch :=
  accounts_setStage found fun _ _ h => by cases h

/-- A poller whose work is over does not wait. -/
theorem accounts_finishPoller (found : w.pollers[id]? = some p) :
    Accounts heard p.awaits 0 w (w.finishPoller id) :=
  (accounts_modify found rfl fun _ _ _ hstage => by cases hstage).cast (Int.sub_zero _) rfl

/-- A poller that abandons its work loses the block that it waits for. -/
theorem accounts_abandon (found : w.pollers[id]? = some p) :
    Accounts heard p.awaits 0 w (w.abandon id).watch := accounts_finishPoller found

/-- A poller that ends loses the block that it waits for, and its place in the cache. -/
theorem accounts_endPoller (found : w.pollers[id]? = some p) (key : DocumentKey)
    (cancelled : Bool) :
    Accounts [] p.awaits (Incident.total Incident.departed (w.exits id key)) w
      (w.endPoller id key cancelled).watch := by
  let ended : Watch := w.finishPoller id
  have hended : Accounts [] p.awaits 0 w ended := accounts_finishPoller found
  have halive : ended.isAlive = w.isAlive := rfl
  have hexits : (Incident.total Incident.departed (w.exits id key) : Int) =
      if w.isAlive = true ∧ w.records.pool.poller? key ≠ some id ∧
        w.records.cache.poller? key = some id then 1 else 0 := by
    unfold exits
    simp only [Bool.and_eq_true, decide_eq_true_eq, and_assoc]
    split <;> rfl
  unfold endPoller
  dsimp only
  split
  case isTrue hin =>
    rw [Bool.and_eq_true] at hin
    let change : Records.Change := .removePoller key id cancelled
    have htally : (ended.records.apply change).tally.pollRounds = ended.records.tally.pollRounds ∧
        (ended.records.apply change).tally.probes = ended.records.tally.probes ∧
        (ended.records.apply change).tally.answered = ended.records.tally.answered := by
      simp only [change, Records.apply, Records.removePoller]
      split
      · cases cancelled <;> exact ⟨rfl, rfl, rfl⟩
      · split
        · cases cancelled <;> exact ⟨rfl, rfl, rfl⟩
        · exact ⟨rfl, rfl, rfl⟩
    have hremoved : Accounts [] 0 (Incident.total Incident.departed (w.exits id key)) ended
        { ended with records := ended.records.apply change } := by
      refine accounts_record ended change trivial htally.1 ?_ ?_
      · rw [htally.2.1, htally.2.2, Int.add_zero]
      · rw [hexits]
        simp only [halive ▸ hin.1, true_and]
        exact Records.missing_removePoller w.records key id cancelled
    have htouched (v : Watch) : Keeps v (v.cancelPoller id) :=
      Keeps.touch v id (fun _ => rfl) (fun _ => rfl) fun _ => rfl
    exact ((hended.trans hremoved).before (htouched _)).cast (Int.add_zero _) (Int.zero_add _)
  case isFalse hout =>
    refine hended.cast rfl ?_
    rw [hexits, if_neg]
    rintro ⟨hw, -, hcache⟩
    refine hout (Bool.and_eq_true_iff.mpr ⟨hw, ?_⟩)
    rw [Records.indexes, Bool.or_eq_true]
    exact .inr (decide_eq_true hcache)

/-- A verdict is counted. -/
theorem accounts_countVerdict (w : Watch) (verdict : Verdict) :
    Accounts heard (-1) 0 w { w with records := w.records.countVerdict verdict } := by
  refine accounts_record w (.countVerdict verdict) trivial ?_ ?_ ?_
  · cases verdict <;> rfl
  · have hanswered : (w.records.apply (.countVerdict verdict)).tally.answered =
        w.records.tally.answered + 1 := Records.answered_countVerdict w.records verdict
    have hprobes : (w.records.apply (.countVerdict verdict)).tally.probes =
        w.records.tally.probes := by cases verdict <;> rfl
    rw [hanswered, hprobes]
    omega
  · cases verdict <;> exact (Int.add_zero _).symm

/-- An edition is present if there is data, even if it is lost again. -/
theorem data_or_lost_of_present {reply : Reply} (h : reply.verdict = .present) :
    reply = .data ∨ reply = .fault .dataFound := by
  cases reply with
  | data => exact .inl rfl
  | fault cause =>
    cases cause with
    | dataFound => exact .inr rfl
    | _ => cases h

/-- A block that was found is counted, and its edition is noted. -/
theorem accounts_noteFound (w : Watch) {purpose : Option Purpose} {uri : EditionUri}
    {reply : Reply} (taken : .reply purpose ⟨.block, uri⟩ reply ∈ heard)
    (present : reply.verdict = .present) :
    Accounts heard (-1) 0 w
      (noteSlot { w with records := w.records.countVerdict reply.verdict } uri) := by
  let counted : Watch := { w with records := w.records.countVerdict reply.verdict }
  have hcount : Accounts heard (-1) 0 w counted := accounts_countVerdict w reply.verdict
  have hslot : Accounts heard 0 0 counted (counted.noteSlot uri) :=
    accounts_noteSlot counted uri
      ⟨_, taken, rfl, (data_or_lost_of_present present).imp_right fun hlost => ⟨rfl, hlost⟩⟩
  exact (hcount.trans hslot).cast (Int.add_zero _) rfl

/-- A poller that takes a reply has its block answered. -/
theorem accounts_takeReply (found : w.pollers[id]? = some p) {key : DocumentKey} {round : Round}
    {request : Request} (asks : round.request? key = some request) (reply : Reply) :
    Accounts [.reply none request reply] (p.awaits - request.blocks) 0 w
      (w.takeReply id key round reply).watch := by
  let counted : Watch := { w with records := w.records.countVerdict reply.verdict }
  have hcount : Accounts [.reply none request reply] (-1) 0 w counted :=
    accounts_countVerdict w reply.verdict
  have hfound : counted.pollers[id]? = some p := found
  have hblock (e : Edition) (hr : request = ⟨.block, ⟨key, e⟩⟩) {v : Watch}
      (h : Accounts [.reply none request reply] (-1 + p.awaits) (0 + 0) w v) :
      Accounts [.reply none request reply] (p.awaits - request.blocks) 0 w v := by
    refine h.cast ?_ rfl
    have hone : request.blocks = 1 := by rw [hr]; rfl
    rw [hone]
    omega
  have hnoted (e : Edition) (hr : request = ⟨.block, ⟨key, e⟩⟩)
      (present : reply.verdict = .present) (next : Round) :
      Accounts [.reply none request reply] (-1 + p.awaits) (0 + 0) w
        ((counted.noteSlot ⟨key, e⟩).setRound id next).watch := by
    have hstill : (counted.noteSlot ⟨key, e⟩).pollers[id]? = some p := by
      rw [pollers_noteSlot]
      exact found
    have hslot : Accounts [.reply none request reply] (-1) 0 w (counted.noteSlot ⟨key, e⟩) :=
      accounts_noteFound w (List.mem_singleton.mpr (by rw [hr])) present
    exact hslot.trans (accounts_setRound hstill next)
  unfold takeReply
  cases round with
  | askingHint e hints =>
    have hr := Option.some.inj asks
    dsimp only
    split
    case isTrue hpresent =>
      split
      · exact hblock e hr.symm (hnoted e hr.symm hpresent _)
      · exact hblock e hr.symm (hcount.trans (accounts_abandon hfound))
    case isFalse => exact hblock e hr.symm (hcount.trans (accounts_setRound hfound _))
  | asking raised e misses probes =>
    have hr := Option.some.inj asks
    dsimp only
    split
    case isTrue hpresent =>
      split
      · exact hblock e hr.symm (hnoted e hr.symm hpresent _)
      · exact hblock e hr.symm (hcount.trans (accounts_abandon hfound))
    case isFalse => exact hblock e hr.symm (hcount.trans (accounts_setRound hfound _))
  | fetching slot =>
    have hr := Option.some.inj asks
    have hnone : request.blocks = 0 := by rw [← hr]; rfl
    have hsame : (p.awaits : Int) - request.blocks = 0 + p.awaits := by
      rw [hnone]
      omega
    dsimp only
    rw [hsame]
    split
    case isTrue hdata =>
      rw [Bool.and_eq_true, decide_eq_true_eq] at hdata
      have hgood : Accounts [.reply none request reply] 0 0 w (w.noteGood ⟨key, slot⟩) :=
        accounts_noteGood w _
          ⟨_, List.mem_singleton.mpr rfl, hr ▸ ⟨rfl, .inl ⟨rfl, hdata.1⟩⟩⟩
      have hstill : (w.noteGood ⟨key, slot⟩).pollers[id]? = some p := by
        rw [pollers_noteGood]
        exact found
      exact hgood.trans (accounts_setRound hstill _)
    case isFalse => exact (accounts_setRound found _).cast (Int.zero_add _).symm rfl
  | _ => cases asks

/-- A fetch is issued; a block is counted. -/
theorem accounts_issue (w : Watch) (request : Request) :
    Accounts heard request.blocks 0 w (w.issue request).watch := by
  let logged : Watch := w.log (.fetched w.now request)
  have hlogged : Keeps w logged := Keeps.log w _
  have hrelease (owed : Int) (probed : Watch) (h : Accounts [] owed 0 w probed) :
      Accounts heard owed 0 w (if w.network.releases request then probed.release else probed) := by
    refine Accounts.mono ?_ (List.nil_subset heard)
    split
    · exact h.before (Keeps.release probed)
    · exact h
  have hcounted : Accounts [] 1 0 logged { logged with records := logged.records.countProbe } := by
    refine accounts_record logged .countProbe trivial rfl ?_ (Int.add_zero _).symm
    have hprobes : (logged.records.apply .countProbe).tally.probes =
        logged.records.tally.probes + 1 := rfl
    have hanswered : (logged.records.apply .countProbe).tally.answered =
        logged.records.tally.answered := rfl
    rw [hprobes, hanswered]
    omega
  unfold issue Request.blocks
  dsimp only
  cases request.kind with
  | block => exact hrelease 1 _ (hlogged.after hcounted)
  | content => exact hrelease 0 _ hlogged

/-- What a poller hears of the fetch that it issues. -/
theorem heardBy_of_request {round : Round} {request : Request} (stage : p.stage = .rounding round)
    (asks : round.request? p.key = some request) :
    w.heardBy p =
      ((w.network.issue w.now request).answer w.now).toList.map (.reply none request) := by
  have hfetch : w.fetchIn p = some (w.network.issue w.now request) := by
    rw [fetchIn, stage]
    exact congrArg (Option.map _) asks
  rw [heardBy, hfetch]
  rfl

/-- A poller in the midst of a round waits for no block. -/
theorem awaits_of_rounding {round : Round} (stage : p.stage = .rounding round) :
    p.awaits = 0 := by
  rw [Poller.awaits, Poller.flight?, stage]
  rfl

/-- A poller that sends a request counts the probe, and hears of it at once or waits. -/
theorem accounts_sendRequest (found : w.pollers[id]? = some p) {round : Round} {request : Request}
    (stage : p.stage = .rounding round) (asks : round.request? p.key = some request) :
    Accounts (w.heardBy p) 0 0 w (w.sendRequest id p.key round request).watch := by
  have hissued : (w.issue request).watch.pollers[id]? = some p := by
    rw [pollers_issue]
    exact found
  have hidle := awaits_of_rounding stage
  have hflight : (w.issue request).flight = w.network.issue w.now request := rfl
  rw [heardBy_of_request stage asks]
  unfold sendRequest
  dsimp only
  rw [hflight]
  cases (w.network.issue w.now request).answer w.now with
  | some reply =>
    refine ((accounts_issue w request).trans (accounts_takeReply hissued asks reply)).cast ?_ rfl
    rw [hidle]
    omega
  | none =>
    let flight : Flight := w.network.issue w.now request
    let change : Poller → Poller := fun p => { p with stage := .waiting round flight }
    have hwaits : (change p).awaits = request.blocks := rfl
    have hset : Accounts [] (p.awaits - (change p).awaits) 0 (w.issue request).watch
        ((w.issue request).watch.modifyPoller id change) := by
      refine accounts_modify hissued rfl fun _ other reached hstage => ?_
      cases hstage
      rw [fetches_issue]
      exact ⟨asks, List.mem_append_right _ (List.mem_singleton.mpr rfl)⟩
    refine ((accounts_issue w request).trans hset).cast ?_ rfl
    rw [hidle, hwaits]
    omega

/-- The round that a poller brings to an end is counted. -/
theorem keeps_countRound (found : w.pollers[id]? = some p) :
    Keeps w ({ w with records := w.records.countRound }.modifyPoller id
      fun p => { p with rounds := p.rounds + 1 }) := by
  let change : Poller → Poller := fun p => { p with rounds := p.rounds + 1 }
  change Keeps w ({ w with records := w.records.countRound }.modifyPoller id change)
  exact
    { founded := fun hw =>
        have hfounded : (change p).IsFounded w.fetches :=
          hw.pollers p (List.mem_iff_getElem?.mpr ⟨id, found⟩)
        have hmodified := hw.modifyPoller found hfounded
        ⟨hmodified.pollers, hmodified.errands⟩
      fetches := List.Subset.refl _
      records := ⟨[.countRound], rfl, fun _ hm => List.mem_singleton.mp hm ▸ trivial⟩
      alive := fun h => h
      rounds := by
        have hsum := sum_modify found change Poller.rounds
        have hone : (change p).rounds = p.rounds + 1 := rfl
        simp only [excessRounds, roundsMade, modifyPoller, Records.countRound]
        omega
      probes := by
        have hsum := sum_modify found change Poller.awaits
        have hsame : (change p).awaits = p.awaits := rfl
        have hprobes : w.records.countRound.tally.probes = w.records.tally.probes := rfl
        have hanswered : w.records.countRound.tally.answered = w.records.tally.answered := rfl
        simp only [lostProbes, awaited, modifyPoller]
        omega
      missing := fun _ => (Int.add_zero _).symm }

/-- A poller that closes a round counts it. -/
theorem keeps_closeRound (found : w.pollers[id]? = some p) (idle : p.awaits = 0)
    (raised : Bool) : Keeps w (w.closeRound id p raised).watch := by
  let counted : Watch := { w with records := w.records.countRound }
  let closed : Watch := counted.modifyPoller id fun p => { p with rounds := p.rounds + 1 }
  let told : Watch := { closed with records := closed.records.finishRound p.key }
  let q : Poller := { p with rounds := p.rounds + 1 }
  have hclosed : Keeps w closed := keeps_countRound found
  have hq : closed.pollers[id]? = some q := getElem?_modify_self found _
  have htold : Keeps w told.flush :=
    (hclosed.after (Keeps.record closed (.finishRound p.key) rfl trivial)).after (Keeps.flush told)
  have hf : told.flush.pollers[id]? = some q := by
    rw [pollers_flush]
    exact hq
  have hidle : (q.awaits : Int) = 0 := congrArg Int.ofNat idle
  have hrest (v : Watch) (later : Poller) (hv : v.pollers[id]? = some later)
      (hl : (later.awaits : Int) = 0) (wake : Option Instant) : Keeps v (v.rest id p wake).watch :=
    (accounts_setStage hv fun _ _ h => by cases h).cast hl rfl
  have habandon (v : Watch) (hv : v.pollers[id]? = some q) : Keeps v (v.abandon id).watch :=
    (accounts_abandon hv).cast hidle rfl
  unfold closeRound
  dsimp only
  split
  · split
    · exact htold.after (hrest _ q hf hidle none)
    · split
      · exact htold.after (habandon _ hf)
      case h_2 pause _ =>
        have hback : Keeps told.flush
            (told.flush.modifyPoller id fun p => { p with backoff := pause.next }) :=
          Keeps.touch _ id (fun _ => rfl) (fun _ => rfl) fun _ => rfl
        exact (htold.after hback).after
          (hrest _ { q with backoff := pause.next } (getElem?_modify_self hf _) hidle _)
  · exact hclosed.after (habandon _ hq)

/-- A step in a round is accounted for by the reply that is heard in it. -/
theorem accounts_stepRound (found : w.pollers[id]? = some p) {round : Round}
    (stage : p.stage = .rounding round) :
    Accounts (w.heardBy p) 0 0 w (w.stepRound id p round).watch := by
  have hidle : (p.awaits : Int) = 0 := congrArg Int.ofNat (awaits_of_rounding stage)
  have hset (next : Round) : Accounts (w.heardBy p) 0 0 w (w.setRound id next).watch :=
    (accounts_setRound found next).cast hidle rfl
  have habandon : Accounts (w.heardBy p) 0 0 w (w.abandon id).watch :=
    (accounts_abandon found).cast hidle rfl
  unfold stepRound
  cases round with
  | hinting hints =>
    cases hints with
    | nil => exact hset _
    | cons e hints =>
      dsimp only
      split
      · exact hset _
      · exact habandon
  | «over» raised =>
    exact (keeps_closeRound found (awaits_of_rounding stage) raised).mono (List.nil_subset _)
  | askingHint e hints => exact accounts_sendRequest found stage rfl
  | asking raised e misses probes => exact accounts_sendRequest found stage rfl
  | fetching slot => exact accounts_sendRequest found stage rfl
  | walking raised e misses probes => exact hset _
  | confirming => exact hset _
  | opening hints =>
    dsimp only
    split
    · exact hset _
    · exact habandon
  | aligning raised =>
    dsimp only
    split
    · exact hset _
    · exact habandon

/-- A poller that begins a round waits for nothing. -/
theorem keeps_beginRound (found : w.pollers[id]? = some p) (idle : p.awaits = 0) :
    Keeps w (w.beginRound id).watch := by
  have hbegun : Accounts [] (p.awaits - p.beginRound.awaits) 0 w
      (w.modifyPoller id Poller.beginRound) :=
    accounts_modify found rfl fun _ _ _ hstage => by cases hstage
  have hnothing : p.beginRound.awaits = 0 := rfl
  exact hbegun.cast (by rw [idle, hnothing]; rfl) rfl

/-- Commands leave the number of rounds as it is. -/
theorem rounds_takeCommands (settings : Settings) (p : Poller) :
    (p.takeCommands settings).rounds = p.rounds := by
  have hfold (commands : List Poller.Command) (q : Poller) :
      (commands.foldl (Poller.apply settings) q).rounds = q.rounds := by
    induction commands generalizing q with
    | nil => rfl
    | cons command rest ih => cases command <;> exact ih _
  exact hfold p.inbox p

/-- A fetch that is dropped costs nothing but its blocks. -/
theorem total_dropped (amount : Incident → Nat) (none : ∀ request, amount (.drop request) = 0)
    (flight? : Option Flight) : Incident.total amount (dropped flight?) = 0 := by
  cases flight? with
  | none => rfl
  | some flight =>
    change Incident.total amount [.drop flight.request] = 0
    rw [Incident.total_cons, none, Incident.total_nil]

/-- A fetch that is dropped costs the blocks that were waited for. -/
theorem blocksLost_dropped (flight? : Option Flight) :
    Incident.total Incident.blocksLost (dropped flight?) = Flight.blocks flight? := by
  cases flight? with
  | none => rfl
  | some flight => exact Nat.add_zero _

theorem blocksLost_exits (w : Watch) (id : PollerId) (key : DocumentKey) :
    Incident.total Incident.blocksLost (w.exits id key) = 0 := by
  unfold exits
  split <;> rfl

/-- A reply that is heard costs nothing. -/
theorem lost_heardBy (w : Watch) (p : Poller) (amount : Incident → Nat)
    (none : ∀ purpose request answer, amount (.reply purpose request answer) = 0) :
    Incident.total amount (w.heardBy p) = 0 := by
  unfold heardBy
  split
  · rfl
  · cases Flight.answer _ w.now with
    | none => rfl
    | some reply => exact congrArg (· + 0) (none _ _ reply)

/-- If a fetch is dropped, just its block is lost. -/
theorem Accounts.explains_dropped {flight? : Option Flight}
    (h : Accounts (dropped flight?) (Flight.blocks flight?) 0 w v) :
    Explains (dropped flight?) w v := by
  refine h.cast ?_ ?_
  · rw [blocksLost_dropped]
  · rw [total_dropped _ fun _ => rfl]
    rfl

/-- A reply that is taken loses nothing. -/
theorem Accounts.explains_heard (h : Accounts (w.heardBy p) 0 0 w v) :
    Explains (w.heardBy p) w v := by
  refine h.cast ?_ ?_
  · rw [lost_heardBy w p _ fun _ _ _ => rfl]
    rfl
  · rw [lost_heardBy w p _ fun _ _ _ => rfl]
    rfl

/-- A poller that ends loses what it waits for, and its place in the cache. -/
theorem Accounts.explains_ended
    (h : Accounts [] p.awaits (Incident.total Incident.departed (w.exits id p.key)) w v) :
    Explains (dropped p.flight? ++ w.exits id p.key) w v := by
  refine (h.mono (List.nil_subset _)).cast ?_ ?_
  · rw [Incident.total_append, blocksLost_dropped, blocksLost_exits, Nat.add_zero]
    rfl
  · rw [Incident.total_append, total_dropped _ fun _ => rfl, Nat.zero_add]

/-- A poller that was submitted cancels those that it pushed out of the cache, and then begins its
first round, unless it was cancelled meanwhile. -/
theorem explains_submitted (found : w.pollers[id]? = some p) {evicted : List PollerId}
    (stage : p.stage = .submitted evicted) :
    let begun := (w.setStage id (.resting none)).cancelPollers evicted
    Explains (if w.isCancelled p then dropped p.flight? ++ w.exits id p.key else w.heardBy p) w
      (if begun.isCancelled p then begun.endPoller id p.key true
      else begun.beginRound id).watch := by
  intro begun
  have hidle : p.awaits = 0 := by
    rw [Poller.awaits, Poller.flight?, stage]
    rfl
  have hset : Keeps w (w.setStage id (.resting none)) :=
    (accounts_setStage found fun _ _ h => by cases h).cast (congrArg Int.ofNat hidle) rfl
  have hbegun : Keeps w begun := hset.after (Keeps.cancelPollers _ _)
  have hbegun_eq : begun = { w with
      pollers := Roster.cancelAll evicted (w.setStage id (.resting none)).pollers } :=
    cancelPollers_eq _ _
  obtain ⟨q, hq, hqidle⟩ : ∃ q, begun.pollers[id]? = some q ∧ q.awaits = 0 := by
    refine ⟨if id ∈ evicted then Poller.cancel { p with stage := .resting none }
      else { p with stage := .resting none }, ?_, ?_⟩
    · rw [hbegun_eq]
      change (Roster.cancelAll evicted (w.pollers.modify id _))[id]? = _
      rw [Roster.getElem?_cancelAll, getElem?_modify_self found]
      rfl
    · split <;> rfl
  have hcancelled : begun.isCancelled p = w.isCancelled p := by
    rw [hbegun_eq]
    rfl
  have hexits : begun.exits id p.key = w.exits id p.key := by
    rw [hbegun_eq]
    rfl
  rw [hcancelled]
  split
  case isTrue =>
    have hend := accounts_endPoller hq p.key true
    rw [hexits, hqidle] at hend
    exact ((hbegun.after hend).cast (congrArg Int.ofNat hidle.symm) rfl).explains_ended
  case isFalse =>
    exact ((hbegun.after (keeps_beginRound hq hqidle)).mono (List.nil_subset _)).explains_heard
/-- A poller that waits takes the reply if there is one, unless it was cancelled. -/
theorem explains_waiting (founded : w.Founded) (found : w.pollers[id]? = some p) {round : Round}
    {flight : Flight} (stage : p.stage = .waiting round flight) :
    Explains (if w.isCancelled p then dropped p.flight? ++ w.exits id p.key else w.heardBy p) w
      (if w.isCancelled p then w.endPoller id p.key true
      else
        match flight.answer w.now with
        | none => ⟨w, false⟩
        | some reply => w.takeReply id p.key round reply).watch := by
  obtain ⟨hasks, -⟩ :=
    founded.pollers p (List.mem_iff_getElem?.mpr ⟨id, found⟩) round flight stage
  split
  case isTrue => exact (accounts_endPoller found p.key true).explains_ended
  case isFalse =>
    have hfetch : w.fetchIn p = some flight := by rw [fetchIn, stage]
    have hawaits : p.awaits = flight.request.blocks := by
      rw [Poller.awaits, Poller.flight?, stage]
      rfl
    refine Accounts.explains_heard ?_
    rw [heardBy, hfetch]
    dsimp only
    cases flight.answer w.now with
    | none => exact Keeps.refl w
    | some reply =>
      refine (accounts_takeReply found hasks reply).cast ?_ rfl
      rw [hawaits, Int.sub_self]

/-- A poller that rests ends when it was cancelled or is of no use, and else may begin a round. -/
theorem explains_resting (found : w.pollers[id]? = some p) {wake : Option Instant}
    (stage : p.stage = .resting wake) :
    Explains (if w.isCancelled p || (p.inbox.isEmpty && !w.isReferred id) then
        dropped p.flight? ++ w.exits id p.key else w.heardBy p) w
      (if w.isCancelled p then w.endPoller id p.key true
      else if !p.inbox.isEmpty then
        (w.modifyPoller id (·.takeCommands w.settings)).beginRound id
      else if !w.isReferred id then w.endPoller id p.key false
      else if w.isDue wake then w.beginRound id
      else ⟨w, false⟩).watch := by
  have hidle : p.awaits = 0 := by
    rw [Poller.awaits, Poller.flight?, stage]
    rfl
  cases w.isCancelled p with
  | true => exact (accounts_endPoller found p.key true).explains_ended
  | false =>
    cases p.inbox.isEmpty with
    | false =>
      have htaken : Keeps w (w.modifyPoller id (·.takeCommands w.settings)) :=
        Keeps.touch w id (fun q => (q.takeCommands_same w.settings).2.2)
          (fun q => (q.takeCommands_same w.settings).1) (rounds_takeCommands w.settings)
      have hheld : (w.modifyPoller id (·.takeCommands w.settings)).pollers[id]? =
          some (p.takeCommands w.settings) := getElem?_modify_self found _
      have hstill : (p.takeCommands w.settings).awaits = 0 := by
        rw [Poller.awaits_of_stage (p.takeCommands_same w.settings).2.2]
        exact hidle
      have hbegun := htaken.after (keeps_beginRound hheld hstill)
      exact (hbegun.mono (List.nil_subset _)).explains_heard
    | true =>
      cases w.isReferred id with
      | false => exact (accounts_endPoller found p.key false).explains_ended
      | true =>
        simp only [Bool.false_eq_true, if_false, Bool.not_true, Bool.and_false, Bool.or_false]
        split
        · exact ((keeps_beginRound found hidle).mono (List.nil_subset _)).explains_heard
        · exact ((Keeps.refl w).mono (List.nil_subset _)).explains_heard

/-- A poller that notices its time to wake has nothing to account for. -/
theorem keeps_wake (w : Watch) (id : PollerId) : Keeps w (w.wake id) := by
  rcases w.wake_cases id with hsame | ⟨p, due, found, stage, -, -, hbegins⟩
  · rw [hsame]
    exact Keeps.refl w
  · rw [hbegins]
    refine keeps_beginRound found ?_
    rw [Poller.awaits, Poller.flight?, stage]
    rfl

/-- What a poller does in its turn is accounted for by the reply that it takes, or by the fetch
that it drops and the place in the cache that it gives up. -/
theorem explains_stepPoller (founded : w.Founded) (id : PollerId) :
    Explains (w.incidentsOfPoller id) w (w.stepPoller id).watch := by
  unfold stepPoller incidentsOfPoller
  cases hfound : w.pollers[id]? with
  | none => exact Keeps.refl w
  | some p =>
    unfold retires
    dsimp only
    cases hstage : p.stage with
    | submitted evicted => exact explains_submitted hfound hstage
    | rounding round => exact (accounts_stepRound hfound hstage).explains_heard
    | waiting round flight => exact explains_waiting founded hfound hstage
    | resting wake => exact explains_resting hfound hstage
    | ended => exact ((Keeps.refl w).mono (List.nil_subset _)).explains_heard

end Polling

/-! ## Errands and the sweeper -/

section Errands

variable {errand : Errand}

/-- Of errands with distinct numbers, one has a given number. -/
theorem filter_id_eq {errands : List Errand} (distinct : (errands.map Errand.id).Nodup)
    (mem : errand ∈ errands) :
    (errands.filter fun other => !decide (other.id ≠ errand.id)) = [errand] := by
  induction errands with
  | nil => cases mem
  | cons first rest ih =>
    rw [List.map_cons, List.nodup_cons] at distinct
    rcases List.mem_cons.mp mem with rfl | hm
    · have hnone : (rest.filter fun other => !decide (other.id ≠ errand.id)) = [] := by
        refine List.filter_eq_nil_iff.mpr fun other hother hid => distinct.1 ?_
        have heq : other.id = errand.id := by simpa using hid
        exact heq ▸ List.mem_map_of_mem hother
      rw [List.filter_cons, hnone]
      simp
    · have hne : first.id ≠ errand.id :=
        fun heq => distinct.1 (heq ▸ List.mem_map_of_mem hm)
      rw [List.filter_cons, ih distinct.2 hm]
      simp [hne]

/-- An errand that is over takes along what it waits for. -/
theorem accounts_dismiss (distinct : (w.errands.map Errand.id).Nodup) (mem : errand ∈ w.errands) :
    Accounts heard errand.awaits 0 w (w.dismiss errand.id) := by
  refine (accounts_giveUp w (fun other => other.id ≠ errand.id) ?_).before (Keeps.reap _)
  rw [filter_id_eq distinct mem]
  simp

/-- When an errand comes to wait, there is one block more to wait for, if it fetches one. -/
theorem awaits_departed {errands : List Errand} (distinct : (errands.map Errand.id).Nodup)
    (mem : errand ∈ errands) (flight : Flight) :
    ((errands.map (·.departed errand.id flight)).map Errand.awaits).sum + errand.awaits =
      (errands.map Errand.awaits).sum + flight.request.blocks := by
  induction errands with
  | nil => cases mem
  | cons first rest ih =>
    rw [List.map_cons, List.nodup_cons] at distinct
    have hother {other : Errand} (hne : other.id ≠ errand.id) :
        other.departed errand.id flight = other := by rw [Errand.departed, if_neg hne]
    simp only [List.map_cons, List.sum_cons]
    rcases List.mem_cons.mp mem with rfl | hm
    · have hrest : rest.map (·.departed errand.id flight) = rest := by
        refine (List.map_congr_left fun other hm => hother fun heq => ?_).trans (List.map_id rest)
        exact distinct.1 (heq ▸ List.mem_map_of_mem hm)
      have hself : (errand.departed errand.id flight).awaits = flight.request.blocks := by
        rw [Errand.departed, if_pos rfl]
        rfl
      rw [hrest, hself]
      omega
    · have hne : first.id ≠ errand.id :=
        fun heq => distinct.1 (heq ▸ List.mem_map_of_mem hm)
      have hrest := ih distinct.2 hm
      rw [hother hne]
      omega

theorem errands_noteGood (w : Watch) (uri : EditionUri) :
    (w.noteGood uri).errands = w.errands := (keepsFeeds_noteGood w uri).errands

theorem errands_noteSlot (w : Watch) (uri : EditionUri) :
    (w.noteSlot uri).errands = w.errands := by
  unfold noteSlot flush
  split
  · unfold submitJob
    split <;> rfl
  · rfl

/-- What follows from a reply sends no errands, and ends none. -/
theorem errands_conclude (w : Watch) (errand : Errand) (reply : Reply) :
    (w.conclude errand reply).errands = w.errands := by
  unfold conclude
  dsimp only
  split
  · split
    · exact errands_noteSlot _ _
    · rfl
  · split
    · exact errands_noteSlot _ _
    · rfl
  · split
    · split
      · exact errands_noteGood _ _
      · exact errands_noteSlot _ _
    · rfl
  · split
    · exact errands_noteGood _ _
    · rfl
  · split
    · rfl
    · unfold bringContent
      split
      · dsimp only
        split
        · exact errands_noteGood _ _
        · rfl
      · split <;> rfl

/-- The reply to an errand that fetches a block counts as one, and the edition is noted if its
block was found; for a probe that takes this for a proof it is noted as known good. -/
theorem accounts_conclude_block (w : Watch) (errand : Errand)
    (fetches : errand.purpose.fetches = .block) {reply : Reply}
    (taken : .reply (some errand.purpose) ⟨.block, errand.uri⟩ reply ∈ heard) :
    Accounts heard (-1) 0 w (w.conclude errand reply) := by
  let counted : Watch := { w with records := w.records.countVerdict reply.verdict }
  have hcount : Accounts heard (-1) 0 w counted := accounts_countVerdict w reply.verdict
  have hlog {v : Watch} (h : Accounts heard (-1) 0 w v) (event : Event) :
      Accounts heard (-1) 0 w (v.log event) := h.before (Keeps.log v event)
  have hprobed {v : Watch} (h : Accounts heard (-1) 0 w v) :
      Accounts heard (-1) 0 w { v with probed := some reply.verdict } :=
    h.before (Keeps.same rfl rfl rfl rfl rfl)
  unfold conclude
  cases hpurpose : errand.purpose with
  | hint =>
    dsimp only
    split
    case isTrue hpresent => exact accounts_noteFound w taken hpresent
    case isFalse => exact hcount
  | check listener =>
    dsimp only
    split
    case isTrue hpresent => exact hlog (accounts_noteFound w taken hpresent) _
    case isFalse => exact hlog hcount _
  | probe good =>
    dsimp only
    split
    case isTrue hpresent =>
      split
      case isTrue hgood =>
        have hshown : ∃ d ∈ heard, d.ShowsGood errand.uri :=
          ⟨_, taken, rfl, .inr ⟨rfl, by rw [hpurpose, hgood], data_or_lost_of_present hpresent⟩⟩
        exact hprobed
          ((hcount.trans (accounts_noteGood counted _ hshown)).cast (Int.add_zero _) rfl)
      case isFalse => exact hprobed (accounts_noteFound w taken hpresent)
    case isFalse => exact hprobed hcount
  | prefetch =>
    rw [hpurpose] at fetches
    cases fetches
  | retrieval id =>
    rw [hpurpose] at fetches
    cases fetches

/-- The content that an errand brings is known good. -/
theorem accounts_conclude_content (w : Watch) (errand : Errand)
    (fetches : errand.purpose.fetches = .content) {reply : Reply}
    (taken : .reply (some errand.purpose) ⟨.content, errand.uri⟩ reply ∈ heard) :
    Accounts heard 0 0 w (w.conclude errand reply) := by
  have hshown (data : reply = .data) : ∃ d ∈ heard, d.ShowsGood errand.uri :=
    ⟨_, taken, rfl, .inl ⟨rfl, data⟩⟩
  have hsame : Accounts heard 0 0 w w := (Keeps.refl w).mono (List.nil_subset _)
  unfold conclude
  cases hpurpose : errand.purpose with
  | prefetch =>
    dsimp only
    split
    case isTrue hdata =>
      rw [Bool.and_eq_true, decide_eq_true_eq] at hdata
      have hprefetched : Keeps w { w with records := w.records.countPrefetched } :=
        Keeps.record w .countPrefetched rfl trivial
      exact hprefetched.after (accounts_noteGood _ _ (hshown hdata.1))
    case isFalse => exact hsame
  | retrieval id =>
    dsimp only
    split
    · exact hsame
    · unfold bringContent
      split
      · dsimp only
        split
        · exact (accounts_noteGood w _ (hshown rfl)).before (Keeps.log _ _)
        · exact hsame.before (Keeps.log w _)
      · split
        · exact hsame
        · exact hsame.before (Keeps.log w _)
  | _ =>
    rw [hpurpose] at fetches
    cases fetches

/-- What follows from the reply to an errand. -/
theorem accounts_conclude (w : Watch) (errand : Errand) {request : Request}
    (asks : request = ⟨errand.purpose.fetches, errand.uri⟩) (reply : Reply) :
    Accounts [.reply (some errand.purpose) request reply] (-request.blocks) 0 w
      (w.conclude errand reply) := by
  cases hkind : errand.purpose.fetches with
  | block =>
    rw [asks, hkind]
    exact accounts_conclude_block w errand hkind (List.mem_singleton.mpr rfl)
  | content =>
    rw [asks, hkind]
    exact accounts_conclude_content w errand hkind (List.mem_singleton.mpr rfl)

/-- The fetch of an errand is the one it was sent for; if it is issued now, it is one block more,
if it is of a block. -/
theorem accounts_fetchFor (founded : w.Founded) (mem : errand ∈ w.errands) :
    (w.fetchFor errand).flight.request = ⟨errand.purpose.fetches, errand.uri⟩ ∧
      Accounts heard ((w.fetchFor errand).flight.request.blocks - errand.awaits) 0 w
        (w.fetchFor errand).watch := by
  unfold fetchFor
  cases hflight : errand.flight with
  | none =>
    have hidle : errand.awaits = 0 := by
      rw [Errand.awaits, hflight]
      rfl
    refine ⟨rfl, (accounts_issue w _).cast ?_ rfl⟩
    rw [hidle]
    exact (Int.sub_zero _).symm
  | some flight =>
    have hawaits : errand.awaits = flight.request.blocks := by
      rw [Errand.awaits, hflight]
      rfl
    refine ⟨(founded.errands errand mem flight hflight).1, ?_⟩
    refine ((Keeps.refl w).mono (List.nil_subset _)).cast ?_ rfl
    rw [hawaits, Int.sub_self]

theorem errands_fetchFor (w : Watch) (errand : Errand) :
    (w.fetchFor errand).watch.errands = w.errands := (keepsFeeds_fetchFor w errand).errands

/-- The departure of an errand makes one block more to wait for, if it fetches one. -/
theorem accounts_depart (distinct : (w.errands.map Errand.id).Nodup) (mem : errand ∈ w.errands)
    {flight : Flight} (asks : flight.request = ⟨errand.purpose.fetches, errand.uri⟩)
    (issued : flight.request ∈ w.fetches) :
    Accounts heard (errand.awaits - flight.request.blocks) 0 w (w.depart errand.id flight) := by
  have hsum := awaits_departed distinct mem flight
  refine accounts_errands w (fun hw other hm => ?_) (fun h => ?_) (by omega)
  · obtain ⟨old, hold, rfl⟩ := List.mem_map.mp hm
    unfold Errand.departed
    split
    case isTrue hid =>
      have hsame : old = errand := List.inj_on_of_nodup_map distinct hold mem hid
      intro other hflight
      cases hflight
      exact ⟨hsame ▸ asks, issued⟩
    case isFalse => exact hw.errands old hold
  · obtain ⟨other, hm, hholds⟩ := List.any_eq_true.mp h
    obtain ⟨old, hold, rfl⟩ := List.mem_map.mp hm
    rw [isAlive, Bool.or_eq_true, List.any_eq_true]
    refine .inr ⟨old, hold, ?_⟩
    unfold Errand.departed at hholds
    split at hholds <;> exact hholds

/-- What an errand does in its turn is accounted for by the reply that it takes, or by the fetch
that it drops. -/
theorem explains_stepErrand (numbered : w.Numbered) (founded : w.Founded) (id : Nat) :
    Explains (w.incidentsOfErrand id) w (w.stepErrand id).watch := by
  unfold incidentsOfErrand
  cases hfound : w.errands.find? fun errand => errand.id = id with
  | none =>
    have hsame : (w.stepErrand id).watch = w := by rw [stepErrand, hfound]
    rw [hsame]
    exact Keeps.refl w
  | some errand =>
    have hid : errand.id = id := by simpa using List.find?_some hfound
    have hmem := List.mem_of_find?_eq_some hfound
    subst hid
    have hfetch (heard : List Incident) : _ ∧ Accounts heard _ 0 w (w.fetchFor errand).watch :=
      accounts_fetchFor founded hmem
    have hrequest := (hfetch []).1
    have herrands := errands_fetchFor w errand
    rw [stepErrand_eq hfound]
    dsimp only
    cases hreply : w.replyTo errand with
    | some reply =>
      have hconcluded := (hfetch _).2.trans
        (accounts_conclude (w.fetchFor errand).watch errand hrequest reply)
      have hsame : ((w.fetchFor errand).watch.conclude errand reply).errands = w.errands := by
        rw [errands_conclude, herrands]
      refine (hconcluded.trans (accounts_dismiss ?_ ?_)).cast ?_ rfl
      · rw [hsame]
        exact numbered.distinct
      · rw [hsame]
        exact hmem
      · have hnone (d : Incident) (h : d.blocksLost = 0) :
            Incident.total Incident.blocksLost [d] = 0 := by
          rw [Incident.total_cons, h]
          rfl
        rw [hnone _ rfl]
        omega
    | none =>
      dsimp only
      split
      case isTrue =>
        refine Accounts.explains_dropped (((hfetch _).2.trans
          (accounts_dismiss (herrands ▸ numbered.distinct) (herrands ▸ hmem))).cast ?_ rfl)
        rw [Flight.blocks]
        omega
      case isFalse =>
        split
        case isTrue hnew =>
          have hissued :
              (w.fetchFor errand).flight.request ∈ (w.fetchFor errand).watch.fetches := by
            unfold fetchFor
            rw [Option.isNone_iff_eq_none.mp hnew, fetches_issue]
            exact List.mem_append_right _ (List.mem_singleton.mpr rfl)
          refine ((hfetch []).2.trans (accounts_depart (herrands ▸ numbered.distinct)
            (herrands ▸ hmem) hrequest hissued)).cast ?_ rfl
          rw [Incident.total_nil]
          omega
        case isFalse => exact Keeps.refl w

end Errands

/-- Stale marks are swept without an incident. -/
theorem keeps_sweep (w : Watch) : Keeps w w.sweep := by
  have hsend (due : List EditionUri) (v : Watch) :
      Keeps v (due.foldl (fun w uri => w.submitErrand .prefetch .prefetch uri) v) := by
    induction due generalizing v with
    | nil => exact Keeps.refl v
    | cons uri rest ih => exact (Keeps.submitErrand v _ uri fun h => by cases h).after (ih _)
  have hswept := Keeps.record w (.sweep w.now w.settings.prefetchDelay.nanoseconds) rfl trivial
  exact hswept.after (hsend _ _)

theorem keeps_stepSweeper (w : Watch) : Keeps w w.stepSweeper.watch := by
  have hsweeper (v : Watch) (sweeper : Sweeper) : Keeps v { v with sweeper := sweeper } :=
    Keeps.same rfl rfl rfl rfl rfl
  unfold stepSweeper
  split
  · exact Keeps.refl w
  · split
    · exact hsweeper w _
    · exact hsweeper w _
  · split
    · exact hsweeper w _
    · split
      · exact (keeps_sweep w).after (hsweeper w.sweep _)
      · exact Keeps.refl w

/-! ## Actions -/

/-- A job that breaks down is accounted for by the fetch that it drops. -/
theorem explains_crash (numbered : w.Numbered) (job : Job) :
    Explains (w.incidentsOfCrash job) w (w.crash job) := by
  have hquiet (heard : List Incident) : Accounts heard 0 0 w w :=
    (Keeps.refl w).mono (List.nil_subset heard)
  unfold crash incidentsOfCrash
  cases job with
  | poller id =>
    dsimp only
    refine Accounts.explains_dropped ?_
    cases hfound : w.pollers[id]? with
    | none => exact hquiet _
    | some p =>
      rw [Option.bind_some]
      cases hflight : p.flight? with
      | none => exact hquiet _
      | some flight =>
        refine (accounts_finishPoller hfound).cast ?_ rfl
        rw [Poller.awaits, hflight]
  | errand id =>
    dsimp only
    refine Accounts.explains_dropped ?_
    cases hfound : w.errands.find? fun errand => errand.id = id with
    | none => exact hquiet _
    | some errand =>
      have hid : errand.id = id := by simpa using List.find?_some hfound
      subst hid
      rw [Option.bind_some]
      cases hflight : errand.flight with
      | none => exact hquiet _
      | some flight =>
        have hmem := List.mem_of_find?_eq_some hfound
        refine (accounts_dismiss numbered.distinct hmem).cast ?_ rfl
        rw [Errand.awaits, hflight]
  | sweeper => exact hquiet _
  | delivery => exact hquiet _

/-- The owner's probe is an errand more. -/
theorem keeps_asking (held : w.held = true) (uri : EditionUri) (good : Bool) :
    Keeps w (w.asking uri good) := by
  let cleared : Watch := { w with probed := none }
  have hcleared : Keeps w cleared := Keeps.same rfl rfl rfl rfl rfl
  have hadd : Keeps cleared { cleared with
      errands := cleared.errands ++ [⟨cleared.errandsSent, .probe good, uri, none⟩] } := by
    refine accounts_errands cleared (fun hw errand hm => ?_) (fun _ => ?_) ?_
    · rcases List.mem_append.mp hm with hold | hnew
      · exact hw.errands errand hold
      · rw [List.mem_singleton.mp hnew]
        exact fun _ hflight => by cases hflight
    · exact Bool.or_eq_true_iff.mpr (.inl held)
    · simp [Errand.awaits, Flight.blocks]
  exact (hcleared.after hadd).after (Keeps.same rfl rfl rfl rfl rfl)

/-- The owner's probe goes out with the turn of a new errand. -/
theorem explains_probe (numbered : w.Numbered) (founded : w.Founded) (held : w.held = true)
    (uri : EditionUri) (good : Bool) :
    Explains (w.incidentsIn (.probe uri good)) w (w.probe uri good) := by
  have hasked := keeps_asking held uri good
  have hnumbered : Watch.Numbered { w with probed := none } := numbered.of_same rfl rfl
  exact hasked.after (explains_stepErrand (hnumbered.add (.probe good) uri)
    (hasked.founded founded) w.errandsSent)

/-- A probe that is dropped is accounted for by the fetch that it drops. -/
theorem explains_dropProbe (w : Watch) : Explains (w.incidentsIn .dropProbe) w w.dropProbe := by
  have hdrop : w.dropProbe =
      Watch.reap { w with errands := w.errands.filter fun errand => !errand.purpose.isProbe } := by
    unfold dropProbe
    refine congrArg (fun errands => Watch.reap { w with errands := errands })
      (List.filter_congr fun errand _ => ?_)
    cases errand.purpose <;> rfl
  have hincidents : w.incidentsIn .dropProbe =
      (w.errands.filter (·.purpose.isProbe)).flatMap fun errand => dropped errand.flight := rfl
  have htotals (errands : List Errand) :
      Incident.total Incident.blocksLost (errands.flatMap fun errand => dropped errand.flight) =
          (errands.map Errand.awaits).sum ∧
        Incident.total Incident.departed (errands.flatMap fun errand => dropped errand.flight) =
          0 := by
    induction errands with
    | nil => exact ⟨rfl, rfl⟩
    | cons errand rest ih =>
      rw [List.flatMap_cons, Incident.total_append, Incident.total_append, ih.1, ih.2,
        blocksLost_dropped, total_dropped _ fun _ => rfl]
      exact ⟨by rw [List.map_cons, List.sum_cons]; rfl, rfl⟩
  obtain ⟨hlost, hdeparted⟩ := htotals (w.errands.filter (·.purpose.isProbe))
  rw [hdrop, hincidents, Explains, hlost, hdeparted]
  refine (accounts_giveUp w (fun errand => !errand.purpose.isProbe) ?_).before (Keeps.reap _)
  simp only [Bool.not_not]

/-- What comes of it when a listener is told something is a word or a clearance. -/
theorem cases_of_mem_saying {d : Incident} {name : String} {signal : Signal}
    (h : d ∈ w.saying name signal) :
    (∃ uri fetched, d = .word uri fetched) ∨ ∃ pollers, d = .clearance pollers := by
  cases signal with
  | round key => cases h
  | found found =>
    unfold saying at h
    dsimp only at h
    split at h
    · cases h
    · split at h
      · cases h
      · split at h
        · cases h
        · exact .inl ⟨_, _, List.mem_singleton.mp h⟩
        · split at h
          · exact .inl ⟨_, _, List.mem_singleton.mp h⟩
          · cases h
        · cases h
        · cases h
        · exact .inr ⟨_, List.mem_singleton.mp h⟩

/-- What comes of it when a target is told something are words and clearances. -/
theorem cases_of_mem_sayings {d : Incident} {target : Target} {signals : List Signal}
    (h : d ∈ w.sayings target signals) :
    (∃ uri fetched, d = .word uri fetched) ∨ ∃ pollers, d = .clearance pollers := by
  induction signals generalizing w with
  | nil => cases h
  | cons signal rest ih =>
    unfold sayings at h
    rcases List.mem_append.mp h with hfirst | hlater
    · cases target with
      | listener name => exact cases_of_mem_saying hfirst
      | feed id => cases hfirst
    · split at hlater
      · exact ih hlater
      · cases hlater

/-- All that comes of a delivery are words, and clearances if a listener stops the watch. -/
theorem cases_of_mem_sayingsOfNext {d : Incident} (h : d ∈ w.sayingsOfNext) :
    (∃ uri fetched, d = .word uri fetched) ∨ ∃ pollers, d = .clearance pollers := by
  unfold sayingsOfNext at h
  split at h
  · cases h
  · unfold sayingsOf at h
    split at h
    · cases h
    · exact cases_of_mem_sayings h

/-- The turn of a job is accounted for by its incidents. -/
theorem explains_takeTurn (numbered : w.Numbered) (founded : w.Founded) (job : Job) :
    Explains (w.incidentsOfTurn job) w (w.takeTurn job) := by
  cases job with
  | sweeper => exact keeps_stepSweeper w
  | poller id => exact explains_stepPoller founded id
  | errand id => exact explains_stepErrand numbered founded id
  | delivery =>
    unfold takeTurn incidentsOfTurn
    dsimp only
    split
    · exact explains_deliverNext w
    · exact Keeps.refl w

/-- What an action does is accounted for by its incidents. -/
theorem explains_act (numbered : w.Numbered) (founded : w.Founded) (action : Action) :
    Explains (w.incidents action) w (w.act action) := by
  unfold incidents act
  split
  case isTrue => exact Keeps.refl w
  case isFalse hcall =>
    have hheld (call : action.isCall = true) : w.held = true := by simpa [call] using hcall
    have halive (call : action.isCall = true) : w.isAlive = true :=
      Bool.or_eq_true_iff.mpr (.inl (hheld call))
    cases action with
    | work job => exact explains_takeTurn numbered founded job
    | wake id => exact keeps_wake w id
    | crash job => exact explains_crash numbered job
    | elapse span => exact Keeps.same rfl rfl rfl rfl rfl
    | setNetwork network => exact Keeps.same rfl rfl rfl rfl rfl
    | refuse kinds => exact Keeps.same rfl rfl rfl rfl rfl
    | letGo name => exact Keeps.same rfl rfl rfl rfl rfl
    | dropProbe => exact explains_dropProbe w
    | release => exact Keeps.release w
    | subscribe key name options =>
      have hlost : Incident.total Incident.blocksLost
          (w.incidentsIn (.subscribe key name options)) = 0 := blocksLost_promotions w key options
      rw [Explains, hlost]
      exact (accounts_subscribe w key name options).mono (List.nil_subset _)
    | unsubscribe subscription => exact Keeps.unsubscribe w subscription
    | subscribeContent key name quiet options =>
      have hlost : Incident.total Incident.blocksLost
          (w.incidentsIn (.subscribeContent key name quiet options)) = 0 :=
        blocksLost_promotions w key options
      rw [Explains, hlost]
      exact (accounts_subscribeContent w key name quiet options).mono (List.nil_subset _)
    | unsubscribeContent subscription => exact Keeps.unsubscribeContent w subscription
    | noteSlot uri => exact accounts_noteSlot w uri ⟨_, List.mem_singleton.mpr rfl, rfl⟩
    | noteGood uri => exact accounts_noteGood w uri ⟨_, List.mem_singleton.mpr rfl, rfl, rfl⟩
    | noteFetched uri metadata => exact accounts_noteFetched w uri metadata
    | resolve uri prefetch name =>
      exact (Keeps.resolve w uri prefetch).after (Keeps.same rfl rfl rfl rfl rfl)
    | probe uri good => exact explains_probe numbered founded (hheld rfl) uri good
    | hint uri => exact Keeps.hint w uri (halive rfl)
    | check uri listener => exact Keeps.submitErrand w _ uri fun _ => halive rfl
    | shutdown => exact explains_shutdown w

/-- At the start nothing is waited for. -/
theorem founded_initial (settings : Settings) (listeners : List Listener) :
    (initial settings listeners).Founded :=
  ⟨fun _ hm => absurd hm List.not_mem_nil, fun _ hm => absurd hm List.not_mem_nil⟩

/-- What a run does is accounted for by its incidents. -/
theorem explains_run (numbered : w.Numbered) (founded : w.Founded) (actions : List Action) :
    Explains (w.annals actions) w (w.run actions) := by
  induction actions generalizing w with
  | nil => exact Keeps.refl w
  | cons action rest ih =>
    have hact := explains_act numbered founded action
    exact hact.append (ih (numbered_act numbered action) (hact.founded founded))

/-- At the start there is no errand to be numbered. -/
theorem numbered_initial (settings : Settings) (listeners : List Listener) :
    (initial settings listeners).Numbered := numbered_run settings listeners []

/-- After every run, what is waited for was issued. -/
theorem founded_run (settings : Settings) (listeners : List Listener) (actions : List Action) :
    ((initial settings listeners).run actions).Founded :=
  (explains_run (numbered_initial settings listeners) (founded_initial settings listeners)
    actions).founded (founded_initial settings listeners)

end EditionWatch.Watch
