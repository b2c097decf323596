import EditionWatch.Proofs.Incidents

/-!
# What incidents account for

Of what a watch comes to be in an action, its incidents account for three things: what it learned
of editions, how many probes were made that nobody waits for any more, and how many temporary
pollers are missing from the cache. Everything else is even: as many rounds are counted as pollers
brought to an end, and what a watch waits for was called for and issued. This module holds the
books and the calls; the turns of jobs come after it.
-/

namespace EditionWatch

/-! ## What the books show -/

namespace Records

/-- Whether a change is entered in the books of neither probes, rounds nor temporary pollers. -/
def Change.isCalm : Change → Bool
  | .subscribe _ _ _ polls => !polls
  | .resolve _ _ _ => false
  | .removePoller _ _ _ => false
  | .removePollers => false
  | .forgetPollers => false
  | .countProbe => false
  | .countVerdict _ => false
  | .countRound => false
  | _ => true

/-- Two records agree about probes, rounds and temporary pollers. -/
structure KeepsBooks (r r' : Records) : Prop where
  probes : r'.tally.probes = r.tally.probes
  answered : r'.tally.answered = r.tally.answered
  rounds : r'.tally.pollRounds = r.tally.pollRounds
  created : r'.tally.temporaryCreated = r.tally.temporaryCreated
  evicted : r'.tally.temporaryEvicted = r.tally.temporaryEvicted
  cache : r'.cache = r.cache

/-- To register a callback enters nothing in the books of probes, rounds and temporary pollers. -/
theorem keepsBooks_register (r : Records) (key : DocumentKey) (callback : CallbackId)
    (requested : Edition) : KeepsBooks r (r.register key callback requested) := by
  unfold register
  dsimp only
  cases (r.enrol key callback requested).standing key <;> exact ⟨rfl, rfl, rfl, rfl, rfl, rfl⟩

/-- A calm change keeps the books. -/
theorem keepsBooks_apply (r : Records) (change : Change) (calm : change.isCalm = true) :
    KeepsBooks r (r.apply change) := by
  cases change with
  | subscribe key callback requested polls =>
    cases polls with
    | false => exact keepsBooks_register r key callback requested
    | true => cases calm
  | noteSlot now uri =>
    simp only [apply, noteSlot]
    cases (r.frontier uri.key).raiseSlot? uri.edition <;> exact ⟨rfl, rfl, rfl, rfl, rfl, rfl⟩
  | noteGood now uri =>
    simp only [apply, noteGood]
    cases (r.frontier uri.key).raiseGood? uri.edition with
    | none => exact ⟨rfl, rfl, rfl, rfl, rfl, rfl⟩
    | some rise =>
      dsimp only
      cases rise.slotRose <;> exact ⟨rfl, rfl, rfl, rfl, rfl, rfl⟩
  | takeDelivery =>
    simp only [apply, takeDelivery?]
    cases r.queue.pop? <;> exact ⟨rfl, rfl, rfl, rfl, rfl, rfl⟩
  | resolve now key prefetch => cases calm
  | removePoller key poller cancelled => cases calm
  | removePollers => cases calm
  | forgetPollers => cases calm
  | countProbe => cases calm
  | countVerdict verdict => cases calm
  | countRound => cases calm
  | _ => exact ⟨rfl, rfl, rfl, rfl, rfl, rfl⟩

/-- How many temporary pollers were made, but were not pushed out and are not there any more. -/
def missing (r : Records) : Int :=
  r.tally.temporaryCreated - r.tally.temporaryEvicted - r.cache.byUse.size

/-- If the books agree, as many temporary pollers are missing. -/
theorem KeepsBooks.missing_eq {r r' : Records} (h : KeepsBooks r r') : r'.missing = r.missing := by
  rw [missing, missing, h.created, h.evicted, h.cache]

/-- A document that comes to be polled in the background takes its temporary poller along. -/
theorem missing_cover (r : Records) (key : DocumentKey) (callback : CallbackId) :
    (r.cover key callback).missing =
      r.missing + if r.pool.poller? key = none ∧ r.cache.poller? key ≠ none then 1 else 0 := by
  unfold cover coverage
  cases hpool : r.pool.poller? key with
  | some poller => simp [missing]
  | none =>
    cases hcache : r.cache.poller? key with
    | none => simp [missing, countStart]
    | some poller =>
      have hsome : r.cache.byUse.get? key ≠ none := by
        rw [show r.cache.byUse.get? key = some poller from hcache]
        exact Option.some_ne_none poller
      have hsize := KeyMap.size_erase hsome
      have herase : (r.cache.erase key).byUse.size = (r.cache.byUse.erase key).size := rfl
      simp only [missing, countStart, herase, ne_eq, reduceCtorEq, not_false_eq_true, and_self,
        if_true]
      omega

/-- A lookup makes one temporary poller more, or none, and counts whom it pushes out. -/
theorem missing_resolve (r : Records) (now : Instant) (key : DocumentKey) (prefetch : Bool) :
    (r.resolve now key prefetch).missing = r.missing := by
  have hmarks (r : Records) :
      (if prefetch then { r with marks := r.marks.arm key (r.frontier key) now } else r).missing =
        r.missing := by
    split <;> rfl
  unfold resolve
  dsimp only
  rw [hmarks]
  cases r.pool.poller? key with
  | some _ => rfl
  | none =>
    cases hcache : r.cache.poller? key with
    | some _ => simp only [missing, LookupCache.size_touch]
    | none =>
      have hsize := LookupCache.size_insert hcache r.pollersMade
      simp only [missing, makeTemporary]
      omega

/-- A poller that takes itself out is missing if it was a temporary one. -/
theorem missing_removePoller (r : Records) (key : DocumentKey) (poller : PollerId)
    (cancelled : Bool) :
    (r.removePoller key poller cancelled).missing =
      r.missing +
        if r.pool.poller? key ≠ some poller ∧ r.cache.poller? key = some poller then 1 else 0 := by
  unfold removePoller
  dsimp only
  split
  case isTrue hpool => cases cancelled <;> simp [hpool, missing, countStops]
  case isFalse hpool =>
    split
    case isTrue hcache =>
      have hsome : r.cache.byUse.get? key ≠ none := by
        rw [show r.cache.byUse.get? key = some poller from hcache]
        exact Option.some_ne_none poller
      have hsize := KeyMap.size_erase hsome
      have hgone : missing { r with cache := r.cache.erase key } = r.missing + 1 := by
        have herase : (r.cache.erase key).byUse.size = (r.cache.byUse.erase key).size := rfl
        simp only [missing, herase]
        omega
      simp only [ne_eq, hpool, not_false_eq_true, hcache, and_self, if_true]
      cases cancelled <;> exact hgone
    case isFalse hcache => simp [hcache]

/-- A shutdown takes out all temporary pollers of the cache at once. -/
theorem missing_removePollers (r : Records) :
    r.removePollers.missing = r.missing + r.cache.pollers.length := by
  have hsize : r.cache.pollers.length = r.cache.byUse.size := List.length_map _
  rw [hsize]
  simp only [missing, removePollers, forgetPollers, countStops, LookupCache.clear, KeyMap.empty,
    KeyMap.size, List.length_nil]
  omega

/-- Each verdict answers one probe. -/
theorem answered_countVerdict (r : Records) (verdict : Verdict) :
    (r.countVerdict verdict).tally.answered = r.tally.answered + 1 := by
  cases verdict <;> simp only [countVerdict, Tally.answered] <;> omega

end Records

/-! ## What a watch waits for -/

/-- A poller that waits for a fetch waits for the one of its round, and that was issued. -/
def Poller.IsFounded (p : Poller) (issued : List Request) : Prop :=
  ∀ round flight, p.stage = .waiting round flight →
    round.request? p.key = some flight.request ∧ flight.request ∈ issued

/-- The fetch that an errand waits for is the one it was sent for, and it was issued. -/
def Errand.IsFounded (errand : Errand) (issued : List Request) : Prop :=
  ∀ flight, errand.flight = some flight →
    flight.request = ⟨errand.purpose.fetches, errand.uri⟩ ∧ flight.request ∈ issued

/-- What a poller waits for was issued also if more has been issued. -/
theorem Poller.IsFounded.mono {p : Poller} {issued more : List Request} (h : p.IsFounded issued)
    (grows : issued ⊆ more) : p.IsFounded more :=
  fun round flight hstage => (h round flight hstage).imp_right fun hin => grows hin

theorem Errand.IsFounded.mono {errand : Errand} {issued more : List Request}
    (h : errand.IsFounded issued) (grows : issued ⊆ more) : errand.IsFounded more :=
  fun flight hflight => (h flight hflight).imp_right fun hin => grows hin

/-- How many blocks a poller waits for is seen from its stage. -/
theorem Poller.awaits_of_stage {p q : Poller} (h : q.stage = p.stage) : q.awaits = p.awaits := by
  rw [awaits, awaits, flight?, flight?, h]

/-- What a list comes to when one of its elements is changed. -/
theorem sum_modify {α : Type} {l : List α} {i : Nat} {a : α} (found : l[i]? = some a)
    (change : α → α) (amount : α → Nat) :
    ((l.modify i change).map amount).sum + amount a = (l.map amount).sum + amount (change a) := by
  induction l generalizing i with
  | nil => cases found
  | cons b rest ih =>
    cases i with
    | zero =>
      cases found
      simp only [List.modify_zero_cons, List.map_cons, List.sum_cons]
      omega
    | succ i =>
      have hget : rest[i]? = some a := by simpa using found
      have hrest := ih hget
      simp only [List.modify_succ_cons, List.map_cons, List.sum_cons]
      omega

/-- What a list comes to together with those of its elements that are left out. -/
theorem sum_filter {α : Type} (l : List α) (keep : α → Bool) (amount : α → Nat) :
    ((l.filter keep).map amount).sum + ((l.filter fun a => !keep a).map amount).sum =
      (l.map amount).sum := by
  induction l with
  | nil => rfl
  | cons a rest ih =>
    cases h : keep a <;>
      simp only [List.filter_cons, h, Bool.not_true, Bool.not_false, Bool.false_eq_true, if_true,
        if_false, List.map_cons, List.sum_cons] <;> omega

namespace Watch

variable {u v w : Watch} {heard later : List Incident} {owed more gone lost : Int}

/-- Every fetch that a watch waits for was issued, and is the one that is called for. -/
structure Founded (w : Watch) : Prop where
  pollers : ∀ p ∈ w.pollers, p.IsFounded w.fetches
  errands : ∀ errand ∈ w.errands, errand.IsFounded w.fetches

/-- How many blocks a watch waits for. -/
def awaited (w : Watch) : Nat :=
  (w.pollers.map Poller.awaits).sum + (w.errands.map Errand.awaits).sum

/-- How many rounds all pollers together brought to an end. -/
def roundsMade (w : Watch) : Nat := (w.pollers.map Poller.rounds).sum

/-- How many probes were made that were not answered and that nobody waits for. -/
def lostProbes (w : Watch) : Int :=
  w.records.tally.probes - w.records.tally.answered - w.awaited

/-- How many rounds were counted beyond those that pollers brought to an end. -/
def excessRounds (w : Watch) : Int := w.records.tally.pollRounds - w.roundsMade

/-- Incidents account for what one watch comes to be: it learned of editions only what they
show, and so many more blocks and temporary pollers are lost. -/
structure Accounts (heard : List Incident) (owed gone : Int) (w v : Watch) : Prop where
  founded : w.Founded → v.Founded
  fetches : w.fetches ⊆ v.fetches
  records : ∃ changes, v.records = w.records.run changes ∧
    ∀ change ∈ changes, change.IsShownBy heard
  alive : v.isAlive = true → w.isAlive = true
  rounds : v.excessRounds = w.excessRounds
  probes : v.lostProbes = w.lostProbes + owed
  missing : v.isAlive = true → v.records.missing = w.records.missing + gone

/-- One watch comes to be another without an incident. -/
abbrev Keeps : Watch → Watch → Prop := Accounts [] 0 0

/-- Incidents account for what one watch comes to be, and what was lost was lost in them. -/
abbrev Explains (ds : List Incident) : Watch → Watch → Prop :=
  Accounts ds (Incident.total Incident.blocksLost ds) (Incident.total Incident.departed ds)

namespace Accounts

/-- More incidents account for as much. -/
theorem mono (h : Accounts heard owed gone w v) (subset : heard ⊆ later) :
    Accounts later owed gone w v := by
  obtain ⟨changes, hrecords, hshown⟩ := h.records
  exact { h with
    records := ⟨changes, hrecords, fun change hm => (hshown change hm).mono subset⟩ }

/-- What is owed and what is gone after two steps adds up. -/
theorem trans (h : Accounts heard owed gone w v) (h' : Accounts heard more lost v u) :
    Accounts heard (owed + more) (gone + lost) w u := by
  obtain ⟨changes, hrecords, hshown⟩ := h.records
  obtain ⟨changes', hrecords', hshown'⟩ := h'.records
  refine ⟨fun hw => h'.founded (h.founded hw), fun _ hin => h'.fetches (h.fetches hin),
    ⟨changes ++ changes', ?_, fun change hm => ?_⟩, fun hu => h.alive (h'.alive hu), ?_, ?_,
    fun hu => ?_⟩
  · rw [hrecords', hrecords, Records.run_append]
  · exact (List.mem_append.mp hm).elim (hshown change) (hshown' change)
  · rw [h'.rounds, h.rounds]
  · rw [h'.probes, h.probes, Int.add_assoc]
  · rw [h'.missing hu, h.missing (h'.alive hu), Int.add_assoc]

/-- A step without an incident may come before. -/
theorem after (h : Keeps w v) (h' : Accounts heard owed gone v u) :
    Accounts heard owed gone w u := by
  have hboth := (h.mono (List.nil_subset heard)).trans h'
  rwa [Int.zero_add, Int.zero_add] at hboth

/-- A step without an incident may come after. -/
theorem before (h : Accounts heard owed gone w v) (h' : Keeps v u) :
    Accounts heard owed gone w u := by
  have hboth := h.trans (h'.mono (List.nil_subset heard))
  rwa [Int.add_zero, Int.add_zero] at hboth

/-- The incidents of one step after another account for both. -/
theorem append {ds ds' : List Incident} (h : Explains ds w v) (h' : Explains ds' v u) :
    Explains (ds ++ ds') w u := by
  have hboth := (h.mono (List.subset_append_left ds ds')).trans
    (h'.mono (List.subset_append_right ds ds'))
  rw [Explains, Incident.total_append, Incident.total_append, Int.natCast_add, Int.natCast_add]
  exact hboth

end Accounts

/-- Whether anyone holds a watch depends on its owner and its errands. -/
theorem isAlive_congr (held : v.held = w.held) (errands : v.errands = w.errands) :
    v.isAlive = w.isAlive := by rw [isAlive, isAlive, held, errands]

namespace Keeps

/-- Nothing changed that is looked at. -/
theorem same (records : v.records = w.records) (pollers : v.pollers = w.pollers)
    (errands : v.errands = w.errands) (held : v.held = w.held) (fetches : v.fetches = w.fetches) :
    Keeps w v where
  founded hw := by
    constructor
    · rw [pollers, fetches]
      exact hw.pollers
    · rw [errands, fetches]
      exact hw.errands
  fetches := by rw [fetches]; exact List.Subset.refl _
  records := ⟨[], records, fun _ hm => absurd hm List.not_mem_nil⟩
  alive h := by rwa [isAlive_congr held errands] at h
  rounds := by rw [excessRounds, excessRounds, roundsMade, roundsMade, records, pollers]
  probes := by
    rw [lostProbes, lostProbes, awaited, awaited, records, pollers, errands, Int.add_zero]
  missing _ := by rw [records, Int.add_zero]

theorem refl (w : Watch) : Keeps w w := same rfl rfl rfl rfl rfl

end Keeps

/-- The records change, and nothing else. -/
theorem accounts_record (w : Watch) (change : Records.Change)
    (shown : change.IsShownBy heard)
    (rounds : (w.records.apply change).tally.pollRounds = w.records.tally.pollRounds)
    (probes : ((w.records.apply change).tally.probes : Int) -
      (w.records.apply change).tally.answered =
        w.records.tally.probes - w.records.tally.answered + owed)
    (missing : (w.records.apply change).missing = w.records.missing + gone) :
    Accounts heard owed gone w { w with records := w.records.apply change } where
  founded hw := ⟨hw.pollers, hw.errands⟩
  fetches := List.Subset.refl _
  records := ⟨[change], rfl, fun _ hm => List.mem_singleton.mp hm ▸ shown⟩
  alive h := h
  rounds := by
    have hmade : roundsMade { w with records := w.records.apply change } = w.roundsMade := rfl
    rw [excessRounds, excessRounds, rounds, hmade]
  probes := by
    have hsame : awaited { w with records := w.records.apply change } = w.awaited := rfl
    rw [lostProbes, lostProbes, probes, hsame]
    omega
  missing _ := missing

/-- A change that is entered in no book makes no difference to any. -/
theorem accounts_calm (w : Watch) (change : Records.Change) (calm : change.isCalm = true)
    (shown : change.IsShownBy heard) :
    Accounts heard 0 0 w { w with records := w.records.apply change } := by
  have hkeeps := Records.keepsBooks_apply w.records change calm
  refine accounts_record w change shown hkeeps.rounds ?_ ?_
  · rw [hkeeps.probes, hkeeps.answered, Int.add_zero]
  · rw [hkeeps.missing_eq, Int.add_zero]

namespace Keeps

/-- A calm change that shows nothing needs no incident. -/
theorem record (w : Watch) (change : Records.Change) (calm : change.isCalm = true)
    (shown : change.IsShownBy []) :
    Keeps w { w with records := w.records.apply change } := accounts_calm w change calm shown

/-- Something is seen. -/
theorem log (w : Watch) (event : Event) : Keeps w (w.log event) where
  founded hw := by
    have hsub : w.fetches ⊆ (w.log event).fetches := by
      rw [fetches_log]
      exact List.subset_append_left _ _
    exact ⟨fun p hp => (hw.pollers p hp).mono hsub, fun e he => (hw.errands e he).mono hsub⟩
  fetches := by
    rw [fetches_log]
    exact List.subset_append_left _ _
  records := ⟨[], rfl, fun _ hm => absurd hm List.not_mem_nil⟩
  alive h := h
  rounds := rfl
  probes := (Int.add_zero _).symm
  missing _ := (Int.add_zero _).symm

end Keeps

/-- If one poller changes, it is enough that what it waits for was issued. -/
theorem Founded.modifyPoller (hw : w.Founded) {id : PollerId} {p : Poller}
    (found : w.pollers[id]? = some p) {change : Poller → Poller}
    (founded : (change p).IsFounded w.fetches) : (w.modifyPoller id change).Founded := by
  refine ⟨fun q hq => ?_, hw.errands⟩
  obtain ⟨other, hother⟩ := List.mem_iff_getElem?.mp hq
  have hmodified : (w.pollers.modify id change)[other]? = some q := hother
  rw [List.getElem?_modify] at hmodified
  obtain ⟨old, hold, rfl⟩ := Option.map_eq_some_iff.mp hmodified
  split
  case isTrue hid =>
    rw [← hid, found, Option.some.injEq] at hold
    exact hold ▸ founded
  case isFalse => exact hw.pollers old (List.mem_iff_getElem?.mpr ⟨other, hold⟩)

/-- One poller is changed, but for its rounds. -/
theorem accounts_modify {id : PollerId} {p : Poller} (found : w.pollers[id]? = some p)
    {change : Poller → Poller} (rounds : (change p).rounds = p.rounds)
    (founded : w.Founded → (change p).IsFounded w.fetches) :
    Accounts heard (p.awaits - (change p).awaits) 0 w (w.modifyPoller id change) where
  founded hw := hw.modifyPoller found (founded hw)
  fetches := List.Subset.refl _
  records := ⟨[], rfl, fun _ hm => absurd hm List.not_mem_nil⟩
  alive h := h
  rounds := by
    have hsum := sum_modify found change Poller.rounds
    have hrounds : (w.modifyPoller id change).roundsMade = w.roundsMade := by
      rw [rounds] at hsum
      exact Nat.add_right_cancel hsum
    rw [excessRounds, excessRounds, hrounds]
    rfl
  probes := by
    have hsum := sum_modify found change Poller.awaits
    simp only [lostProbes, awaited, modifyPoller]
    omega
  missing _ := (Int.add_zero _).symm

/-- Errands come and go. -/
theorem accounts_errands (w : Watch) {errands : List Errand}
    (founded : w.Founded → ∀ errand ∈ errands, errand.IsFounded w.fetches)
    (holds : (errands.any fun errand => errand.purpose.holds) = true → w.isAlive = true)
    (awaits : ((errands.map Errand.awaits).sum : Int) + owed =
      ((w.errands.map Errand.awaits).sum : Int)) :
    Accounts heard owed 0 w { w with errands := errands } where
  founded hw := ⟨hw.pollers, founded hw⟩
  fetches := List.Subset.refl _
  records := ⟨[], rfl, fun _ hm => absurd hm List.not_mem_nil⟩
  alive h := by
    rw [isAlive, Bool.or_eq_true] at h
    rcases h with hheld | hholds
    · exact Bool.or_eq_true_iff.mpr (.inl hheld)
    · exact holds hholds
  rounds := rfl
  probes := by
    simp only [lostProbes, awaited]
    omega
  missing _ := (Int.add_zero _).symm

/-- As long as an errand that holds the watch is left, someone holds it. -/
theorem any_holds_filter {w : Watch} {keep : Errand → Bool}
    (h : ((w.errands.filter keep).any fun errand => errand.purpose.holds) = true) :
    w.isAlive = true := by
  obtain ⟨errand, hm, hholds⟩ := List.any_eq_true.mp h
  rw [isAlive, Bool.or_eq_true, List.any_eq_true]
  exact .inr ⟨errand, (List.mem_filter.mp hm).1, hholds⟩

/-- Errands are given up, and what they wait for is lost. -/
theorem accounts_giveUp (w : Watch) (keep : Errand → Bool) {blocks : Nat}
    (loses : ((w.errands.filter fun errand => !keep errand).map Errand.awaits).sum = blocks) :
    Accounts heard blocks 0 w { w with errands := w.errands.filter keep } := by
  refine accounts_errands w (fun hw errand hm => hw.errands errand (List.mem_filter.mp hm).1)
    any_holds_filter ?_
  have hsum := sum_filter w.errands keep Errand.awaits
  omega

namespace Keeps

/-- A poller is changed, but it stands where it stood. -/
theorem touch (w : Watch) (id : PollerId) {change : Poller → Poller}
    (stage : ∀ p, (change p).stage = p.stage) (key : ∀ p, (change p).key = p.key)
    (rounds : ∀ p, (change p).rounds = p.rounds) : Keeps w (w.modifyPoller id change) := by
  cases hfound : w.pollers[id]? with
  | none =>
    have hsame : w.modifyPoller id change = w := by
      rw [modifyPoller, List.modify_eq_self (List.getElem?_eq_none_iff.mp hfound)]
    rw [hsame]
    exact refl w
  | some p =>
    have hfounded (hw : w.Founded) : (change p).IsFounded w.fetches := by
      intro round flight hstage
      rw [stage] at hstage
      rw [key]
      exact hw.pollers p (List.mem_iff_getElem?.mpr ⟨id, hfound⟩) round flight hstage
    have hmodified : Accounts [] (p.awaits - (change p).awaits) 0 w (w.modifyPoller id change) :=
      accounts_modify hfound (rounds p) hfounded
    rwa [Poller.awaits_of_stage (stage p), Int.sub_self] at hmodified

/-- A poller is made that does not wait for anything. -/
theorem add (w : Watch) {p : Poller} (rounds : p.rounds = 0) (idle : p.flight? = none) :
    Keeps w { w with pollers := w.pollers ++ [p] } where
  founded hw := by
    refine ⟨fun q hq => ?_, hw.errands⟩
    rcases List.mem_append.mp hq with hold | hnew
    · exact hw.pollers q hold
    · rw [List.mem_singleton.mp hnew]
      intro round flight hstage
      rw [Poller.flight?, hstage] at idle
      cases idle
  fetches := List.Subset.refl _
  records := ⟨[], rfl, fun _ hm => absurd hm List.not_mem_nil⟩
  alive h := h
  rounds := by
    simp [excessRounds, roundsMade, rounds]
  probes := by
    simp [lostProbes, awaited, Poller.awaits, idle, Flight.blocks]
  missing _ := (Int.add_zero _).symm

/-! ## Calls -/

/-- To submit the delivery job brings no incident with it. -/
theorem flush (w : Watch) : Keeps w w.flush := by
  unfold Watch.flush
  split
  case isTrue =>
    have hclaim : Keeps w w.claimJob := record w .claimQueue rfl trivial
    refine hclaim.after ?_
    unfold submitJob
    split
    · exact same rfl rfl rfl rfl rfl
    · exact refl _
  case isFalse => exact refl w

/-- To cancel pollers is no incident: none of them ends before its next turn. -/
theorem cancelPollers (w : Watch) (ids : List PollerId) : Keeps w (w.cancelPollers ids) := by
  induction ids generalizing w with
  | nil => exact refl w
  | cons id rest ih =>
    have hfirst : Keeps w (w.cancelPoller id) :=
      touch w id (fun _ => rfl) (fun _ => rfl) fun _ => rfl
    exact hfirst.after (ih _)

/-- A poller that has made no round may be submitted without an incident. -/
theorem submitPoller (w : Watch) {poller : Poller} (rounds : poller.rounds = 0)
    (evicted : List PollerId) : Keeps w (w.submitPoller poller evicted) := by
  let logged := w.log (.pollerSubmitted w.pollers.length poller.key)
  have hlogged : Keeps w logged := log w _
  unfold Watch.submitPoller
  dsimp only
  split
  · have hmade : Keeps logged
        { logged with
          pollers := logged.pollers ++ [{ poller with stage := .submitted evicted }] } :=
      add logged rounds rfl
    exact (hlogged.after hmade).after (same rfl rfl rfl rfl rfl)
  · exact hlogged.after (add logged rounds rfl)

/-- A callback that is removed brings no incident with it. -/
theorem unsubscribe (w : Watch) (s : Subscription) : Keeps w (w.unsubscribe s) :=
  (record w (.unsubscribe s.key s.callback) rfl trivial).after (cancelPollers _ _)

theorem cancelFeed (w : Watch) (id : FeedId) : Keeps w (w.cancelFeed id) :=
  same rfl rfl rfl rfl rfl

theorem unsubscribeContent (w : Watch) (s : ContentSubscription) :
    Keeps w (w.unsubscribeContent s) := (unsubscribe w s.inner).after (cancelFeed _ _)

/-- A lookup brings no incident with it: whom it pushes out is counted. -/
theorem resolve (w : Watch) (uri : EditionUri) (prefetch : Bool) :
    Keeps w (w.resolve uri prefetch).watch := by
  let change : Records.Change := .resolve w.now uri.key prefetch
  have htally : (w.records.apply change).tally.pollRounds = w.records.tally.pollRounds ∧
      (w.records.apply change).tally.probes = w.records.tally.probes ∧
      (w.records.apply change).tally.answered = w.records.tally.answered := by
    simp only [change, Records.apply, Records.resolve]
    cases w.records.pool.poller? uri.key <;> cases w.records.cache.poller? uri.key <;>
      cases prefetch <;> exact ⟨rfl, rfl, rfl⟩
  have hlooked : Keeps w { w with records := w.records.apply change } := by
    refine accounts_record w change trivial htally.1 ?_ ?_
    · rw [htally.2.1, htally.2.2, Int.add_zero]
    · exact (Records.missing_resolve w.records w.now uri.key prefetch).trans (Int.add_zero _).symm
  unfold Watch.resolve
  dsimp only
  split
  · exact hlooked.after (touch _ _ (fun _ => rfl) (fun _ => rfl) fun _ => rfl)
  · exact hlooked.after (submitPoller _ rfl _)

/-- An errand is sent; if it holds the watch, someone held it before. -/
theorem submitErrand (w : Watch) (kind : JobKind) {purpose : Purpose} (uri : EditionUri)
    (holds : purpose.holds = true → w.isAlive = true) :
    Keeps w (w.submitErrand kind purpose uri) := by
  have hadd : Keeps w
      { w with errands := w.errands ++ [⟨w.errandsSent, purpose, uri, none⟩] } := by
    refine accounts_errands w (fun hw errand hm => ?_) (fun h => ?_) ?_
    · rcases List.mem_append.mp hm with hold | hnew
      · exact hw.errands errand hold
      · rw [List.mem_singleton.mp hnew]
        exact fun _ hflight => by cases hflight
    · rw [List.any_append, Bool.or_eq_true, List.any_cons, List.any_nil, Bool.or_false] at h
      exact h.elim (fun hold => Bool.or_eq_true_iff.mpr (.inr hold)) holds
    · simp [Errand.awaits, Flight.blocks]
  rcases submitErrand_cases w kind purpose uri with hs | hs
  · rw [hs]
    exact hadd.after (same rfl rfl rfl rfl rfl)
  · rw [hs]
    exact refl w

/-- A hint brings no incident with it before its errand hears a reply. -/
theorem hint (w : Watch) (uri : EditionUri) (alive : w.isAlive = true) :
    Keeps w (w.hint uri) := by
  unfold Watch.hint
  split
  · split
    · exact refl w
    · exact submitErrand w _ uri fun _ => alive
  · exact submitErrand w _ uri fun _ => alive

/-- When nobody holds a watch any more, nothing about its pollers needs to be accounted for. -/
theorem reap (w : Watch) : Keeps w w.reap := by
  unfold Watch.reap
  split
  case isTrue => exact refl w
  case isFalse hgone =>
    have hdead : Watch.isAlive { w with stopped := true, records := w.records.forgetPollers } ≠
        true := hgone
    exact
      { founded := fun hw => ⟨hw.pollers, hw.errands⟩
        fetches := List.Subset.refl _
        records := ⟨[.forgetPollers], rfl, fun _ hm => List.mem_singleton.mp hm ▸ trivial⟩
        alive := fun h => absurd h hdead
        rounds := rfl
        probes := (Int.add_zero _).symm
        missing := fun h => absurd h hdead }

/-- To give up the watch brings no incident with it. -/
theorem release (w : Watch) : Keeps w w.release := by
  have hreleased : Keeps w { w with held := false } :=
    { founded := fun hw => ⟨hw.pollers, hw.errands⟩
      fetches := List.Subset.refl _
      records := ⟨[], rfl, fun _ hm => absurd hm List.not_mem_nil⟩
      alive := fun h => Bool.or_eq_true_iff.mpr (.inr h)
      rounds := rfl
      probes := (Int.add_zero _).symm
      missing := fun _ => (Int.add_zero _).symm }
  exact hreleased.after (reap _)

end Keeps

/-- A slot may be noted if an incident shows it. -/
theorem accounts_noteSlot (w : Watch) (uri : EditionUri)
    (shown : ∃ d ∈ heard, d.ShowsSlot uri) : Accounts heard 0 0 w (w.noteSlot uri) := by
  have hnoted : Accounts heard 0 0 w { w with records := w.records.noteSlot w.now uri } :=
    accounts_calm w (.noteSlot w.now uri) rfl shown
  exact hnoted.before (Keeps.flush _)

theorem accounts_noteGood (w : Watch) (uri : EditionUri)
    (shown : ∃ d ∈ heard, d.ShowsGood uri) : Accounts heard 0 0 w (w.noteGood uri) := by
  have hnoted : Accounts heard 0 0 w { w with records := w.records.noteGood w.now uri } :=
    accounts_calm w (.noteGood w.now uri) rfl shown
  exact hnoted.before (Keeps.flush _)

/-- An edition that was fetched elsewhere is known by word. -/
theorem accounts_noteFetched (w : Watch) (uri : EditionUri) (metadata : Bool) :
    Accounts [.word uri !metadata] 0 0 w (w.noteFetched uri metadata) := by
  cases metadata with
  | true => exact accounts_noteSlot w uri ⟨_, List.mem_singleton.mpr rfl, rfl⟩
  | false => exact accounts_noteGood w uri ⟨_, List.mem_singleton.mpr rfl, rfl, rfl⟩

/-- A shutdown accounts for all temporary pollers with one incident. -/
theorem explains_shutdown (w : Watch) :
    Explains [.clearance w.records.cache.pollers] w w.shutdown := by
  have hcleared : Incident.total Incident.departed [.clearance w.records.cache.pollers] =
      w.records.cache.pollers.length := by
    rw [Incident.total_cons, Incident.total_nil]
    simp [Incident.departed, Incident.promoted, Incident.cleared, Incident.exited]
  rw [Explains, hcleared]
  let stopped : Watch := { w with stopped := true }
  have hstopped : Keeps w stopped := Keeps.same rfl rfl rfl rfl rfl
  have hremoved : Accounts [] 0 w.records.cache.pollers.length stopped
      { stopped with records := stopped.records.apply .removePollers } :=
    accounts_record stopped .removePollers trivial rfl (Int.add_zero _).symm
      (Records.missing_removePollers w.records)
  exact ((hstopped.after hremoved).before (Keeps.cancelPollers _ _)).mono (List.nil_subset _)

/-! ## Subscriptions -/

/-- One temporary poller is promoted if the document has no other poller, and none otherwise. -/
theorem total_promotions (w : Watch) (key : DocumentKey) :
    Incident.total Incident.departed (w.promotions key true) =
      if w.records.pool.poller? key = none ∧ w.records.cache.poller? key ≠ none then 1 else 0 := by
  unfold promotions Records.coverage
  cases w.records.pool.poller? key with
  | some _ => simp
  | none => cases w.records.cache.poller? key <;> simp [Incident.departed, Incident.promoted,
      Incident.cleared, Incident.exited]

/-- No block is lost by a subscription. -/
theorem blocksLost_promotions (w : Watch) (key : DocumentKey) (options : SubscribeOptions) :
    Incident.total Incident.blocksLost
      (if options.persistent then [] else w.promotions key options.polls) = 0 := by
  unfold promotions
  split
  · rfl
  · split
    · split <;> rfl
    · rfl

/-- A document that comes to be polled gives up its temporary poller at most. -/
theorem accounts_attach (w : Watch) (key : DocumentKey) (callback : CallbackId)
    (options : SubscribeOptions) :
    Accounts [] 0 (Incident.total Incident.departed (w.promotions key options.polls)) w
      (w.attach key callback options) := by
  unfold attach
  cases options.polls with
  | false =>
    have hregistered : Keeps w
        { w with records := w.records.register key callback options.requested } :=
      Keeps.record w (.subscribe key callback options.requested false) rfl trivial
    exact hregistered.before (Keeps.flush _)
  | true =>
    let change : Records.Change := .subscribe key callback options.requested true
    have hregister := Records.keepsBooks_register w.records key callback options.requested
    have htally : (w.records.apply change).tally.pollRounds = w.records.tally.pollRounds ∧
        (w.records.apply change).tally.probes = w.records.tally.probes ∧
        (w.records.apply change).tally.answered = w.records.tally.answered := by
      rw [← hregister.rounds, ← hregister.probes, ← hregister.answered]
      simp only [change, Records.apply, if_true, Records.cover]
      cases (w.records.register key callback options.requested).coverage key <;>
        exact ⟨rfl, rfl, rfl⟩
    have hmissing : (w.records.apply change).missing =
        w.records.missing +
          (Incident.total Incident.departed (w.promotions key true) : Nat) := by
      have hpollers := Records.keepsPollers_register w.records key callback options.requested
      have hcover := Records.missing_cover
        (w.records.register key callback options.requested) key callback
      rw [hregister.missing_eq, hpollers.pool, hpollers.cache] at hcover
      rw [total_promotions]
      refine hcover.trans ?_
      split <;> rfl
    have hcovered : Accounts []
        0 (Incident.total Incident.departed (w.promotions key true) : Nat) w
        { w with records := w.records.apply change } :=
      accounts_record w change trivial htally.1
        (by rw [htally.2.1, htally.2.2, Int.add_zero]) hmissing
    simp only [if_true]
    unfold cover
    dsimp only
    split
    · exact hcovered.before (Keeps.flush _)
    · refine (hcovered.before ?_).before (Keeps.flush _)
      exact Keeps.touch _ _ (fun _ => rfl) (fun _ => rfl) fun _ => rfl
    · exact (hcovered.before (Keeps.flush _)).before (Keeps.submitPoller _ rfl _)

/-- A subscription of a target gives up the temporary poller of the document at most. -/
theorem accounts_subscribeTarget (w : Watch) (key : DocumentKey) (target : Target)
    (options : SubscribeOptions) :
    Accounts [] 0 (Incident.total Incident.departed (w.promotions key options.polls)) w
      (w.subscribeTarget key target options).watch := by
  obtain ⟨hrecords, hchoice⟩ :
      (w.callbackFor target options.sparse).watch.records = w.records ∧
        Keeps w (w.callbackFor target options.sparse).watch := by
    unfold callbackFor
    split
    · exact ⟨rfl, Keeps.same rfl rfl rfl rfl rfl⟩
    · split
      · exact ⟨rfl, Keeps.refl w⟩
      · exact ⟨rfl, Keeps.same rfl rfl rfl rfl rfl⟩
  have hpromotions : (w.callbackFor target options.sparse).watch.promotions key options.polls =
      w.promotions key options.polls := by rw [promotions, promotions, hrecords]
  have hattach := accounts_attach (w.callbackFor target options.sparse).watch key
    (w.callbackFor target options.sparse).callback options
  rw [hpromotions] at hattach
  exact hchoice.after hattach

/-- A subscription is accounted for by the promotion that comes with it. -/
theorem accounts_subscribe (w : Watch) (key : DocumentKey) (name : String)
    (options : SubscribeOptions) :
    Accounts [] 0
      (Incident.total Incident.departed (w.incidentsIn (.subscribe key name options))) w
      (w.perform (.subscribe key name options)) := by
  obtain ⟨hrecords, hlistener⟩ :
      (w.addListener name).records = w.records ∧ Keeps w (w.addListener name) := by
    unfold addListener
    split
    · exact ⟨rfl, Keeps.refl w⟩
    · exact ⟨rfl, Keeps.same rfl rfl rfl rfl rfl⟩
  have hpromotions : (w.addListener name).promotions key options.polls =
      w.promotions key options.polls := by rw [promotions, promotions, hrecords]
  simp only [perform, Watch.subscribe, incidentsIn]
  cases options.persistent with
  | true => exact Keeps.refl w
  | false =>
    have htarget := accounts_subscribeTarget (w.addListener name) key (.listener name) options
    rw [hpromotions] at htarget
    exact (hlistener.after htarget).before (Keeps.same rfl rfl rfl rfl rfl)

theorem accounts_subscribeContent (w : Watch) (key : DocumentKey) (name : String) (quiet : Bool)
    (options : SubscribeOptions) :
    Accounts [] 0
      (Incident.total Incident.departed
        (w.incidentsIn (.subscribeContent key name quiet options))) w
      (w.perform (.subscribeContent key name quiet options)) := by
  let opened : Watch := { w with feeds := w.feeds ++ [ContentFeed.fresh name quiet] }
  have hopened : Keeps w opened := Keeps.same rfl rfl rfl rfl rfl
  let sparse : SubscribeOptions := { options with sparse := options.sparse || options.background }
  have hpolls : sparse.polls = options.polls := by
    change (options.background || (options.sparse || options.background)) =
      (options.background || options.sparse)
    cases options.background <;> cases options.sparse <;> rfl
  have htarget := accounts_subscribeTarget opened key (.feed w.feeds.length) sparse
  rw [hpolls] at htarget
  simp only [perform, Watch.subscribeContent, incidentsIn]
  cases options.persistent with
  | true => exact Keeps.refl w
  | false => exact hopened.after htarget

/-! ## Telling targets -/

/-- What a listener does in reply is accounted for by what it says, or by a clearance. -/
theorem explains_callListener (w : Watch) (name : String) (signal : Signal) :
    Explains (w.saying name signal) w (w.callListener name signal).watch := by
  cases signal with
  | round key => exact Keeps.log w _
  | found found =>
    have hlog : Keeps w (w.log (.found name found)) := Keeps.log w _
    have hlistener : (w.log (.found name found)).listener? name = w.listener? name := rfl
    have halive : (w.log (.found name found)).isAlive = w.isAlive := rfl
    unfold callListener saying
    dsimp only
    rw [hlistener]
    cases w.listener? name with
    | none => exact hlog
    | some l =>
      dsimp only
      cases l.failsAt.contains found.edition with
      | true => exact hlog
      | false =>
        simp only [Bool.false_eq_true, if_false, Bool.false_or, react, halive]
        cases hwatch : w.isAlive with
        | false => exact hlog
        | true =>
          simp only [if_true, Bool.not_true, Bool.false_eq_true, if_false]
          cases l.reaction with
          | none => exact hlog
          | some reaction =>
            cases reaction with
            | vouch =>
              exact hlog.after
                (accounts_noteGood _ _ ⟨_, List.mem_singleton.mpr rfl, rfl, rfl⟩)
            | announceNext limit =>
              dsimp only
              split
              · exact hlog.after (accounts_noteSlot _ _ ⟨_, List.mem_singleton.mpr rfl, rfl⟩)
              · exact hlog
            | leave =>
              dsimp only
              split
              · exact hlog
              · exact hlog.after (Keeps.unsubscribe _ _)
            | hint uri => exact hlog.after (Keeps.hint _ uri hwatch)
            | stop => exact hlog.after (explains_shutdown (w.log (.found name found)))

/-- A feed that goes for content brings no incident with it. -/
theorem keeps_callFeed (w : Watch) (id : FeedId) (signal : Signal) :
    Keeps w (w.callFeed id signal) := by
  cases signal with
  | round key => exact Keeps.refl w
  | found found =>
    simp only [callFeed]
    split
    · exact Keeps.refl w
    · split
      · let wants : Watch := { w with feeds := w.feeds.modify id (·.pursue found.edition) }
        have hwants : Keeps w wants := Keeps.same rfl rfl rfl rfl rfl
        exact hwants.after (Keeps.submitErrand wants _ _ fun h => by cases h)
      · exact Keeps.refl w

/-- What follows from telling a target one thing is accounted for. -/
theorem explains_callTarget (w : Watch) (target : Target) (signal : Signal) :
    Explains (match target with
      | .listener name => w.saying name signal
      | .feed _ => []) w (w.callTarget target signal).watch := by
  cases target with
  | listener name => exact explains_callListener w name signal
  | feed id => exact keeps_callFeed w id signal

/-- What follows from telling a target one thing after the other is accounted for. -/
theorem explains_callAll (w : Watch) (target : Target) (signals : List Signal) :
    Explains (w.sayings target signals) w (w.callAll target signals).watch := by
  induction signals generalizing w with
  | nil => exact Keeps.refl w
  | cons signal rest ih =>
    have hfirst := explains_callTarget w target signal
    unfold callAll sayings
    dsimp only
    by_cases hreturned : (w.callTarget target signal).returned = true
    · rw [if_pos hreturned, if_pos hreturned]
      exact hfirst.append (ih _)
    · rw [if_neg hreturned, if_neg hreturned]
      exact hfirst.append (Keeps.refl _)

/-- What follows from a delivery is accounted for. -/
theorem explains_deliver (w : Watch) (d : Delivery) :
    Explains (w.sayingsOf d) w (w.deliver d).watch := by
  rw [deliver_eq, sayingsOf]
  cases w.callbacks[d.callback]? with
  | none => exact Keeps.refl w
  | some callback =>
    have htold : Keeps w (w.tell d) := Keeps.same rfl rfl rfl rfl rfl
    exact htold.after (explains_callAll (w.tell d) callback.target _)

/-- What follows when the next delivery is handed out is accounted for. -/
theorem explains_deliverNext (w : Watch) :
    Explains w.sayingsOfNext w w.deliverNext.watch := by
  unfold deliverNext sayingsOfNext
  cases htaken : w.takeDelivery? with
  | none =>
    have hreleased : Keeps w { w with records := w.records.releaseQueue } :=
      Keeps.record w .releaseQueue rfl trivial
    exact hreleased.after (Keeps.same rfl rfl rfl rfl rfl)
  | some taken =>
    obtain ⟨d, v⟩ := taken
    obtain ⟨rfl, -⟩ := takeDelivery?_cases htaken
    have htake : Keeps w w.take := Keeps.record w .takeDelivery rfl trivial
    have hsettle (call : Call) : Keeps call.watch (settleCall call) := by
      unfold settleCall
      split
      · exact Keeps.record _ .countDelivered rfl trivial
      · exact Keeps.log _ _
    exact (htake.after (explains_deliver w.take d)).before (hsettle _)

end Watch

end EditionWatch
