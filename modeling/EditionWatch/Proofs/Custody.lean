import EditionWatch.Proofs.Moves
import Mathlib.Logic.ExistsUnique

/-!
# No poller is lost

In a run without mishaps, a poller that is not cancelled is always in someone's custody: it is
stored for its document and not over, or it was pushed out of the cache and is listed with the
poller that took its place, which is going to cancel it when it begins. The duty to cancel
never passes to anyone else: it is done when that poller begins, or everything is stopped.
-/

namespace EditionWatch

namespace Roster

/-- A poller is listed for cancellation. -/
def Listed (s : Roster) (id : PollerId) : Prop :=
  ∃ (j : PollerId) (q : Poller), s.pollers[j]? = some q ∧ id ∈ q.evicted

/-- Each poller that is not cancelled is in custody, and those that are stored are not over. -/
structure Kept (s : Roster) : Prop where
  /-- A poller that is not cancelled is stored or listed. -/
  held : s.stopped = false → ∀ (id : PollerId) (p : Poller), s.pollers[id]? = some p →
    p.cancelled = false → (∃ key, s.Stores key id) ∨ s.Listed id
  /-- A stored poller is not over. -/
  busy : ∀ (key : DocumentKey) (id : PollerId) (p : Poller), s.Stores key id →
    s.pollers[id]? = some p → p.isOver = false

namespace Kept

variable {s t : Roster}

/-- Custody goes on if nobody loses it who is not cancelled. -/
theorem of_passing (h : Kept s) (stopped : t.stopped = s.stopped)
    (before : ∀ (id : PollerId) (q : Poller), t.pollers[id]? = some q → q.cancelled = false →
      ∃ p, s.pollers[id]? = some p ∧ p.cancelled = false)
    (stored : ∀ (key : DocumentKey) (id : PollerId) (q : Poller), s.Stores key id →
      t.pollers[id]? = some q → q.cancelled = false → t.Stores key id)
    (listed : ∀ (id j : PollerId) (p q : Poller), s.pollers[j]? = some p → id ∈ p.evicted →
      t.pollers[id]? = some q → q.cancelled = false →
        ∃ p', t.pollers[j]? = some p' ∧ id ∈ p'.evicted)
    (busy : ∀ (key : DocumentKey) (id : PollerId) (q : Poller), t.Stores key id →
      t.pollers[id]? = some q → q.isOver = false) : Kept t where
  held hrun id q hq hc := by
    obtain ⟨p, hp, hpc⟩ := before id q hq hc
    rcases h.held (stopped ▸ hrun) id p hp hpc with ⟨key, hst⟩ | ⟨j, r, hr, he⟩
    · exact .inl ⟨key, stored key id q hst hq hc⟩
    · obtain ⟨r', hr', he'⟩ := listed id j r q hr he hq hc
      exact .inr ⟨j, r', hr', he'⟩
  busy := busy

/-- Once everything is stopped and nothing is stored, nothing has to be kept. -/
theorem of_stopped (stopped : t.stopped = true) (stores : ∀ key id, ¬t.Stores key id) :
    Kept t where
  held hrun := by
    rw [stopped] at hrun
    cases hrun
  busy key id _ hst := absurd hst (stores key id)

/-- Steps that leave all pollers as they are, and where they are. -/
theorem of_stores (h : Kept s) (stopped : t.stopped = s.stopped) (hp : t.pollers = s.pollers)
    (hst : ∀ key id, t.Stores key id ↔ s.Stores key id) : Kept t := by
  refine h.of_passing stopped (fun id q hq hc => ?_)
    (fun key id q hs _ _ => (hst key id).mpr hs) (fun id j p q hj he _ _ => ?_)
    fun key id q hs hq => ?_
  · exact ⟨q, hp ▸ hq, hc⟩
  · exact ⟨p, hp ▸ hj, he⟩
  · exact h.busy key id q ((hst key id).mp hs) (hp ▸ hq)

/-- Steps that overwrite one poller that has begun. -/
theorem of_overwrite (h : Kept s) {id : PollerId} {p next : Poller}
    (found : s.pollers[id]? = some p) (underway : p.isUnderway = true)
    (stopped : t.stopped = s.stopped) (hp : t.pollers = s.pollers.set id next)
    (cancelled : next.cancelled = false → p.cancelled = false)
    (stored : ∀ key i, s.Stores key i → (i = id → next.cancelled = false) → t.Stores key i)
    (back : ∀ key i, t.Stores key i → s.Stores key i)
    (active : ∀ key, t.Stores key id → next.isOver = false) : Kept t := by
  have hnone : p.evicted = [] := Poller.evicted_of_isUnderway underway
  refine h.of_passing stopped (fun i q hq hc => ?_) (fun key i q hst hq hc => ?_)
    (fun i j r q hj he hq hc => ?_) fun key i q hst hq => ?_
  · rw [hp] at hq
    rcases getElem?_set_cases hq with ⟨rfl, rfl⟩ | ⟨-, hq⟩
    · exact ⟨p, found, cancelled hc⟩
    · exact ⟨q, hq, hc⟩
  · refine stored key i hst fun hi => ?_
    subst hi
    rw [hp] at hq
    rcases getElem?_set_cases hq with ⟨-, rfl⟩ | ⟨hne, -⟩
    · exact hc
    · exact absurd rfl hne
  · have hne : id ≠ j := fun hj' => by
      subst hj'
      rw [found, Option.some.injEq] at hj
      rw [← hj, hnone] at he
      cases he
    exact ⟨r, by rw [hp, List.getElem?_set_ne hne, hj], he⟩
  · rw [hp] at hq
    rcases getElem?_set_cases hq with ⟨rfl, rfl⟩ | ⟨-, hq⟩
    · exact active key hst
    · exact h.busy key i q (back key i hst) hq

/-- A command that is sent to a poller puts none out of custody. -/
theorem send (h : Kept s) (id : PollerId) (command : Poller.Command) :
    Kept { s with pollers := s.pollers.modify id (·.send command) } := by
  have hback {i : PollerId} {q : Poller}
      (hq : (s.pollers.modify id (·.send command))[i]? = some q) :
      ∃ p, s.pollers[i]? = some p ∧ q.cancelled = p.cancelled ∧ q.isOver = p.isOver := by
    rw [List.getElem?_modify] at hq
    obtain ⟨p, hp, rfl⟩ := Option.map_eq_some_iff.mp hq
    refine ⟨p, hp, ?_⟩
    split <;> exact ⟨rfl, rfl⟩
  refine h.of_passing rfl (fun i q hq hc => ?_) (fun _ _ _ hst _ _ => hst)
    (fun i j p q hj he _ _ => ?_) fun key i q hst hq => ?_
  · obtain ⟨p, hp, hpc, -⟩ := hback hq
    exact ⟨p, hp, hpc ▸ hc⟩
  · refine ⟨if id = j then p.send command else p, ?_, ?_⟩
    · change (s.pollers.modify id (·.send command))[j]? = _
      rw [List.getElem?_modify, hj]
      rfl
    · split <;> exact he
  · obtain ⟨p, hp, -, ho⟩ := hback hq
    rw [ho]
    exact h.busy key i p hst hp

/-- A poller that begins does its duty: those that were listed with it are cancelled. -/
theorem begins (h : Kept s) {id : PollerId} {p : Poller} {evicted : List PollerId}
    (found : s.pollers[id]? = some p) (stage : p.stage = .submitted evicted) :
    Kept ((s.overwrite id { p with stage := .resting none }).cancel evicted) := by
  have hlisted : p.evicted = evicted := by rw [Poller.evicted, stage]
  have hback {i : PollerId} {q : Poller}
      (hq : (cancelAll evicted (s.pollers.set id { p with stage := .resting none }))[i]? =
        some q) :
      ∃ r, s.pollers[i]? = some r ∧ (q.cancelled = false → r.cancelled = false ∧ i ∉ evicted) ∧
        (r.isOver = false → q.isOver = false) := by
    rw [getElem?_cancelAll] at hq
    obtain ⟨r, hr, rfl⟩ := Option.map_eq_some_iff.mp hq
    have hne : (if i ∈ evicted then r.cancel else r).cancelled = false →
        r.cancelled = false ∧ i ∉ evicted := by
      split
      case isTrue => exact fun hc => Bool.noConfusion hc
      case isFalse hi => exact fun hc => ⟨hc, hi⟩
    have hover : (if i ∈ evicted then r.cancel else r).isOver = r.isOver := by
      split <;> rfl
    rcases getElem?_set_cases hr with ⟨rfl, rfl⟩ | ⟨-, hr⟩
    · exact ⟨p, found, hne, fun _ => hover⟩
    · exact ⟨r, hr, hne, fun ho => hover.trans ho⟩
  refine h.of_passing rfl (fun i q hq hc => ?_) (fun _ _ _ hst _ _ => hst)
    (fun i j r q hj he hq hc => ?_) fun key i q hst hq => ?_
  · obtain ⟨r, hr, hrc, -⟩ := hback hq
    exact ⟨r, hr, (hrc hc).1⟩
  · obtain ⟨_, _, hrc, _⟩ := hback hq
    have hne : id ≠ j := fun hj' => by
      subst hj'
      rw [found, Option.some.injEq] at hj
      rw [← hj, hlisted] at he
      exact (hrc hc).2 he
    refine ⟨if j ∈ evicted then r.cancel else r, ?_, ?_⟩
    · change (cancelAll evicted (s.pollers.set id _))[j]? = _
      rw [getElem?_cancelAll, List.getElem?_set_ne hne, hj]
      rfl
    · split <;> exact he
  · obtain ⟨r, hr, -, ho⟩ := hback hq
    exact ho (h.busy key i r hst hr)

/-- A poller that ends is not stored, and leaves to others what they hold. -/
theorem ends (h : Kept s) (hs : Sound s) {id : PollerId} {p : Poller}
    (found : s.pollers[id]? = some p) (underway : p.isUnderway = true)
    (unstored : s.alive = false ∨ s.records.indexes p.key id = false) :
    Kept (s.overwrite id p.finish) := by
  have hnot (key : DocumentKey) : ¬s.Stores key id := hs.not_stores_of_unstored found unstored key
  exact h.of_overwrite found underway rfl rfl (fun hc => hc) (fun _ _ hst _ => hst)
    (fun _ _ hst => hst) fun key hst => absurd hst (hnot key)

/-- A poller that quits takes itself out of the records, so it need not be kept any more. -/
theorem quits (h : Kept s) (hs : Sound s) {id : PollerId} {p : Poller} (cancelled : Bool)
    (found : s.pollers[id]? = some p) (underway : p.isUnderway = true) :
    Kept
      ((s.change (.removePoller p.key id cancelled)).overwrite id
        { p.finish with cancelled := true }) := by
  have hst := hs.stores_quits cancelled found
  refine h.of_overwrite found underway rfl rfl (fun hc => Bool.noConfusion hc)
    (fun key i hi hn => (hst key i).mpr ⟨hi, fun he => Bool.noConfusion (hn he)⟩)
    (fun key i hi => ((hst key i).mp hi).1) fun key hi => absurd rfl ((hst key id).mp hi).2

/-- Someone who joins a poller that is there puts none out of custody. -/
theorem joins (h : Kept s) (hs : Sound s) (key : DocumentKey) (callback : CallbackId)
    (requested : Edition) (present : ∃ id, s.Stores key id) :
    Kept (s.change (.subscribe key callback requested true)) := by
  have hback := (hs.settles_joins key callback requested present).stores
  exact h.of_stores rfl rfl fun other id =>
    ⟨hback other id, fun hst => hs.stores_subscribe hst callback requested⟩

theorem hints (h : Kept s) (now : Instant) (key : DocumentKey) (prefetch : Bool)
    (present : ∃ id, s.records.lookup key = .hinted id) :
    Kept (s.change (.resolve now key prefetch)) := by
  obtain ⟨id, hl⟩ := present
  obtain ⟨hpool, hcache, -⟩ := Records.pollers_resolve_of_hinted now prefetch hl
  refine h.of_stores rfl rfl fun other i => ?_
  refine or_congr ?_ ?_
  · exact Iff.of_eq (congrArg (· = some i) (congrArg (·.poller? other) hpool))
  · exact Iff.of_eq (congrArg (· = some i) (hcache other))

/-- The poller that nobody needs any more is cancelled as it loses its place. -/
theorem leaves (h : Kept s) (hs : Sound s) (key : DocumentKey) (callback : CallbackId) :
    Kept
      ((s.change (.unsubscribe key callback)).cancel
        (s.records.idleWithout key callback).toList) := by
  have hback := (hs.settles_leaves key callback).stores
  obtain ⟨hpool, hcache, -⟩ := Records.pollers_unsubscribe s.records key callback
  have hprior {i : PollerId} {q : Poller}
      (hq : (cancelAll (s.records.idleWithout key callback).toList s.pollers)[i]? = some q) :
      ∃ p, s.pollers[i]? = some p ∧ q.isOver = p.isOver ∧
        (q.cancelled = false →
          p.cancelled = false ∧ s.records.idleWithout key callback ≠ some i) := by
    rw [getElem?_cancelAll] at hq
    obtain ⟨p, hp, rfl⟩ := Option.map_eq_some_iff.mp hq
    refine ⟨p, hp, ?_⟩
    split
    case isTrue => exact ⟨rfl, fun hc => Bool.noConfusion hc⟩
    case isFalse hn => exact ⟨rfl, fun hc => ⟨hc, fun he => hn (Option.mem_toList.mpr he)⟩⟩
  refine h.of_passing rfl (fun i q hq hc => ?_) (fun other i q hst hq hc => ?_)
    (fun i j p q hj he _ _ => ?_) fun other i q hst hq => ?_
  · obtain ⟨p, hp, -, hpc⟩ := hprior hq
    exact ⟨p, hp, (hpc hc).1⟩
  · obtain ⟨p, hp, -, hpc⟩ := hprior hq
    refine hst.imp (fun hst => (hpool other).trans ?_) fun hst => ?_
    · have hn : ¬(key = other ∧ (s.records.idleWithout key callback).isSome) := by
        rintro ⟨rfl, hidle⟩
        obtain ⟨j, hj⟩ := Option.isSome_iff_exists.mp hidle
        have hin : s.records.pool.poller? key = some j := PollerPool.poller?_of_idle hj
        rw [hst, Option.some.injEq] at hin
        exact (hpc hc).2 (hin ▸ hj)
      rw [if_neg hn]
      exact hst
    · exact (congrArg (·.poller? other) hcache).trans hst
  · refine ⟨if j ∈ (s.records.idleWithout key callback).toList then p.cancel else p, ?_, ?_⟩
    · change (cancelAll _ s.pollers)[j]? = _
      rw [getElem?_cancelAll, hj]
      rfl
    · split <;> exact he
  · obtain ⟨p, hp, ho, -⟩ := hprior hq
    rw [ho]
    exact h.busy other i p (hback other i hst) hp

/-- A poller that was made is stored, and whatever it took the place of is listed with it. -/
theorem of_grows (h : Kept s) {key : DocumentKey} {p : Poller} (hg : Grows s t key p)
    (fresh : t.Stores key s.pollers.length) (active : p.isOver = false)
    (kept : ∀ k id, s.Stores k id → t.Stores k id ∨ id ∈ p.evicted) : Kept t where
  held hrun id q hq hc := by
    have hlast : t.pollers[s.pollers.length]? = some p := by rw [hg.pollers]; simp
    rw [hg.pollers] at hq
    rcases getElem?_concat_cases hq with hq | ⟨rfl, -⟩
    · rcases h.held (hg.stopped ▸ hrun) id q hq hc with ⟨k, hst⟩ | ⟨j, r, hr, he⟩
      · rcases kept k id hst with hst | he
        · exact .inl ⟨k, hst⟩
        · exact .inr ⟨_, p, hlast, he⟩
      · refine .inr ⟨j, r, ?_, he⟩
        rw [hg.pollers, List.getElem?_append_left (List.getElem?_eq_some_iff.mp hr).1]
        exact hr
    · exact .inl ⟨key, fresh⟩
  busy k id q hst hq := by
    rw [hg.pollers] at hq
    rcases getElem?_concat_cases hq with hq | ⟨rfl, rfl⟩
    · rcases hg.stores k id hst with hst | ⟨-, rfl⟩
      · exact h.busy k id q hst hq
      · exact absurd (List.getElem?_eq_some_iff.mp hq).1 (Nat.lt_irrefl _)
    · exact active

/-- A poller that was taken by the executor is not over, and has those listed that it is to
cancel. -/
theorem stage_of_fresh {accepts : Bool} (ha : accepts = true) {key : DocumentKey}
    {evicted : List PollerId} {p : Poller} (fresh : Fresh accepts key evicted p) :
    p.isOver = false ∧ p.evicted = evicted := by
  rcases fresh.stage with hs | ⟨hf, -⟩
  · rw [Poller.isOver, Poller.evicted, hs]
    exact ⟨rfl, rfl⟩
  · rw [ha] at hf
    cases hf

/-- A background poller that is started is kept by the pool. -/
theorem starts (h : Kept s) (hs : Sound s) (ha : s.accepts = true) {key : DocumentKey}
    (callback : CallbackId) (requested : Edition) {p : Poller} (alive : s.alive = true)
    (absent : ∀ id, ¬s.Stores key id) (fresh : Fresh s.accepts key [] p) :
    Kept ((s.change (.subscribe key callback requested true)).add p) := by
  obtain ⟨hpool, -, -⟩ := Records.pollers_subscribe s.records key callback requested
  obtain ⟨hp, hc⟩ := Sound.not_stores_iff.mp absent
  refine h.of_grows (hs.grows_starts callback requested alive absent fresh) ?_
    (stage_of_fresh ha fresh).1 fun k id hst => .inl (hs.stores_subscribe hst callback requested)
  refine .inl ((hpool key).trans ?_)
  rw [if_pos rfl, hp, hc, ← hs.numbered]
  rfl

/-- A temporary poller that is started is kept by the cache, and lists whom it pushes out. -/
theorem looksUp (h : Kept s) (hs : Sound s) (ha : s.accepts = true) (now : Instant)
    {key : DocumentKey} (prefetch : Bool) {p : Poller} (alive : s.alive = true)
    (absent : ∀ id, ¬s.Stores key id)
    (fresh :
      Fresh s.accepts key
        ((s.records.cache.insert key s.records.pollersMade).evicted.map Prod.snd).toList p) :
    Kept ((s.change (.resolve now key prefetch)).add p) := by
  obtain ⟨hp, hc⟩ := Sound.not_stores_iff.mp absent
  obtain ⟨hpool, hcache, -⟩ := Records.pollers_resolve_of_started now prefetch hp hc
  have hinsert := LookupCache.poller?_insert s.records.cache key
  refine h.of_grows (hs.grows_looksUp now prefetch alive absent fresh) ?_
    (stage_of_fresh ha fresh).1 fun k id hst => ?_
  · refine .inr ((congrArg (·.poller? key) hcache).trans ?_)
    rw [hinsert, if_pos rfl, hs.numbered]
  · have hk : ¬key = k := fun hk => absent id (hk ▸ hst)
    rcases hst with hst | hst
    · exact .inl (.inl ((congrArg (·.poller? k) hpool).trans hst))
    · by_cases he : (s.records.cache.insert key s.records.pollersMade).evicted.map Prod.fst =
          some k
      · obtain ⟨⟨old, i⟩, hold, rfl⟩ := Option.map_eq_some_iff.mp he
        have hin := LookupCache.poller?_of_evicted hold
        rw [hst, Option.some.injEq] at hin
        rw [(stage_of_fresh ha fresh).2, hold, hin]
        exact .inr List.mem_cons_self
      · refine .inl (.inr ((congrArg (·.poller? k) hcache).trans ?_))
        rw [hinsert, if_neg hk, if_neg he]
        exact hst

/-- A step without mishap keeps all pollers in custody. -/
theorem step (h : Kept s) (hs : Sound s) (ha : s.accepts = true) {changes : List Records.Change}
    (step : Step true s changes t) : Kept t := by
  cases step with
  | record change spares =>
    have hk := Records.keepsPollers_apply s.records change spares
    refine h.of_stores rfl rfl fun key id => ?_
    change (s.records.apply change).pool.poller? key = some id ∨
      (s.records.apply change).cache.poller? key = some id ↔ s.Stores key id
    rw [hk.pool, hk.cache]
    rfl
  | turn id p next found before after key cancelled =>
    exact h.of_overwrite found before rfl rfl (fun hc => cancelled ▸ hc) (fun _ _ hst _ => hst)
      (fun _ _ hst => hst) fun _ _ => Poller.not_isOver_of_isUnderway after
  | send id command => exact h.send id command
  | begins id p evicted found stage => exact h.begins found stage
  | ends id p found underway unstored => exact h.ends hs found underway unstored
  | quits id p cancelled found underway free => exact h.quits hs cancelled found underway
  | collapses id p found underway cause =>
    rcases cause with hf | hgone
    · cases hf
    · exact h.ends hs found underway (.inl hgone)
  | refuses accepts cause => exact h.of_stores rfl rfl fun _ _ => Iff.rfl
  | stops => exact of_stopped rfl fun _ _ hst => by rcases hst with hst | hst <;> cases hst
  | shutsDown => exact of_stopped rfl fun _ _ hst => by rcases hst with hst | hst <;> cases hst
  | joins key callback requested present => exact h.joins hs key callback requested present
  | starts key callback requested p alive absent fresh =>
    exact h.starts hs ha callback requested alive absent fresh
  | leaves key callback => exact h.leaves hs key callback
  | hints now key prefetch present => exact h.hints now key prefetch present
  | looksUp now key prefetch p alive absent fresh =>
    exact h.looksUp hs ha now prefetch alive absent fresh

/-- Whatever the steps, every poller stays in custody. -/
theorem steps (h : Kept s) (hs : Sound s) (ha : s.accepts = true)
    {changes : List Records.Change} (steps : Steps true s changes t) :
    Kept t ∧ t.accepts = true := by
  induction steps with
  | refl => exact ⟨h, ha⟩
  | tail hsteps hstep ih =>
    exact ⟨ih.1.step (hs.steps hsteps) ih.2 hstep, Sound.accepts_step hstep ih.2⟩

end Kept

end Roster

namespace Watch

/-- A poller is in the records, in one place only, and its work is not over. -/
structure IsStored (w : Watch) (id : PollerId) (p : Poller) : Prop where
  /-- The work is not over. -/
  busy : p.isOver = false
  /-- The poller is in the pool or in the cache under its document. -/
  place : (w.records.pool.poller? p.key = some id ∧ id ∉ w.records.cache.pollers) ∨
    (w.records.cache.poller? p.key = some id ∧ id ∉ w.records.pool.pollers)
  /-- No other document has the poller. -/
  alone : ∀ key, w.records.indexes key id = true → key = p.key
  /-- Nobody is going to cancel the poller. -/
  unlisted : ∀ q ∈ w.pollers, id ∉ q.evicted

/-- A poller is not in the records, and one other poller that was handed over for execution
and has not begun is going to cancel it. -/
structure IsListed (w : Watch) (id : PollerId) : Prop where
  /-- The poller is neither in the pool nor in the cache. -/
  unstored : id ∉ w.records.pollers
  /-- One poller has the duty to cancel it. -/
  once : ∃! j : PollerId, ∃ (q : Poller) (evicted : List PollerId),
    w.pollers[j]? = some q ∧ q.stage = .submitted evicted ∧ id ∈ evicted

section Custody

variable {w : Watch} {id : PollerId} {p : Poller}

/-- At the start there is no poller to be kept. -/
theorem kept_initial (settings : Settings) (listeners : List Listener) :
    (initial settings listeners).roster.Kept where
  held _ _ _ h := by cases h
  busy _ _ _ h := by rcases h with h | h <;> cases h

/-- What the roster stores is stored in the records. -/
theorem isStored_of_stores (hs : w.roster.Sound) (hk : w.roster.Kept) {key : DocumentKey}
    (found : w.pollers[id]? = some p) (hst : w.roster.Stores key id) : w.IsStored id p := by
  obtain ⟨q, hq, hkey, -⟩ := hs.own key id hst
  have hp : p = q := Option.some.inj (found.symm.trans hq)
  subst hp hkey
  refine ⟨hk.busy _ id p hst found, ?_, fun key hi => hs.key_unique hst (stores_of_indexes hi),
    fun q hq he => ?_⟩
  · refine hst.imp (fun hin => ⟨hin, fun hc => ?_⟩) fun hin => ⟨hin, fun hc => ?_⟩
    · obtain ⟨other, ho⟩ := (LookupCache.mem_pollers_iff _ id).mp hc
      have hkey : other = p.key := hs.key_unique hst (.inr ho)
      have hnone := hs.apart p.key id hin
      change w.records.cache.poller? p.key = none at hnone
      rw [hkey, hnone] at ho
      cases ho
    · obtain ⟨other, ho⟩ := (PollerPool.mem_pollers_iff _ id).mp hc
      have hkey : other = p.key := hs.key_unique hst (.inl ho)
      have hnone := hs.apart p.key id (hkey ▸ ho)
      change w.records.cache.poller? p.key = some id at hin
      change w.records.cache.poller? p.key = none at hnone
      rw [hnone] at hin
      cases hin
  · obtain ⟨j, hj, he'⟩ := List.mem_iff_getElem.mp hq
    exact (hs.listed j q (List.getElem?_eq_some_iff.mpr ⟨hj, he'⟩) id he).2 _ hst

/-- What the roster lists is listed by some poller. -/
theorem isListed_of_listed (hs : w.roster.Sound) (h : w.roster.Listed id) : w.IsListed id := by
  obtain ⟨j, q, hq, he⟩ := h
  refine ⟨fun hin => ?_, j, ?_, fun i hi => ?_⟩
  · obtain ⟨key, hst⟩ := mem_pollers_iff_stores.mp hin
    exact (hs.listed j q hq id he).2 key hst
  · rw [Poller.evicted] at he
    split at he
    case h_1 evicted hstage => exact ⟨q, evicted, hq, hstage, he⟩
    case h_2 => exact absurd he List.not_mem_nil
  · obtain ⟨r, evicted, hr, hstage, hin⟩ := hi
    have hin : id ∈ r.evicted := by
      rw [Poller.evicted, hstage]
      exact hin
    exact hs.once i j r q hr hq id hin he

/-- A poller that has something to do is ready. -/
theorem not_isPollerReady (h : w.readyJobs = []) (found : w.pollers[id]? = some p) :
    w.isPollerReady id p = false := by
  simp only [readyJobs, List.append_eq_nil_iff, List.map_eq_nil_iff, List.filter_eq_nil_iff] at h
  have hp := h.1.2 (p, id) (List.mem_zipIdx_iff_getElem?.mpr found)
  exact Bool.eq_false_iff.mpr hp

/-- When no job is ready, no poller waits to begin. -/
theorem not_listed_of_idle (h : w.readyJobs = []) : ¬w.roster.Listed id := by
  rintro ⟨j, q, hq, he⟩
  have hr := not_isPollerReady h hq
  rw [Poller.evicted] at he
  rw [isPollerReady] at hr
  cases hs : q.stage with
  | submitted evicted => simp [hs] at hr
  | _ => simp [hs] at he

/-- When no job is ready, all pollers that are cancelled are over. -/
theorem isOver_of_idle (h : w.readyJobs = []) (found : w.pollers[id]? = some p)
    (hc : w.isCancelled p = true) : p.isOver = true := by
  have hr := not_isPollerReady h found
  rw [isPollerReady] at hr
  rw [Poller.isOver]
  cases hs : p.stage <;> simp_all

end Custody

/-- In a run without mishap every poller that is not cancelled is in someone's custody: either
it is stored, in one place, and not over, or one poller that has yet to begin is going to
cancel it. So when no job is ready, exactly the pollers in the records are not cancelled, and
each document has one at most. -/
theorem pollers_in_custody (settings : Settings) (listeners : List Listener)
    (actions : List Action) (h : (initial settings listeners).runsSmoothly actions = true) :
    let w := (initial settings listeners).run actions
    (∀ (id : PollerId) (p : Poller), w.pollers[id]? = some p → w.isCancelled p = false →
      w.IsStored id p ∨ w.IsListed id) ∧
    (w.readyJobs = [] →
      (∀ id : PollerId, id ∈ w.records.pollers ↔
        ∃ p, w.pollers[id]? = some p ∧ w.isCancelled p = false) ∧
      ∀ (id other : PollerId) (p q : Poller), w.pollers[id]? = some p →
        w.pollers[other]? = some q → w.isCancelled p = false → w.isCancelled q = false →
          p.key = q.key → id = other) := by
  intro w
  obtain ⟨changes, hsteps, -⟩ : Leads true (initial settings listeners) _ w :=
    leads_run (initial settings listeners) actions fun _ => h
  have hs : w.roster.Sound := (sound_initial settings listeners).steps hsteps
  obtain ⟨hk, -⟩ : w.roster.Kept ∧ _ :=
    (kept_initial settings listeners).steps (sound_initial settings listeners) rfl hsteps
  have hheld (id : PollerId) (p : Poller) (found : w.pollers[id]? = some p)
      (hc : w.isCancelled p = false) : (∃ key, w.roster.Stores key id) ∨ w.roster.Listed id := by
    rw [isCancelled, Bool.or_eq_false_iff] at hc
    exact hk.held hc.2 id p found hc.1
  refine ⟨fun id p found hc => ?_, fun hidle => ?_⟩
  · rcases hheld id p found hc with ⟨key, hst⟩ | hlist
    · exact .inl (isStored_of_stores hs hk found hst)
    · exact .inr (isListed_of_listed hs hlist)
  have hstored (id : PollerId) (p : Poller) (found : w.pollers[id]? = some p)
      (hc : w.isCancelled p = false) : ∃ key, w.roster.Stores key id :=
    (hheld id p found hc).resolve_right (not_listed_of_idle hidle)
  refine ⟨fun id => ?_, fun id other p q hp hq hcp hcq he => ?_⟩
  · constructor
    · intro hin
      obtain ⟨key, hst⟩ := mem_pollers_iff_stores.mp hin
      obtain ⟨p, hp, -⟩ := hs.own key id hst
      refine ⟨p, hp, Bool.eq_false_iff.mpr fun hc => ?_⟩
      have hover := isOver_of_idle hidle hp hc
      rw [hk.busy key id p hst hp] at hover
      cases hover
    · rintro ⟨p, found, hc⟩
      exact mem_pollers_iff_stores.mpr (hstored id p found hc)
  · obtain ⟨key, hst⟩ := hstored id p hp hcp
    obtain ⟨key', hst'⟩ := hstored other q hq hcq
    obtain ⟨p', hp', hkey, -⟩ := hs.own key id hst
    obtain ⟨q', hq', hkey', -⟩ := hs.own key' other hst'
    have hep : p = p' := Option.some.inj (hp.symm.trans hp')
    have heq : q = q' := Option.some.inj (hq.symm.trans hq')
    subst hep heq hkey
    rw [← hkey', ← he] at hst'
    exact hs.stores_unique hst hst'

/-- With room for one lookup, a second lookup makes its poller responsible for the first; once
nothing is left to do, only the second goes on. -/
theorem pollers_in_custody_of_two_lookups :
    let settings : Settings := { Settings.standard with maxTemporary := 1 }
    let lookUp (document : String) : Action :=
      .resolve ⟨⟨.uniform 7, document⟩, 3⟩ false document
    let lookUps : List Action :=
      [.setNetwork ⟨[], 1, 1⟩, .work .sweeper, lookUp "notes", lookUp "diary"]
    let work : List Action := List.replicate 6 (.work (.poller 1)) ++ [.work (.poller 0)]
    let w := (initial settings []).run lookUps
    let v := (initial settings []).run (lookUps ++ work)
    w.IsListed 0 ∧ ∀ id p, v.pollers[id]? = some p → v.isCancelled p = false → id = 1 := by
  intro settings lookUp lookUps work w v
  have hw : (initial settings []).runsSmoothly lookUps = true := by decide
  have hv : (initial settings []).runsSmoothly (lookUps ++ work) = true := by decide
  constructor
  · obtain ⟨hcustody, -⟩ := pollers_in_custody settings [] lookUps hw
    obtain ⟨p, found, hc⟩ : ∃ p, w.pollers[0]? = some p ∧ w.isCancelled p = false :=
      ⟨_, rfl, rfl⟩
    have hout : 0 ∉ w.records.pollers := by decide
    refine (hcustody 0 p found hc).resolve_left fun hin => hout ?_
    exact mem_pollers_iff_stores.mpr ⟨p.key, hin.place.imp And.left And.left⟩
  · intro id p found hc
    obtain ⟨-, hidle⟩ := pollers_in_custody settings [] (lookUps ++ work) hv
    have hready : v.readyJobs = [] := by decide
    have hin : id ∈ v.records.pollers := ((hidle hready).1 id).mpr ⟨p, found, hc⟩
    have hall : v.records.pollers = [1] := by decide
    rw [hall] at hin
    exact List.mem_singleton.mp hin

end Watch

end EditionWatch
