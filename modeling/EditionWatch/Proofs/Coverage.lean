import EditionWatch.Proofs.Moves

/-!
# Who is polled for

The background pool does exactly what callers asked for. A document is in it as long as some
callback that was subscribed with background polling has not been removed, its entry lists
these callbacks, each once, and its poller stays the same as long as the entry is there.
-/

namespace EditionWatch

namespace Records

/-- A background subscription keeps every poller of the pool staffed. -/
theorem staffed_subscribe {r : Records} (h : r.pool.Staffed) (key : DocumentKey)
    (callback : CallbackId) (requested : Edition) :
    (r.apply (.subscribe key callback requested true)).pool.Staffed := by
  obtain ⟨hp, hc, -⟩ := keepsPollers_register r key callback requested
  have hstart (poller : PollerId) :
      ((r.pool.start key poller).join key callback).Staffed := by
    refine PollerPool.staffed_join (fun other entry hne he => ?_) callback
    rw [PollerPool.start, KeyMap.get?_insert, if_neg fun hk => hne hk.symm] at he
    exact h other entry he
  simp only [apply, if_true, cover, coverage, hp, hc]
  cases r.pool.poller? key with
  | some poller =>
    dsimp only
    rw [hp]
    exact PollerPool.staffed_join (fun other entry _ => h other entry) callback
  | none =>
    cases r.cache.poller? key with
    | some poller => exact hstart poller
    | none => exact hstart _

/-- After every change, each background poller is there for someone. -/
theorem staffed_apply {r : Records} (h : r.pool.Staffed) (change : Change) :
    (r.apply change).pool.Staffed := by
  have hnone : PollerPool.Staffed .empty := fun key entry he => by cases he
  cases hs : change.sparesPollers with
  | true => exact (keepsPollers_apply r change hs).pool ▸ h
  | false =>
    cases change with
    | subscribe key callback requested polls =>
      cases polls with
      | true => exact staffed_subscribe h key callback requested
      | false => cases hs
    | unsubscribe key callback => exact PollerPool.staffed_leave h key callback
    | resolve now key prefetch =>
      rw [pool_resolve]
      exact h
    | removePoller key poller cancelled =>
      obtain hp | hp := pool_removePoller r key poller cancelled
      · rw [hp]
        exact h
      · rw [hp]
        exact PollerPool.staffed_erase h key
    | removePollers => exact hnone
    | forgetPollers => exact hnone
    | _ => cases hs

/-- At the start there is no poller that would lack subscribers. -/
theorem staffed_initial (capacity : Nat) : (initial capacity).pool.Staffed :=
  fun _ _ he => by cases he

/-- Everybody for whom a document is polled is registered for it. -/
def Enlisted (r : Records) : Prop :=
  ∀ key, ∀ callback ∈ r.pool.subscribers key, r.registry.has key callback = true

/-- At the start nobody is in the pool. -/
theorem enlisted_initial (capacity : Nat) : (initial capacity).Enlisted :=
  fun _ _ hin => by cases hin

/-- Whoever is in the pool is registered, after any change. -/
theorem enlisted_apply {r : Records} (h : r.Enlisted) (change : Change) :
    (r.apply change).Enlisted := by
  intro key callback hin
  -- whoever was polled for before is still registered, unless it was removed
  have hold (hbefore : callback ∈ r.pool.subscribers key)
      (hstay : change ≠ .unsubscribe key callback) :
      (r.apply change).registry.has key callback = true := has_apply (h key callback hbefore) hstay
  cases hs : change.sparesPollers with
  | true =>
    rw [(keepsPollers_apply r change hs).pool] at hin
    refine hold hin fun hu => ?_
    rw [hu] at hs
    cases hs
  | false =>
    cases change with
    | subscribe key' registered requested polls =>
      cases polls with
      | false => cases hs
      | true =>
        rw [subscribers_subscribe] at hin
        split at hin
        case isTrue hk =>
          obtain ⟨rfl, -⟩ := hk
          rcases List.mem_append.mp hin with hin | hin
          · exact hold hin Change.noConfusion
          · rw [List.mem_singleton.mp hin, registry_subscribe, has_register]
            simp
        case isFalse => exact hold hin Change.noConfusion
    | unsubscribe key' removed =>
      rw [subscribers_unsubscribe] at hin
      split at hin
      case isTrue hk =>
        subst hk
        obtain ⟨hin, hne⟩ := List.mem_filter.mp hin
        refine hold hin fun he => ?_
        injection he with _ he
        simp [he] at hne
      case isFalse hk =>
        refine hold hin fun he => ?_
        injection he with he
        exact hk he
    | resolve now key' prefetch =>
      rw [pool_resolve] at hin
      exact hold hin Change.noConfusion
    | removePoller key' poller cancelled =>
      refine hold ?_ Change.noConfusion
      obtain hp | hp := pool_removePoller r key' poller cancelled
      · rw [hp] at hin
        exact hin
      · rw [hp, PollerPool.subscribers_erase] at hin
        split at hin
        · cases hin
        · exact hin
    | removePollers => cases hin
    | forgetPollers => cases hin
    | _ => cases hs

/-- In every history, background pollers are there for someone, and those are registered. -/
theorem staffed_run {r : Records} (hs : r.pool.Staffed) (he : r.Enlisted)
    (history : List Change) : (r.run history).pool.Staffed ∧ (r.run history).Enlisted := by
  induction history generalizing r with
  | nil => exact ⟨hs, he⟩
  | cons change rest ih => exact ih (staffed_apply hs change) (enlisted_apply he change)

end Records

/-! ## Stories -/

namespace Watch

/-- Those who want a document polled after one interest more. -/
def Interest.heed (key : DocumentKey) (audience : List CallbackId) : Interest → List CallbackId
  | .begins other callback =>
    if other = key ∧ callback ∉ audience then audience ++ [callback] else audience
  | .ends other callback =>
    if other = key then audience.filter (· ≠ callback) else audience
  | .looksUp _ => audience

/-- Those who want a document polled after a story, in the order of their coming. -/
def audience (key : DocumentKey) (before : List CallbackId) (story : List Interest) :
    List CallbackId :=
  story.foldl (Interest.heed key) before

/-- The audience after a longer story is reached by way of the shorter one. -/
theorem audience_append (key : DocumentKey) (before : List CallbackId)
    (earlier later : List Interest) :
    audience key before (earlier ++ later) = audience key (audience key before earlier) later :=
  List.foldl_append

/-- Someone wants a document if they begin to and do not cease later, or do so in what follows. -/
theorem wanted_cons_iff {interest : Interest} {rest : List Interest} {key : DocumentKey}
    {callback : CallbackId} :
    Wanted (interest :: rest) key callback ↔
      (interest = .begins key callback ∧ .ends key callback ∉ rest) ∨
        Wanted rest key callback := by
  constructor
  · rintro ⟨earlier, later, he, hl⟩
    cases earlier with
    | nil =>
      injection he with hi hr
      exact .inl ⟨hi, hr ▸ hl⟩
    | cons first earlier =>
      injection he with _ hr
      exact .inr ⟨earlier, later, hr, hl⟩
  · rintro (⟨rfl, hn⟩ | ⟨earlier, later, rfl, hl⟩)
    · exact ⟨[], rest, rfl, hn⟩
    · exact ⟨interest :: earlier, later, rfl, hl⟩

/-- Nobody enters an audience twice. -/
theorem nodup_heed {key : DocumentKey} {audience : List CallbackId} (h : audience.Nodup)
    (interest : Interest) : (interest.heed key audience).Nodup := by
  unfold Interest.heed
  split
  · split
    case isTrue hk =>
      rw [List.nodup_append]
      refine ⟨h, List.pairwise_singleton _ _, fun a ha b hb he => hk.2 ?_⟩
      rw [← List.mem_singleton.mp hb, ← he]
      exact ha
    case isFalse => exact h
  · split
    · exact h.filter _
    · exact h
  · exact h

/-- No story lets anybody enter an audience twice. -/
theorem nodup_audience {key : DocumentKey} {before : List CallbackId} (h : before.Nodup)
    (story : List Interest) : (audience key before story).Nodup := by
  induction story generalizing before with
  | nil => exact h
  | cons interest rest ih => exact ih (nodup_heed h interest)

/-- In the audience are those who were and have not ceased, and whoever begins. -/
theorem mem_heed_iff {key : DocumentKey} {audience : List CallbackId} {interest : Interest}
    {callback : CallbackId} :
    callback ∈ interest.heed key audience ↔
      (callback ∈ audience ∧ interest ≠ .ends key callback) ∨ interest = .begins key callback := by
  unfold Interest.heed
  split
  case h_1 other begun =>
    split
    case isTrue hk => simp [hk.1, eq_comm]
    case isFalse hn =>
      have hin (hk : other = key) : begun ∈ audience := Classical.not_not.mp fun h => hn ⟨hk, h⟩
      refine ⟨fun h => .inl ⟨h, Interest.noConfusion⟩, ?_⟩
      rintro (⟨h, -⟩ | he)
      · exact h
      · injection he with hk hc
        exact hc ▸ hin hk
  case h_2 other ended =>
    split
    case isTrue hk =>
      subst hk
      simp [@eq_comm CallbackId callback ended]
    case isFalse hk => simp [hk]
  case h_3 => simp

/-- Who is in the audience after a story was there before and stayed, or came to be. -/
theorem mem_audience_iff {key : DocumentKey} {before : List CallbackId} {story : List Interest}
    {callback : CallbackId} :
    callback ∈ audience key before story ↔
      (callback ∈ before ∧ .ends key callback ∉ story) ∨ Wanted story key callback := by
  induction story generalizing before with
  | nil =>
    have hn : ¬Wanted [] key callback := by
      rintro ⟨earlier, later, he, -⟩
      cases earlier <;> cases he
    simp [audience, hn]
  | cons interest rest ih =>
    change callback ∈ audience key (interest.heed key before) rest ↔ _
    rw [ih, mem_heed_iff, wanted_cons_iff, List.mem_cons, not_or, ← or_assoc, or_and_right,
      and_assoc]
    simp only [ne_eq, eq_comm (a := interest)]

end Watch

/-! ## Steps -/

namespace Roster.Sound

variable {s t : Roster} {smooth : Bool} {changes : List Records.Change}

/-- What was stopped stays stopped. -/
theorem running_of_step (h : Sound s) (step : Step smooth s changes t)
    (running : t.stopped = false) : s.stopped = false := by
  rcases h.settles_or_grows step with hs | ⟨key, p, hg⟩
  · cases hst : s.stopped with
    | false => rfl
    | true =>
      rw [hs.stopped hst] at running
      cases running
  · rw [← hg.stopped]
    exact running

/-- As long as not everything is stopped, a poller that ends takes nothing out. -/
theorem records_quits (h : Sound s) (running : s.stopped = false) {id : PollerId} {p : Poller}
    (found : s.pollers[id]? = some p)
    (free : p.cancelled = true ∨ s.stopped = true ∨ s.Unreferred id) (cancelled : Bool) :
    s.records.apply (.removePoller p.key id cancelled) = s.records := by
  refine Records.removePoller_of_not_indexes (Bool.eq_false_iff.mpr fun hi => ?_) cancelled
  rw [Records.indexes, Bool.or_eq_true, decide_eq_true_eq, decide_eq_true_eq] at hi
  exact h.not_stores_of_free running found free p.key hi

/-- A step changes those for whom a document is polled as it changes the wish for it. -/
theorem subscribers_step (h : Sound s) (step : Step smooth s changes t)
    (running : t.stopped = false) (key : DocumentKey) :
    t.records.pool.subscribers key =
      Watch.audience key (s.records.pool.subscribers key)
        (changes.filterMap Records.Change.interest?) := by
  have hrun := h.running_of_step step running
  cases step with
  | record change spares =>
    have hn : [change].filterMap Records.Change.interest? = [] := by
      rw [List.filterMap_cons, Records.Change.interest?_of_sparesPollers spares]
      rfl
    rw [hn]
    have hpool := (Records.keepsPollers_apply s.records change spares).pool
    exact congrArg (·.subscribers key) hpool
  | quits id p cancelled found underway free =>
    have hr := h.records_quits hrun found free cancelled
    exact congrArg (fun r => r.pool.subscribers key) hr
  | stops => cases running
  | shutsDown => cases running
  | joins other callback requested present =>
    exact Records.subscribers_subscribe s.records other key callback requested
  | starts other callback requested p alive absent fresh =>
    exact Records.subscribers_subscribe s.records other key callback requested
  | leaves other callback => exact Records.subscribers_unsubscribe s.records other key callback
  | hints now other prefetch present =>
    exact congrArg (·.subscribers key) (Records.pool_resolve s.records now other prefetch)
  | looksUp now other prefetch p alive absent fresh =>
    exact congrArg (·.subscribers key) (Records.pool_resolve s.records now other prefetch)
  | _ => rfl

/-- The subscribers of a pool are the audience of the story, step by step. -/
theorem subscribers_steps (h : Sound s) (steps : Steps smooth s changes t)
    (running : t.stopped = false) (key : DocumentKey) :
    t.records.pool.subscribers key =
      Watch.audience key (s.records.pool.subscribers key)
        (changes.filterMap Records.Change.interest?) := by
  induction steps with
  | refl => rfl
  | tail hsteps hstep ih =>
    have hmiddle := h.steps hsteps
    have hrun := hmiddle.running_of_step hstep running
    rw [List.filterMap_append, Watch.audience_append, ← ih hrun]
    exact hmiddle.subscribers_step hstep running key

/-- As long as nobody begins to want a document polled, it gets no background poller. -/
theorem pool_step (step : Step smooth s changes t) {key : DocumentKey} {id : PollerId}
    (quiet : ∀ callback, .begins key callback ∉ changes.filterMap Records.Change.interest?)
    (hid : t.records.pool.poller? key = some id) : s.records.pool.poller? key = some id := by
  -- a subscription gives a poller to its own document only
  have hsubscribed (other : DocumentKey) (callback : CallbackId) (requested : Edition)
      (hne : other ≠ key)
      (hin : (s.records.apply (.subscribe other callback requested true)).pool.poller? key =
        some id) : s.records.pool.poller? key = some id := by
    rw [(Records.pollers_subscribe s.records other callback requested).1, if_neg hne] at hin
    exact hin
  cases step with
  | record change spares =>
    have hpool := (Records.keepsPollers_apply s.records change spares).pool
    exact (congrArg (·.poller? key) hpool).symm.trans hid
  | quits gone p cancelled found underway free =>
    change (s.records.apply _).pool.poller? key = some id at hid
    obtain hp | hp := Records.pool_removePoller s.records p.key gone cancelled
    · rw [hp] at hid
      exact hid
    · rw [hp, PollerPool.poller?_erase] at hid
      split at hid
      · cases hid
      · exact hid
  | stops => cases hid
  | shutsDown => cases hid
  | joins other callback requested present =>
    exact hsubscribed other callback requested
      (fun hk => quiet callback (hk ▸ List.mem_cons_self)) hid
  | starts other callback requested p alive absent fresh =>
    exact hsubscribed other callback requested
      (fun hk => quiet callback (hk ▸ List.mem_cons_self)) hid
  | leaves other callback =>
    change (s.records.apply _).pool.poller? key = some id at hid
    rw [(Records.pollers_unsubscribe s.records other callback).1] at hid
    split at hid
    · cases hid
    · exact hid
  | hints now other prefetch present =>
    have hpool := Records.pool_resolve s.records now other prefetch
    exact (congrArg (·.poller? key) hpool).symm.trans hid
  | looksUp now other prefetch p alive absent fresh =>
    have hpool := Records.pool_resolve s.records now other prefetch
    exact (congrArg (·.poller? key) hpool).symm.trans hid
  | _ => exact hid

/-- As long as nobody begins to want a document, it gets no background poller. -/
theorem pool_steps (steps : Steps smooth s changes t) {key : DocumentKey} {id : PollerId}
    (quiet : ∀ callback, .begins key callback ∉ changes.filterMap Records.Change.interest?)
    (hid : t.records.pool.poller? key = some id) : s.records.pool.poller? key = some id := by
  induction steps with
  | refl => exact hid
  | tail hsteps hstep ih =>
    simp only [List.filterMap_append, List.mem_append, not_or] at quiet
    exact ih (fun callback => (quiet callback).1) (pool_step hstep (fun c => (quiet c).2) hid)

/-- As long as people only begin to want documents polled, all pollers keep their documents. -/
theorem stores_step (h : Sound s) (step : Step smooth s changes t) (running : t.stopped = false)
    (joining : ∀ interest ∈ changes.filterMap Records.Change.interest?,
      ∃ key callback, interest = .begins key callback)
    {key : DocumentKey} {id : PollerId} (hst : s.Stores key id) : t.Stores key id := by
  have hrun := h.running_of_step step running
  cases step with
  | record change spares =>
    obtain ⟨hpool, hcache, -⟩ := Records.keepsPollers_apply s.records change spares
    exact hst.imp (congrArg (·.poller? key) hpool).trans (congrArg (·.poller? key) hcache).trans
  | quits gone p cancelled found underway free =>
    have hr := h.records_quits hrun found free cancelled
    exact hst.imp (congrArg (fun r => r.pool.poller? key) hr).trans
      (congrArg (fun r => r.cache.poller? key) hr).trans
  | stops => cases running
  | shutsDown => cases running
  | joins other callback requested present => exact h.stores_subscribe hst callback requested
  | starts other callback requested p alive absent fresh =>
    exact h.stores_subscribe hst callback requested
  | leaves other callback =>
    obtain ⟨_, _, he⟩ := joining _ List.mem_cons_self
    cases he
  | hints now other prefetch present =>
    obtain ⟨_, _, he⟩ := joining _ List.mem_cons_self
    cases he
  | looksUp now other prefetch p alive absent fresh =>
    obtain ⟨_, _, he⟩ := joining _ List.mem_cons_self
    cases he
  | _ => exact hst

/-- As long as everybody only begins, a document keeps its poller. -/
theorem stores_steps (h : Sound s) (steps : Steps smooth s changes t)
    (running : t.stopped = false)
    (joining : ∀ interest ∈ changes.filterMap Records.Change.interest?,
      ∃ key callback, interest = .begins key callback)
    {key : DocumentKey} {id : PollerId} (hst : s.Stores key id) : t.Stores key id := by
  induction steps with
  | refl => exact hst
  | tail hsteps hstep ih =>
    have hmiddle := h.steps hsteps
    simp only [List.filterMap_append, List.mem_append] at joining
    have hearlier := ih (hmiddle.running_of_step hstep running) fun i hi => joining i (.inl hi)
    exact hmiddle.stores_step hstep running (fun i hi => joining i (.inr hi)) hearlier

end Roster.Sound

namespace Watch

/-! ## Runs -/

/-- Of all that listeners do in reply, only leaving changes who wants a document polled. -/
theorem ends_of_mem_leaving {w : Watch} {name : String} {signal : Signal} {interest : Interest}
    (h : interest ∈ w.leaving name signal) :
    ∃ key callback, interest = .ends key callback := by
  unfold leaving at h
  split at h
  · split at h
    · cases h
    · split at h
      · obtain ⟨subscription, -, he⟩ := List.mem_map.mp h
        exact ⟨subscription.key, subscription.callback, he.symm⟩
      · cases h
  · cases h

/-- What ends while a target is told one thing after the other are subscriptions. -/
theorem ends_of_mem_leavings {w : Watch} {target : Target} {signals : List Signal}
    {interest : Interest} (h : interest ∈ w.leavings target signals) :
    ∃ key callback, interest = .ends key callback := by
  induction signals generalizing w with
  | nil => cases h
  | cons signal rest ih =>
    unfold leavings at h
    rcases List.mem_append.mp h with h | h
    · cases target with
      | listener name => exact ends_of_mem_leaving h
      | feed id => cases h
    · split at h
      · exact ih h
      · cases h

/-- What ends while a callback is told something are subscriptions. -/
theorem ends_of_mem_farewells {w : Watch} {id : CallbackId} {signal : Signal}
    {interest : Interest} (h : interest ∈ w.farewells id signal) :
    ∃ key callback, interest = .ends key callback := by
  unfold farewells at h
  split at h
  · cases h
  · split at h
    · exact ends_of_mem_leavings h
    · exact ends_of_mem_leavings h

/-- What ends while the next delivery is handed out are subscriptions. -/
theorem ends_of_mem_farewellsOfNext {w : Watch} {interest : Interest}
    (h : interest ∈ w.farewellsOfNext) : ∃ key callback, interest = .ends key callback := by
  unfold farewellsOfNext at h
  split at h
  · cases h
  · exact ends_of_mem_farewells h
  · exact ends_of_mem_farewells h

/-- A subscription means nothing for polling but that someone begins to want it. -/
theorem begins_of_mem_interestOf {s : Subscription} {interest : Interest}
    (h : interest ∈ interestOf s) : ∃ key callback, interest = .begins key callback := by
  unfold interestOf at h
  split at h
  · exact ⟨s.key, s.callback, List.mem_singleton.mp h⟩
  · cases h

/-- An action either brings nobody who wants a document polled, or nobody else. -/
theorem interests_cases (w : Watch) (action : Action) :
    (∀ key callback, .begins key callback ∉ w.interests action) ∨
      ∀ interest ∈ w.interests action, ∃ key callback, interest = .begins key callback := by
  unfold interests
  split
  case isTrue => exact .inl fun _ _ => List.not_mem_nil
  case isFalse =>
    cases action with
    | work job =>
      refine .inl fun key callback h => ?_
      cases job with
      | delivery =>
        simp only [meaning] at h
        split at h
        · obtain ⟨_, _, he⟩ := ends_of_mem_farewellsOfNext h
          cases he
        · cases h
      | _ => cases h
    | subscribe key listener options =>
      refine .inr fun interest h => ?_
      simp only [meaning] at h
      split at h
      · cases h
      · exact begins_of_mem_interestOf h
    | subscribeContent key listener quiet options =>
      refine .inr fun interest h => ?_
      simp only [meaning] at h
      split at h
      · cases h
      · exact begins_of_mem_interestOf h
    | unsubscribe subscription =>
      refine .inl fun key callback h => ?_
      cases List.mem_singleton.mp h
    | unsubscribeContent subscription =>
      refine .inl fun key callback h => ?_
      cases List.mem_singleton.mp h
    | resolve uri prefetch name =>
      refine .inl fun key callback h => ?_
      cases List.mem_singleton.mp h
    | _ => exact .inl fun _ _ => List.not_mem_nil

/-- The roster is sound after every run. -/
theorem sound_run (settings : Settings) (listeners : List Listener) (actions : List Action) :
    ((initial settings listeners).run actions).roster.Sound := by
  obtain ⟨changes, hsteps, -⟩ := leads_run_anyhow (initial settings listeners) actions
  exact (sound_initial settings listeners).steps hsteps

/-- An action that leaves the watch running leaves the poller of a document the same, if it is
polled in the background afterwards. -/
theorem poller_act {w : Watch} (h : w.roster.Sound) {action : Action}
    (running : (w.act action).stopped = false) {key : DocumentKey} {id other : PollerId}
    (before : w.records.indexes key id = true)
    (after : (w.act action).records.pool.poller? key = some other) : other = id := by
  obtain ⟨changes, hsteps, hstory⟩ := leads_act_anyhow w action
  have hst : w.roster.Stores key id := stores_of_indexes before
  rcases w.interests_cases action with hquiet | hjoining
  · have hpool : w.records.pool.poller? key = some other :=
      Roster.Sound.pool_steps hsteps (hstory ▸ hquiet key) after
    exact h.stores_unique (.inl hpool) hst
  · have hkept : (w.act action).roster.Stores key id :=
      h.stores_steps hsteps running (hstory ▸ hjoining) hst
    exact (h.steps hsteps).stores_unique (.inl after) hkept

/-- Along some actions the watch goes on running, and a document has a background poller. -/
def KeepsPolling (w : Watch) (key : DocumentKey) : List Action → Prop
  | [] => True
  | action :: rest =>
    (w.act action).stopped = false ∧ (w.act action).records.pool.poller? key ≠ none ∧
      (w.act action).KeepsPolling key rest

/-- The roster stays sound in every action. -/
theorem sound_act {w : Watch} (h : w.roster.Sound) (action : Action) :
    (w.act action).roster.Sound := by
  obtain ⟨changes, hsteps, -⟩ := leads_act_anyhow w action
  exact h.steps hsteps

/-- The poller of a document stays the same as long as the document has one in the pool. -/
theorem poller_run {w : Watch} (h : w.roster.Sound) {key : DocumentKey} {id : PollerId}
    {later : List Action} (hid : w.records.pool.poller? key = some id)
    (keeps : w.KeepsPolling key later) :
    (w.run later).records.pool.poller? key = some id := by
  induction later generalizing w with
  | nil => exact hid
  | cons action rest ih =>
    obtain ⟨hrun, hsome, hrest⟩ := keeps
    obtain ⟨other, hother⟩ := Option.ne_none_iff_exists'.mp hsome
    have hin : w.records.indexes key id = true := by
      rw [Records.indexes, hid]
      simp
    have he : other = id := poller_act h hrun hin hother
    exact ih (sound_act h action) (he ▸ hother) hrest

/-- The background pollers of a watch are those that a story asks for. -/
structure PollsFor (w : Watch) (story : List Interest) : Prop where
  /-- A document is in the pool if somebody wants it polled. -/
  needed : ∀ key, (∃ entry, w.records.pool.get? key = some entry) ↔
    ∃ callback, Wanted story key callback
  /-- Nobody is listed twice. -/
  distinct : ∀ key entry, w.records.pool.get? key = some entry → entry.subscribers.Nodup
  /-- Those who want a document polled are listed, and no others. -/
  listed : ∀ key entry, w.records.pool.get? key = some entry →
    ∀ callback, callback ∈ entry.subscribers ↔ Wanted story key callback
  /-- Who is listed is registered as a subscriber. -/
  registered : ∀ key entry, w.records.pool.get? key = some entry →
    ∀ callback ∈ entry.subscribers, w.records.registry.has key callback = true
  /-- No document is in the pool and in the cache. -/
  apart : ∀ key, w.records.pool.poller? key = none ∨ w.records.cache.poller? key = none
  /-- The poller of a document polls this document and is not cancelled. -/
  own : ∀ key id, w.records.indexes key id = true →
    ∃ p, w.pollers[id]? = some p ∧ p.key = key ∧ w.isCancelled p = false
  /-- No two documents have the same poller. -/
  unique : ∀ key other id, w.records.indexes key id = true → w.records.indexes other id = true →
    other = key
  /-- A poller that is made next gets a number that none has. -/
  unused : w.records.pollersMade = w.pollers.length

/-- A sound roster whose subscribers follow the story polls for exactly those who want it. -/
theorem pollsFor_of_sound {w : Watch} {story : List Interest} (h : w.roster.Sound)
    (running : w.stopped = false) (staffed : w.records.pool.Staffed)
    (enlisted : w.records.Enlisted)
    (follows : ∀ key, w.records.pool.subscribers key = audience key [] story) :
    w.PollsFor story := by
  have hmem (key : DocumentKey) (callback : CallbackId) :
      callback ∈ w.records.pool.subscribers key ↔ Wanted story key callback := by
    rw [follows, mem_audience_iff]
    simp
  refine ⟨fun key => ?_, fun key entry he => ?_, fun key entry he callback => ?_,
    fun key entry he callback hin => ?_, fun key => ?_, fun key id hi => ?_,
    fun key other id hi ho => ?_, h.numbered⟩
  · constructor
    · rintro ⟨entry, he⟩
      obtain ⟨callback, hin⟩ := List.exists_mem_of_ne_nil _ (staffed key entry he)
      rw [← PollerPool.subscribers_of_get? he] at hin
      exact ⟨callback, (hmem key callback).mp hin⟩
    · rintro ⟨callback, hc⟩
      have hin := (hmem key callback).mpr hc
      cases hg : w.records.pool.get? key with
      | some entry => exact ⟨entry, rfl⟩
      | none =>
        rw [PollerPool.subscribers, hg] at hin
        cases hin
  · rw [← PollerPool.subscribers_of_get? he, follows]
    exact nodup_audience List.nodup_nil story
  · rw [← PollerPool.subscribers_of_get? he]
    exact hmem key callback
  · rw [← PollerPool.subscribers_of_get? he] at hin
    exact enlisted key callback hin
  · cases hp : w.records.pool.poller? key with
    | none => exact .inl rfl
    | some id => exact .inr (h.apart key id hp)
  · obtain ⟨p, hp, hk, hc⟩ := h.own key id (stores_of_indexes hi)
    refine ⟨p, hp, hk, ?_⟩
    rw [isCancelled, hc running, running]
    rfl
  · exact h.key_unique (stores_of_indexes hi) (stores_of_indexes ho)

/-- As long as a watch was neither shut down nor given up, its pool is what the calls asked
for, whatever else happened. No action gives a document another poller than the one it had,
and a poller stays as long as its document is in the pool. -/
theorem coverage_exact (settings : Settings) (listeners : List Listener) (actions : List Action)
    (running : ((initial settings listeners).run actions).stopped = false) :
    let w := (initial settings listeners).run actions
    w.PollsFor ((initial settings listeners).story actions) ∧
    (∀ action, (w.act action).stopped = false → ∀ key id other,
      w.records.indexes key id = true →
        (w.act action).records.pool.poller? key = some other → other = id) ∧
    (∀ key id later, w.records.pool.poller? key = some id → w.KeepsPolling key later →
      (w.run later).records.pool.poller? key = some id) := by
  intro w
  have h : w.roster.Sound := sound_run settings listeners actions
  refine ⟨?_, fun action hrun key id other before after => poller_act h hrun before after,
    fun key id later hid keeps => poller_run h hid keeps⟩
  obtain ⟨history, hhistory, -⟩ := records_run (initial settings listeners) actions
  obtain ⟨hstaffed, henlisted⟩ : w.records.pool.Staffed ∧ w.records.Enlisted := by
    rw [hhistory]
    exact Records.staffed_run (Records.staffed_initial _) (Records.enlisted_initial _) history
  obtain ⟨changes, hsteps, hstory⟩ := leads_run_anyhow (initial settings listeners) actions
  refine pollsFor_of_sound h running hstaffed henlisted fun key => ?_
  rw [← hstory]
  exact (sound_initial settings listeners).subscribers_steps hsteps running key

/-- A document that was looked up keeps its poller when two listeners are subscribed and the
first is removed, by a handle without background polling. -/
theorem coverage_exact_of_promotion :
    let notes : DocumentKey := ⟨.uniform 7, "notes"⟩
    let polled : SubscribeOptions := { background := true }
    let lookUp : List Action := [.resolve ⟨notes, 3⟩ false "mine"]
    let first : Action := .subscribe notes "ann" polled
    let later : List Action := [.subscribe notes "bob" polled, .unsubscribe ⟨notes, 0, false⟩]
    let all : List Action := lookUp ++ first :: later
    (((initial .standard []).run (lookUp ++ [first])).run later).records.pool.poller? notes =
        some 0 ∧
      Wanted ((initial .standard []).story all) notes 1 ∧
      ¬Wanted ((initial .standard []).story all) notes 0 := by
  intro notes polled lookUp first later all
  obtain ⟨-, hact, -⟩ := coverage_exact .standard [] lookUp (by decide)
  obtain ⟨-, -, hkeeps⟩ := coverage_exact .standard [] (lookUp ++ [first]) (by decide)
  obtain ⟨hpolls, -, -⟩ := coverage_exact .standard [] all (by decide)
  obtain ⟨id, hid⟩ : ∃ id, (((initial .standard []).run lookUp).act first).records.pool.poller?
      notes = some id := Option.isSome_iff_exists.mp (by decide)
  have hzero : id = 0 := hact first (by decide) notes 0 id (by decide) hid
  have hfirst : ((initial .standard []).run (lookUp ++ [first])).records.pool.poller? notes =
      some 0 := hzero ▸ hid
  have hentry : ((initial .standard []).run all).records.pool.get? notes = some ⟨0, [1]⟩ := by
    decide
  have hlisted := hpolls.listed notes _ hentry
  refine ⟨hkeeps notes 0 later hfirst ?_, (hlisted 1).mp List.mem_cons_self, fun hwanted => ?_⟩
  · exact ⟨by decide, by decide, by decide, by decide, trivial⟩
  · have hin : 0 ∈ [1] := (hlisted 0).mpr hwanted
    simp at hin

end Watch

end EditionWatch
