import EditionWatch.Proofs.Pauses

/-!
# Rests too long to be said

After a fruitless round a poller doubles its backoff before it cuts it to the longest interval, and
a double that is out of range is the end of the poller, though nobody cancelled it and its document
goes on having it. Which settings are safe from that is decided by both intervals: the poll interval
is zero, or twice either interval is in range. With all others, a poller that goes on finding
nothing comes to its end.
-/

namespace EditionWatch

/-- Whether no backoff ever gets too long to be doubled. -/
def Settings.waitsFit (s : Settings) : Bool :=
  s.pollInterval.nanoseconds = 0 ||
    (2 * s.pollInterval.nanoseconds < UInt64.size * 1000000000 &&
      2 * s.maxPollInterval.nanoseconds < UInt64.size * 1000000000)

namespace Settings

variable {s : Settings}

/-- If the waits fit, any of them can be doubled. -/
theorem double_fruitlessWait_of_fit (fits : s.waitsFit = true) (k : Nat) :
    2 * s.fruitlessWait k < UInt64.size * 1000000000 := by
  simp only [waitsFit, Bool.or_eq_true, Bool.and_eq_true, decide_eq_true_eq] at fits
  rcases fits with hzero | ⟨hpoll, hlongest⟩
  · have hwait : s.fruitlessWait k = 0 := by
      cases k with
      | zero => exact hzero
      | succ k => rw [fruitlessWait, hzero, Nat.zero_mul, Nat.zero_min]
    rw [hwait]
    decide
  · cases k with
    | zero => exact hpoll
    | succ k =>
      have hcut : s.fruitlessWait (k + 1) ≤ s.maxPollInterval.nanoseconds := Nat.min_le_right _ _
      omega

/-- If they do not, some wait cannot be doubled: the first, or one that has grown to the longest. -/
theorem exists_double_fruitlessWait_of_not_fit (unfit : s.waitsFit = false) :
    ∃ k, UInt64.size * 1000000000 ≤ 2 * s.fruitlessWait k := by
  simp only [waitsFit, Bool.or_eq_false_iff, Bool.and_eq_false_iff, decide_eq_false_iff_not]
    at unfit
  obtain ⟨hpositive, hpoll | hlongest⟩ := unfit
  · exact ⟨0, Nat.le_of_not_lt hpoll⟩
  · -- so many doublings are enough for any interval to reach the longest
    let k := s.maxPollInterval.nanoseconds
    have hgrown : s.maxPollInterval.nanoseconds ≤ s.pollInterval.nanoseconds * 2 ^ (k + 1) :=
      calc s.maxPollInterval.nanoseconds
        _ ≤ 2 ^ (k + 1) := Nat.le_of_lt (Nat.lt_of_succ_lt Nat.lt_two_pow_self)
        _ ≤ s.pollInterval.nanoseconds * 2 ^ (k + 1) :=
          Nat.le_mul_of_pos_left _ (Nat.pos_of_ne_zero hpositive)
    refine ⟨k + 1, ?_⟩
    rw [fruitlessWait, Nat.min_eq_right hgrown]
    exact Nat.le_of_not_lt hlongest

end Settings

/-! ## A document of which nothing ever shows up -/

/-- A walk over nothing ends where it began. -/
theorem Round.walk_of_absent (settings : Settings) (probes : Nat) (found : Bool)
    (slot : Option Edition) (e : Edition) (misses : Nat) :
    walk settings (fun _ => false) probes found slot e misses = ⟨found, slot⟩ := by
  induction probes generalizing e misses with
  | zero => rfl
  | succ probes ih =>
    rw [walk, if_neg Bool.false_ne_true, ih]
    split <;> rfl

/-- The course of a poller of a document of which nothing ever shows up. -/
def Course.empty (settings : Settings) (key : DocumentKey) : Course := ⟨settings, .quiet, key, 0⟩

/-- Where nothing ever shows up, a round finds nothing. -/
theorem Course.outcome_empty (settings : Settings) (key : DocumentKey) (slot : Option Edition) :
    (Course.empty settings key).outcome slot = ⟨false, slot⟩ :=
  Round.walk_of_absent _ _ _ _ _ _

/-- Whether a poller polls for ever, and goes on by itself. -/
def Poller.isKeen (p : Poller) : Bool :=
  p.mode = .forever &&
    match p.stage with
    | .submitted evicted => evicted.isEmpty
    | .resting wake => wake.isSome
    | .ended => false
    | _ => true

namespace Watch

variable {settings : Settings} {v w : Watch} {id : PollerId} {p q : Poller} {past : List Beat}

/-! ## Polling for ever and finding nothing -/

/-- A stored poller polls a document of which nothing ever shows up; so many rounds of it found
nothing, and each time it could double its backoff. -/
structure PollsInVain (settings : Settings) (key : DocumentKey) (id : PollerId) (k : Nat)
    (w : Watch) : Prop where
  regular : w.Regular settings
  running : w.stopped = false
  stored : w.roster.Stores key id
  follows : ∃ slot before,
    (Course.empty settings key).Follows id slot ((Course.empty settings key).outcome before) w
  poller : ∃ p, w.pollers[id]? = some p ∧ p.isKeen = true ∧
    p.backoff.nanoseconds = settings.fruitlessWait k
  doubled : ∀ j < k, 2 * settings.fruitlessWait j < UInt64.size * 1000000000

/-- A poller that is stored is referred to. -/
theorem isReferred_of_stores {key : DocumentKey} (stored : w.roster.Stores key id) :
    w.isReferred id = true := by
  have hin : id ∈ w.records.pollers := mem_pollers_iff_stores.mpr ⟨key, stored⟩
  rw [isReferred, decide_eq_true hin, Bool.true_or, Bool.true_or]

/-- A poller about to rest for longer than can be said is closing a round. -/
theorem overflows_iff (found : w.pollers[id]? = some p) :
    w.overflows id = true ↔ ∃ raised, p.stage = .rounding (.over raised) ∧ p.mode = .forever ∧
      Backoff.pause? w.settings p.backoff raised = none := by
  rw [overflows, found]
  dsimp only
  constructor
  · intro exceeds
    split at exceeds
    case h_1 raised hstage hmode =>
      exact ⟨raised, hstage, hmode, Option.isNone_iff_eq_none.mp exceeds⟩
    case h_2 => cases exceeds
  · rintro ⟨raised, hstage, hmode, hpause⟩
    rw [hstage, hmode]
    exact Option.isNone_iff_eq_none.mpr hpause

namespace PollsInVain

variable {key : DocumentKey} {k : Nat}

/-- A poller that polls in vain is not cancelled. -/
theorem live (h : w.PollsInVain settings key id k) (found : w.pollers[id]? = some p) :
    w.isCancelled p = false := by
  obtain ⟨q, hq, -, hlive⟩ := h.regular.sound.own key id h.stored
  rw [isCancelled, Option.some.inj (found.symm.trans hq), hlive h.running, h.running]
  rfl

/-- A poller that polls in vain goes on by itself. -/
theorem eager (h : w.PollsInVain settings key id k) (keen : p.isKeen = true) :
    w.isEager id p = true := by
  rw [Poller.isKeen, Bool.and_eq_true] at keen
  have hstage := keen.2
  unfold isEager
  cases hs : p.stage with
  | submitted evicted =>
    rw [hs] at hstage
    rw [List.isEmpty_iff.mp hstage]
    rfl
  | resting wake =>
    rw [hs] at hstage
    dsimp only at hstage ⊢
    rw [hstage, isReferred_of_stores h.stored]
    rfl
  | ended =>
    rw [hs] at hstage
    cases hstage
  | _ => rfl

/-- Time that passes makes no difference to it. -/
theorem elapse (h : w.PollsInVain settings key id k) (span : Nat) :
    (w.act (.elapse span)).PollsInVain settings key id k where
  regular := regular_act h.regular (.elapse span)
  running := h.running
  stored := h.stored
  follows := by
    obtain ⟨slot, before, hfollows⟩ := h.follows
    exact ⟨slot, before, hfollows.spared ⟨rfl, rfl, rfl, rfl, rfl⟩⟩
  poller := h.poller
  doubled := h.doubled

/-- What stays as it is in a turn of the poller. -/
structure Lasts (settings : Settings) (key : DocumentKey) (id : PollerId) (v : Watch) : Prop where
  regular : v.Regular settings
  running : v.stopped = false
  stored : v.roster.Stores key id
  alive : v.isAlive = true

/-- A turn of the poller closes a round that found nothing, or goes on with one. -/
theorem lasts (h : w.PollsInVain settings key id k) :
    let v := w.act (.work (.poller id))
    let c := Course.empty settings key
    Lasts settings key id v ∧
      ((w.closing? id (.work (.poller id)) = none ∧
          ∃ slot before, c.Follows id slot (c.outcome before) v) ∨
        ∃ slot before, w.closing? id (.work (.poller id)) = some ⟨false, slot⟩ ∧
          c.Follows id slot (c.outcome before) v) := by
  intro v c
  obtain ⟨slot, before, hfollows⟩ := h.follows
  obtain ⟨p, hfound, -, -⟩ := h.poller
  have hkeeps (request : Request) (_ : request.uri.key = key) :
      Network.quiet.releases request = false := rfl
  have hrunning : v.stopped = false := by
    refine (stopped_turn hfound fun request _ => ?_).trans h.running
    rw [hfollows.shows.network]
    rfl
  have hstored : v.roster.Stores key id := by
    obtain ⟨changes, hsteps, hstory⟩ := leads_act_anyhow w (.work (.poller id))
    exact h.regular.sound.stores_steps hsteps hrunning
      (fun interest hin => absurd (hstory ▸ hin) List.not_mem_nil) h.stored
  have hregular : v.Regular settings := regular_act h.regular (.work (.poller id))
  rcases hfollows.turn hkeeps with ⟨hnone, next, hnext⟩ | ⟨hsome, hnext⟩
  · exact ⟨⟨hregular, hrunning, hstored, hnext.shows.alive⟩, .inl ⟨hnone, next, before, hnext⟩⟩
  · rw [Course.outcome_empty] at hsome hnext
    exact ⟨⟨hregular, hrunning, hstored, hnext.shows.alive⟩, .inr ⟨before, before, hsome, hnext⟩⟩

/-- In a turn without mishap the poller goes on, and if it closes a round it doubles its backoff. -/
theorem strides (h : w.PollsInVain settings key id k) (short : w.overflows id = false)
    (found : w.pollers[id]? = some p) (keen : p.isKeen = true) (inbox : p.inbox = [])
    (wait : p.backoff.nanoseconds = settings.fruitlessWait k)
    (fruitless : p.stage.closes? ≠ some true) (alive : v.isAlive = true)
    (strides : w.Strides id p v q) :
    q.isKeen = true ∧
      ((p.stage.closes? = none ∧ q.backoff = p.backoff) ∨
        (p.stage.closes? = some false ∧
          q.backoff.nanoseconds = settings.fruitlessWait (k + 1) ∧
          2 * settings.fruitlessWait k < UInt64.size * 1000000000)) := by
  have hforever : p.mode = .forever := by
    rw [Poller.isKeen, Bool.and_eq_true, decide_eq_true_eq] at keen
    exact keen.1
  -- it polls for ever, so at work it is keen
  have hkeen {r : Poller} (mode : r.mode = p.mode) {round : Round}
      (stage : r.stage.round? = some round) : r.isKeen = true := by
    rw [Poller.isKeen, mode, hforever]
    cases hs : r.stage with
    | rounding _ => rfl
    | waiting _ _ => rfl
    | _ =>
      rw [hs] at stage
      cases stage
  cases strides with
  | waits idle =>
    refine ⟨keen, .inl ⟨?_, rfl⟩⟩
    rw [Poller.isRounding] at idle
    cases hs : p.stage with
    | rounding round =>
      rw [hs] at idle
      cases idle
    | _ => rfl
  | quits cancelled marked kept => rw [h.live found] at cancelled; cases cancelled
  | leaves wake rests empty unreferred marked kept =>
    rw [isReferred_of_stores h.stored] at unreferred
    cases unreferred
  | begins between going marked kept =>
    refine ⟨hkeen rfl rfl, .inl ⟨?_, rfl⟩⟩
    cases hs : p.stage with
    | rounding round =>
      rw [hs] at between
      cases between
    | _ => rfl
  | takes wake rests =>
    have htaken : p.takeCommands w.settings = { p with inbox := [] } := by
      rw [Poller.takeCommands, inbox]
      rfl
    rw [htaken, rests]
    exact ⟨hkeen rfl rfl, .inl ⟨rfl, rfl⟩⟩
  | steps round next stage steps =>
    rw [stage]
    refine ⟨hkeen rfl rfl, .inl ⟨?_, rfl⟩⟩
    cases steps <;> rfl
  | asks round request flight stage asks =>
    rw [stage]
    refine ⟨hkeen rfl rfl, .inl ⟨?_, rfl⟩⟩
    cases round <;> first | rfl | cases asks
  | hears round next reply stage asks taken hears =>
    refine ⟨hkeen rfl rfl, .inl ⟨?_, rfl⟩⟩
    cases hs : p.stage with
    | rounding other =>
      rw [hs] at stage
      cases stage
      cases hears <;> rfl
    | _ => rfl
  | abandons gone rounds => rw [alive] at gone; cases gone
  | rests raised stage mode => rw [hforever] at mode; cases mode
  | pauses raised pause stage mode pauses =>
    rw [stage] at fruitless ⊢
    cases raised with
    | true => exact absurd rfl fruitless
    | false =>
      rw [h.regular.settings] at pauses
      obtain ⟨-, hnext, hrange⟩ := Backoff.fruitless_of_pause? wait pauses
      refine ⟨?_, .inr ⟨rfl, hnext, hrange⟩⟩
      rw [Poller.isKeen, hforever]
      rfl
  | overflows raised stage mode exceeds =>
    rw [(overflows_iff found).mpr ⟨raised, stage, mode, exceeds⟩] at short
    cases short

/-- In its turn, a poller that polls in vain goes on or has one fruitless round more. -/
theorem turn (h : w.PollsInVain settings key id k) (short : w.overflows id = false) :
    let v := w.act (.work (.poller id))
    let closed := (w.closing? id (.work (.poller id))).toList.length
    v.PollsInVain settings key id (k + closed) := by
  intro v closed
  obtain ⟨hlasts, hcloses⟩ := h.lasts
  have hfollows : ∃ slot before,
      (Course.empty settings key).Follows id slot
        ((Course.empty settings key).outcome before) v := by
    rcases hcloses with ⟨-, hf⟩ | ⟨slot, before, -, hf⟩
    · exact hf
    · exact ⟨slot, before, hf⟩
  obtain ⟨p, hfound, hkeen, hwait⟩ := h.poller
  obtain ⟨slot, before, -, r, hr, howns, -⟩ := h.follows
  obtain rfl : r = p := Option.some.inj (hr.symm.trans hfound)
  have hclosing := closing?_of_turn hfound
  have hfruitless : r.stage.closes? ≠ some true := by
    intro hc
    rw [hc] at hclosing
    rcases hcloses with ⟨hnone, -⟩ | ⟨slot, -, hsome, -⟩
    · rw [hnone] at hclosing
      cases hclosing
    · rw [hsome] at hclosing
      cases hclosing
  obtain ⟨q, hq, hstrides⟩ := strides_turn hfound (h.regular.poised id r hfound)
  obtain ⟨hqkeen, ⟨hnone, hback⟩ | ⟨hsome, hnext, hrange⟩⟩ :=
    h.strides short hfound hkeen howns.inbox hwait hfruitless hlasts.alive hstrides
  · have hclosed : closed = 0 := by
      rw [hnone] at hclosing
      exact congrArg (fun o => o.toList.length) hclosing
    rw [hclosed]
    exact ⟨hlasts.regular, hlasts.running, hlasts.stored, hfollows,
      ⟨q, hq, hqkeen, hback ▸ hwait⟩, h.doubled⟩
  · have hclosed : closed = 1 := by
      rw [hsome] at hclosing
      exact congrArg (fun o => o.toList.length) hclosing
    rw [hclosed]
    refine ⟨hlasts.regular, hlasts.running, hlasts.stored, hfollows, ⟨q, hq, hqkeen, hnext⟩,
      fun j hj => ?_⟩
    rcases Nat.lt_succ_iff_lt_or_eq.mp hj with hlt | rfl
    · exact h.doubled j hlt
    · exact hrange

/-- In turns of its own and time, the poller comes to a mishap or goes on, with its backoff doubled
for each round that it closes. -/
theorem run (h : w.PollsInVain settings key id k) {actions : List Action}
    (own : ∀ action ∈ actions, action.IsOwn id) :
    (∃ earlier j, (w.run earlier).PollsInVain settings key id j ∧
        (w.run earlier).overflows id = true) ∨
      (w.run actions).PollsInVain settings key id (k + (w.outcomes id actions).length) := by
  induction actions generalizing w k with
  | nil => exact .inr h
  | cons action rest ih =>
    have hrest (other : Action) (hin : other ∈ rest) : other.IsOwn id :=
      own other (List.mem_cons_of_mem action hin)
    rw [run_cons, outcomes, List.length_append, ← Nat.add_assoc]
    have hlater (j : Nat) (hnext : (w.act action).PollsInVain settings key id j) :
        (∃ earlier j, (w.run earlier).PollsInVain settings key id j ∧
            (w.run earlier).overflows id = true) ∨
          ((w.act action).run rest).PollsInVain settings key id
            (j + ((w.act action).outcomes id rest).length) := by
      rcases ih hnext hrest with ⟨earlier, other, hends, hover⟩ | hgoes
      · exact .inl ⟨action :: earlier, other, hends, hover⟩
      · exact .inr hgoes
    rcases own action List.mem_cons_self with rfl | ⟨span, rfl⟩
    · cases hover : w.overflows id with
      | true => exact .inl ⟨[], k, h, hover⟩
      | false => exact hlater _ (h.turn hover)
    · exact hlater k (h.elapse span)

/-- Sooner or later, the poller comes to a mishap or has closed as many rounds as one likes. -/
theorem overflows_or_closes (h : w.PollsInVain settings key id k) (n : Nat) :
    (∃ earlier j, (w.run earlier).PollsInVain settings key id j ∧
        (w.run earlier).overflows id = true) ∨
      ∃ earlier, (w.run earlier).PollsInVain settings key id (k + n) := by
  induction n with
  | zero => exact .inr ⟨[], h⟩
  | succ n ih =>
    obtain hends | ⟨earlier, hgoes⟩ := ih
    · exact .inl hends
    obtain ⟨slot, before, hfollows⟩ := hgoes.follows
    obtain ⟨p, hfound, hkeen, -⟩ := hgoes.poller
    obtain ⟨later, hown, hcloses⟩ := hfollows.canClose hfound (hgoes.eager hkeen)
      (hgoes.live hfound) (fun request _ => rfl) (fun request _ => rfl)
    rcases hgoes.run hown with ⟨later, j, hends, hover⟩ | hnext
    · exact .inl ⟨earlier ++ later, j, by rwa [run_append], by rwa [run_append]⟩
    · rw [hcloses] at hnext
      exact .inr ⟨earlier ++ later, by rwa [run_append]⟩

/-- At the mishap the poller ends, though it was not cancelled and is stored. -/
theorem dies (h : w.PollsInVain settings key id k) (exceeds : w.overflows id = true) :
    let v := w.act (.work (.poller id))
    v.roster.Stores key id ∧
      ∃ q, v.pollers[id]? = some q ∧ q.mode = .forever ∧ q.stage = .ended ∧
        v.isCancelled q = false := by
  intro v
  obtain ⟨hlasts, -⟩ := h.lasts
  obtain ⟨p, hfound, -, -⟩ := h.poller
  obtain ⟨raised, hstage, hmode, hpause⟩ := (overflows_iff hfound).mp exceeds
  obtain ⟨q, hq, hstrides⟩ := strides_turn hfound (h.regular.poised id p hfound)
  have hlive := (Bool.or_eq_false_iff.mp (h.live hfound)).1
  refine ⟨hlasts.stored, q, hq, ?_⟩
  cases hstrides with
  | overflows _ _ _ _ =>
    refine ⟨hmode, rfl, ?_⟩
    rw [isCancelled, hlasts.running, Bool.or_false]
    exact hlive
  | waits idle => rw [Poller.isRounding, hstage] at idle; cases idle
  | quits cancelled marked kept => rw [h.live hfound] at cancelled; cases cancelled
  | leaves wake rests => rw [hstage] at rests; cases rests
  | begins between => rw [hstage] at between; cases between
  | takes wake rests => rw [hstage] at rests; cases rests
  | steps round next stage steps => rw [hstage] at stage; cases stage; cases steps
  | asks round request flight stage asks => rw [hstage] at stage; cases stage; cases asks
  | hears round next reply stage asks => rw [hstage] at stage; cases stage; cases asks
  | abandons gone rounds => exact absurd (hlasts.alive.symm.trans gone) Bool.true_eq_false.mp
  | rests other stage once => rw [hmode] at once; cases once
  | pauses other pause stage forever pauses =>
    rw [hstage] at stage
    cases stage
    rw [hpause] at pauses
    cases pauses

end PollsInVain

/-- A poller that was subscribed to in a new watch begins to poll in vain. -/
theorem pollsInVain_subscribe (settings : Settings) :
    let notes : DocumentKey := ⟨.uniform 7, "notes"⟩
    let w := (initial settings []).run [.subscribe notes "ann" { background := true }]
    w.PollsInVain settings notes 0 0 := by
  intro notes w
  let p : Poller := { Poller.create settings notes 0 .forever with stage := .submitted [] }
  have hfound : w.pollers[0]? = some p := rfl
  have hready : w.Ready 0 p := ⟨hfound, rfl, rfl, rfl, .inl rfl, fun _ _ => rfl, fun _ _ => rfl⟩
  refine ⟨?_, rfl, .inl rfl, ⟨_, _, hready.follows⟩, ⟨p, hfound, rfl, rfl⟩, fun j hj => ?_⟩
  · exact regular_act (regular_initial settings [])
      (.subscribe notes "ann" { background := true })
  · cases hj

/-- If the waits fit, no poller comes to rest for longer than can be said. -/
theorem overflows_of_fit (arises : w.Arises settings) (fits : settings.waitsFit = true)
    (id : PollerId) : w.overflows id = false := by
  obtain ⟨listeners, actions, rfl⟩ := arises
  have hstart : Marks settings [] id (initial settings listeners) := rfl
  obtain ⟨hmarks, -⟩ := timely_beats hstart (regular_initial settings listeners) actions
  cases hfound : ((initial settings listeners).run actions).pollers[id]? with
  | none => rw [overflows, hfound]
  | some p =>
    rw [Marks, hfound] at hmarks
    refine Bool.eq_false_iff.mpr fun hexceeds => ?_
    obtain ⟨raised, -, -, hpause⟩ := (overflows_iff hfound).mp hexceeds
    have hdoubles : 2 * p.backoff.nanoseconds < UInt64.size * 1000000000 :=
      hmarks ▸ Settings.double_fruitlessWait_of_fit fits _
    exact absurd hpause (Option.ne_none_iff_isSome.mpr (Backoff.isSome_pause? raised hdoubles))

/-- Whatever a background poller waits between rounds can be doubled if the waits fit, so none comes
to a mishap then. If they do not fit, a background poller of a document of which nothing ever shows
up comes to one: it ends, though nobody cancelled it and its document goes on having it. -/
theorem no_overflow_if_waits_fit (settings : Settings) :
    (settings.waitsFit = true → ∀ listeners actions id,
      ((initial settings listeners).run actions).overflows id = false) ∧
    (settings.waitsFit = false → ∃ actions : List Action,
      let w := (initial settings []).run actions
      let v := w.act (.work (.poller 0))
      w.overflows 0 = true ∧ ∃ q, v.pollers[0]? = some q ∧ q.mode = .forever ∧
        q.stage = .ended ∧ v.isCancelled q = false ∧ v.records.indexes q.key 0 = true) := by
  refine ⟨fun fits listeners actions id => ?_, fun unfit => ?_⟩
  · exact overflows_of_fit ⟨listeners, actions, rfl⟩ fits id
  · obtain ⟨n, hlong⟩ := Settings.exists_double_fruitlessWait_of_not_fit unfit
    let notes : DocumentKey := ⟨.uniform 7, "notes"⟩
    let begun : List Action := [.subscribe notes "ann" { background := true }]
    have hbegun : ((initial settings []).run begun).PollsInVain settings notes 0 0 :=
      pollsInVain_subscribe settings
    -- no poller can have closed so many rounds
    obtain ⟨later, j, hends, hexceeds⟩ | ⟨later, hgoes⟩ := hbegun.overflows_or_closes (n + 1)
    · rw [← run_append] at hends hexceeds
      obtain ⟨hstored, q, hq, hmode, hended, hlive⟩ := hends.dies hexceeds
      obtain ⟨r, hr, hkey, -⟩ := hends.lasts.1.regular.sound.own notes 0 hstored
      have hqkey : q.key = notes := Option.some.inj (hq.symm.trans hr) ▸ hkey
      refine ⟨begun ++ later, hexceeds, q, hq, hmode, hended, hlive, ?_⟩
      rw [hqkey, Records.indexes, Bool.or_eq_true, decide_eq_true_eq, decide_eq_true_eq]
      exact hstored
    · exact absurd (hgoes.doubled n (by omega)) (Nat.not_lt.mpr hlong)

/-- The standard waits fit, and a poller about to rest after a fruitless round can. A longest
interval of `2 ^ 63` seconds does not fit, though the poll interval is the standard one. -/
theorem no_overflow_if_waits_fit_of_standard :
    let notes : DocumentKey := ⟨.uniform 7, "notes"⟩
    let round : List Action := List.replicate 11 (.work (.poller 0))
    let actions : List Action := .subscribe notes "ann" { background := true } :: round
    let settings : Settings :=
      { Settings.standard with maxPollInterval := ⟨2 ^ 63 * 1000000000, by decide⟩ }
    Settings.standard.waitsFit = true ∧
      ((initial Settings.standard []).run actions).overflows 0 = false ∧
      settings.waitsFit = false ∧
      ∃ actions : List Action, ((initial settings []).run actions).overflows 0 = true := by
  intro notes round actions settings
  refine ⟨by decide, (no_overflow_if_waits_fit Settings.standard).1 (by decide) _ _ _,
    by decide, ?_⟩
  obtain ⟨actions, hexceeds, -⟩ := (no_overflow_if_waits_fit settings).2 (by decide)
  exact ⟨actions, hexceeds⟩

/-- The longest poll interval that can be written can be loaded. A background poller that goes by it
ends after its first round, which found nothing, though nobody cancelled it and its document goes on
having it. -/
theorem overflow_of_longest_written_interval :
    let notes : DocumentKey := ⟨.uniform 7, "notes"⟩
    let text := "poll_interval = \"18446744073709551615s\"\n"
    let settings : Settings :=
      { Settings.standard with pollInterval := ⟨18446744073709551615 * 1000000000, by decide⟩ }
    let round : List Action := List.replicate 11 (.work (.poller 0))
    let w := (initial settings []).run (.subscribe notes "ann" { background := true } :: round)
    let v := w.act (.work (.poller 0))
    Settings.load (some text.toUTF8) = .ok settings ∧
      w.overflows 0 = true ∧
      (v.pollers[0]?).map (fun q => (q.mode, q.isOver, v.isCancelled q)) =
        some (.forever, true, false) ∧
      v.records.indexes notes 0 = true :=
  ⟨Settings.load_toUTF8 (by decide +kernel), by decide +kernel, by decide +kernel,
    by decide +kernel⟩

end Watch

end EditionWatch
