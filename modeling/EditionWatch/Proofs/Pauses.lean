import EditionWatch.Proofs.Histories
import EditionWatch.Settings.Text

/-!
# How long pollers rest

The pauses of a background poller keep time: after a round that found something it rests for the
poll interval, and so it does after the first fruitless round. The more of them follow, the longer
it rests, twice as long each time, but from the second on no longer than the longest interval. Only
the first pause is not capped, so no pause is too long exactly if the poll interval is not; and to
be told to poll for ever begins all this anew.
-/

namespace EditionWatch

/-- What marks the pace of a poller. -/
inductive Beat where
  /-- It goes to rest for so many nanoseconds, after a round that found something or nothing. -/
  | pause (found : Bool) (wait : Nat)
  /-- It takes the command to poll for ever. -/
  | reset
  deriving DecidableEq

namespace Beat

variable {beats : List Beat}

/-- Whether a poller goes to rest after a round that found nothing. -/
def isFruitless : Beat → Bool
  | .pause found _ => !found
  | .reset => false

/-- How many fruitless rounds there were since the last that found something, or since the poller
was told to poll for ever. -/
def streak (beats : List Beat) : Nat := (beats.reverse.takeWhile isFruitless).length

@[simp] theorem streak_nil : streak [] = 0 := rfl

/-- A fruitless round makes the streak longer. -/
@[simp] theorem streak_concat_fruitless (beats : List Beat) (wait : Nat) :
    streak (beats ++ [.pause false wait]) = streak beats + 1 := by
  simp [streak, isFruitless]

/-- A fruitful round ends the streak. -/
@[simp] theorem streak_concat_fruitful (beats : List Beat) (wait : Nat) :
    streak (beats ++ [.pause true wait]) = 0 := by
  simp [streak, isFruitless]

@[simp] theorem streak_concat_reset (beats : List Beat) : streak (beats ++ [.reset]) = 0 := by
  simp [streak, isFruitless]

end Beat

namespace Settings

variable (s : Settings)

/-- How many nanoseconds a poller rests after one more fruitless round, if it had so many in a row
before. -/
def fruitlessWait : Nat → Nat
  | 0 => s.pollInterval.nanoseconds
  | k + 1 => min (s.pollInterval.nanoseconds * 2 ^ (k + 1)) s.maxPollInterval.nanoseconds

/-- From one fruitless round to the next, the wait is doubled and then cut to the longest. -/
theorem fruitlessWait_succ (k : Nat) :
    s.fruitlessWait (k + 1) = min (2 * s.fruitlessWait k) s.maxPollInterval.nanoseconds := by
  cases k with
  | zero =>
    rw [fruitlessWait, fruitlessWait, Nat.pow_one, Nat.mul_comm]
  | succ k =>
    rw [fruitlessWait, fruitlessWait, Nat.pow_succ 2 (k + 1), ← Nat.mul_assoc]
    omega

/-- If the poll interval is not above the longest, the wait is cut from the beginning. -/
theorem fruitlessWait_eq_min (fits : s.pollInterval.nanoseconds ≤ s.maxPollInterval.nanoseconds)
    (k : Nat) :
    s.fruitlessWait k =
      min (s.pollInterval.nanoseconds * 2 ^ k) s.maxPollInterval.nanoseconds := by
  cases k with
  | zero => rw [fruitlessWait, Nat.pow_zero, Nat.mul_one, Nat.min_eq_left fits]
  | succ k => rfl

/-- The longer a poller finds nothing, the longer it waits. -/
theorem fruitlessWait_le_succ
    (fits : s.pollInterval.nanoseconds ≤ s.maxPollInterval.nanoseconds) (k : Nat) :
    s.fruitlessWait k ≤ s.fruitlessWait (k + 1) := by
  have hcut := s.fruitlessWait_eq_min fits k
  have hnext := s.fruitlessWait_succ k
  omega

end Settings

namespace Backoff

variable {settings : Settings} {backoff : Span} {pause : Pause} {k : Nat}

/-- After a fruitless round a poller rests for its backoff, which then becomes the next wait and has
not left the range when it was doubled. -/
theorem fruitless_of_pause? (wait : backoff.nanoseconds = settings.fruitlessWait k)
    (pauses : pause? settings backoff false = some pause) :
    pause.wait = backoff ∧ pause.next.nanoseconds = settings.fruitlessWait (k + 1) ∧
      2 * settings.fruitlessWait k < UInt64.size * 1000000000 := by
  rw [pause?, if_neg Bool.false_ne_true] at pauses
  obtain ⟨doubled, hdoubled, rfl⟩ := Option.map_eq_some_iff.mp pauses
  rw [Span.double?_eq_some, wait] at hdoubled
  refine ⟨rfl, ?_, hdoubled ▸ doubled.inRange⟩
  rw [Span.nanoseconds_shorter, hdoubled, Settings.fruitlessWait_succ]

/-- There is a wait after every round that found something, and after a fruitless one if the backoff
can be doubled. -/
theorem isSome_pause? (found : Bool)
    (doubles : 2 * backoff.nanoseconds < UInt64.size * 1000000000) :
    (pause? settings backoff found).isSome = true := by
  unfold pause?
  split
  · rfl
  · rw [Option.isSome_map, Span.double?, Span.ofNanoseconds?, dif_pos doubles]
    rfl

end Backoff

/-- A poller keeps its backoff when it is told something. -/
theorem Poller.IsTold.backoff {p q : Poller} (h : p.IsTold q) : q.backoff = p.backoff := by
  obtain ⟨_, _, rfl⟩ := h
  rfl

namespace Poller

variable {settings : Settings} {now : Instant} {p q : Poller}

/-- The beat that a poller marks in going from one state to another at some time. -/
def beat? (now : Instant) (p q : Poller) : Option Beat :=
  match p.stage, q.stage with
  | .rounding (.over found), .resting (some wake) => some (.pause found (wake - now))
  | .resting _, .rounding _ =>
    if .pollForever ∈ p.inbox ∧ q.inbox = [] then some .reset else none
  | _, _ => none

/-- A poller whose work stays where it is marks no beat. -/
theorem beat?_of_same (now : Instant) (same : q.stage = p.stage) : beat? now p q = none := by
  unfold beat?
  rw [same]
  cases p.stage with
  | rounding round => cases round <;> rfl
  | _ => rfl

/-- A poller that is over has no beat. -/
theorem beat?_of_ended (now : Instant) (ended : q.stage = .ended) : beat? now p q = none := by
  unfold beat?
  rw [ended]
  cases p.stage with
  | rounding round => cases round <;> rfl
  | _ => rfl

/-- A poller inside a round marks no beat. -/
theorem beat?_of_round? (now : Instant) {round next : Round} (before : p.stage.round? = some round)
    (after : q.stage.round? = some next) : beat? now p q = none := by
  unfold beat?
  cases hp : p.stage with
  | rounding round =>
    cases hq : q.stage with
    | resting wake =>
      rw [hq] at after
      cases after
    | _ => cases round <;> rfl
  | resting wake =>
    rw [hp] at before
    cases before
  | _ => rfl

/-- Commands leave the backoff as it is, or the command to poll for ever sets it back. -/
theorem backoff_takeCommands (settings : Settings) (p : Poller) :
    (p.takeCommands settings).backoff =
      if .pollForever ∈ p.inbox then settings.pollInterval else p.backoff := by
  have hfold (commands : List Command) (p : Poller) :
      (commands.foldl (apply settings) p).backoff =
        if .pollForever ∈ commands then settings.pollInterval else p.backoff := by
    induction commands generalizing p with
    | nil => rfl
    | cons command rest ih =>
      rw [List.foldl_cons, ih]
      cases command with
      | hint e => simp [apply]
      | pollForever => simp [apply]
  exact hfold p.inbox p

end Poller

namespace Watch

variable {settings : Settings} {u v w : Watch} {id : PollerId} {p q : Poller} {action : Action}
  {past : List Beat}

/-- The beat that a poller marks in what happens. -/
def beatIn? (w : Watch) (id : PollerId) (action : Action) : Option Beat :=
  match w.pollers[id]?, (w.act action).pollers[id]? with
  | some p, some q => p.beat? w.now q
  | _, _ => none

/-- The beats that a poller marks along some actions, in order. -/
def beats (w : Watch) (id : PollerId) : List Action → List Beat
  | [] => []
  | action :: rest => (w.beatIn? id action).toList ++ (w.act action).beats id rest

/-! ## The backoff keeps time -/

/-- A poller that has marked some beats is going to rest, after the next fruitless round, for as
long as it should after so many fruitless rounds in a row. -/
def InTime (settings : Settings) (past : List Beat) (p : Poller) : Prop :=
  p.backoff.nanoseconds = settings.fruitlessWait (Beat.streak past)

/-- A pause is as long as it should be after some beats. -/
inductive IsTimely (settings : Settings) (past : List Beat) : Beat → Prop where
  | fruitful : IsTimely settings past (.pause true settings.pollInterval.nanoseconds)
  | fruitless (wait : Nat) (is : wait = settings.fruitlessWait (Beat.streak past))
      (doubles : 2 * wait < UInt64.size * 1000000000) :
      IsTimely settings past (.pause false wait)
  | reset : IsTimely settings past .reset

/-- A poller that marks no beat and keeps its backoff stays in time. -/
theorem InTime.quiet {now : Instant} (inTime : InTime settings past p)
    (quiet : p.beat? now q = none) (same : q.backoff = p.backoff) :
    InTime settings (past ++ (p.beat? now q).toList) q ∧
      ∀ beat ∈ p.beat? now q, IsTimely settings past beat := by
  rw [quiet, Option.toList_none, List.append_nil, InTime, same]
  exact ⟨inTime, fun beat hm => by cases hm⟩

/-- What a stride does to the pace of a poller. -/
theorem inTime_strides (strides : w.Strides id p v q) (inTime : InTime w.settings past p) :
    InTime w.settings (past ++ (p.beat? w.now q).toList) q ∧
      ∀ beat ∈ p.beat? w.now q, IsTimely w.settings past beat := by
  cases strides with
  | waits idle => exact inTime.quiet (Poller.beat?_of_same _ rfl) rfl
  | quits cancelled marked kept => exact inTime.quiet (Poller.beat?_of_ended _ rfl) rfl
  | leaves wake rests empty unreferred marked kept =>
    exact inTime.quiet (Poller.beat?_of_ended _ rfl) rfl
  | begins between going marked kept =>
    refine inTime.quiet ?_ rfl
    unfold Poller.beat?
    cases hstage : p.stage with
    | resting wake =>
      refine if_neg fun hboth => ?_
      have hempty : p.inbox = [] := hboth.2
      rw [hempty] at hboth
      exact absurd hboth.1 List.not_mem_nil
    | rounding round =>
      rw [hstage] at between
      cases between
    | _ => rfl
  | takes wake rests =>
    have hbeat : p.beat? w.now (p.takeCommands w.settings).beginRound =
        if .pollForever ∈ p.inbox then some .reset else none := by
      unfold Poller.beat?
      rw [rests]
      change (if .pollForever ∈ p.inbox ∧ ([] : List Poller.Command) = [] then _ else _) = _
      simp only [and_true]
    have hback : (p.takeCommands w.settings).beginRound.backoff =
        if .pollForever ∈ p.inbox then w.settings.pollInterval else p.backoff :=
      p.backoff_takeCommands w.settings
    rw [hbeat, InTime, hback]
    split
    · rw [Option.toList_some, Beat.streak_concat_reset]
      exact ⟨rfl, fun beat hm => Option.some.inj hm ▸ .reset⟩
    · rw [Option.toList_none, List.append_nil]
      exact ⟨inTime, fun beat hm => by cases hm⟩
  | steps round next stage steps =>
    have hround : p.stage.round? = some round := by rw [stage]; rfl
    exact inTime.quiet (Poller.beat?_of_round? _ hround rfl) rfl
  | asks round request flight stage asks =>
    have hround : p.stage.round? = some round := by rw [stage]; rfl
    exact inTime.quiet (Poller.beat?_of_round? _ hround rfl) rfl
  | hears round next reply stage asks taken hears =>
    exact inTime.quiet (Poller.beat?_of_round? _ stage rfl) rfl
  | abandons gone rounds => exact inTime.quiet (Poller.beat?_of_ended _ rfl) rfl
  | rests found stage mode =>
    refine inTime.quiet ?_ rfl
    unfold Poller.beat?
    rw [stage]
  | pauses found pause stage mode pauses =>
    have hbeat (r : Poller) (hr : r.stage = .resting (some (w.now + pause.wait.nanoseconds))) :
        p.beat? w.now r = some (.pause found pause.wait.nanoseconds) := by
      unfold Poller.beat?
      rw [stage, hr]
      dsimp only
      rw [Nat.add_sub_cancel_left]
    rw [hbeat _ rfl, InTime]
    cases found with
    | true =>
      rw [Backoff.pause?, if_pos rfl] at pauses
      cases pauses
      rw [Option.toList_some, Beat.streak_concat_fruitful]
      exact ⟨rfl, fun beat hm => Option.some.inj hm ▸ .fruitful⟩
    | false =>
      obtain ⟨hwait, hnext, hrange⟩ := Backoff.fruitless_of_pause? inTime pauses
      rw [Option.toList_some, Beat.streak_concat_fruitless, hwait]
      refine ⟨hnext, fun beat hm => Option.some.inj hm ▸ .fruitless _ inTime ?_⟩
      rw [inTime]
      exact hrange
  | overflows found stage mode exceeds => exact inTime.quiet (Poller.beat?_of_ended _ rfl) rfl

/-- What becomes of a poller leaves it in time. -/
theorem inTime_becomes (becomes : w.Becomes id p action q) (inTime : InTime w.settings past p) :
    InTime w.settings (past ++ (p.beat? w.now q).toList) q ∧
      ∀ beat ∈ p.beat? w.now q, IsTimely w.settings past beat := by
  cases becomes with
  | told action idle q told => exact inTime.quiet (Poller.beat?_of_same _ told.stage) told.backoff
  | turns q strides => exact inTime_strides strides inTime
  | wakes due rests =>
    have hwakes : w.Strides id p w p.beginRound := strides_wake rests w
    exact inTime_strides hwakes inTime
  | crashes => exact inTime.quiet (Poller.beat?_of_ended _ rfl) rfl

/-- A poller that was made marks time from the start, and one that is not there marks none. -/
def Marks (settings : Settings) (past : List Beat) (id : PollerId) (w : Watch) : Prop :=
  match w.pollers[id]? with
  | some p => InTime settings past p
  | none => past = []

/-- In every action the poller keeps to its marks, and its next pause is timely. -/
theorem Marks.act (marks : Marks settings past id w) (regular : w.Regular settings)
    (action : Action) :
    Marks settings (past ++ (w.beatIn? id action).toList) id (w.act action) ∧
      ∀ beat ∈ w.beatIn? id action, IsTimely settings past beat := by
  have hsettings := regular.settings
  unfold Marks beatIn?
  cases hfound : w.pollers[id]? with
  | some p =>
    rw [Marks, hfound] at marks
    obtain ⟨q, hq, hbecomes⟩ := regular.becomes hfound action
    rw [hq]
    exact hsettings ▸ inTime_becomes hbecomes (hsettings ▸ marks)
  | none =>
    rw [Marks, hfound] at marks
    have hpast : past = [] := marks
    subst hpast
    refine ⟨?_, fun beat hm => by cases hm⟩
    cases hq : (w.act action).pollers[id]? with
    | none => rfl
    | some q =>
      obtain ⟨key, origin, mode, stage, rfl, -⟩ := made_act hfound hq
      exact congrArg Span.nanoseconds (congrArg Settings.pollInterval hsettings)

/-- All beats of a poller come in time, whatever happens. -/
theorem timely_beats (marks : Marks settings past id w) (regular : w.Regular settings)
    (actions : List Action) :
    Marks settings (past ++ w.beats id actions) id (w.run actions) ∧
      ∀ earlier beat later, w.beats id actions = earlier ++ beat :: later →
        IsTimely settings (past ++ earlier) beat := by
  induction actions generalizing w past with
  | nil =>
    refine ⟨?_, fun earlier beat later he => ?_⟩
    · rw [beats, List.append_nil]
      exact marks
    · cases earlier <;> cases he
  | cons action rest ih =>
    obtain ⟨hmarks, htimely⟩ := marks.act regular action
    obtain ⟨hrest, hlater⟩ := ih hmarks (regular_act regular action)
    rw [beats, ← List.append_assoc]
    refine ⟨hrest, fun earlier beat later he => ?_⟩
    cases hfirst : w.beatIn? id action with
    | none =>
      rw [hfirst, Option.toList_none, List.nil_append] at he
      have hbeat := hlater earlier beat later he
      rw [hfirst, Option.toList_none, List.append_nil] at hbeat
      exact hbeat
    | some first =>
      rw [hfirst, Option.toList_some, List.singleton_append] at he
      cases earlier with
      | nil =>
        obtain ⟨rfl, -⟩ := List.cons.inj he
        rw [List.append_nil]
        exact htimely first hfirst
      | cons other earlier =>
        obtain ⟨rfl, hrest⟩ := List.cons.inj he
        have hbeat := hlater earlier beat later hrest
        rw [hfirst, Option.toList_some, List.append_assoc] at hbeat
        exact hbeat

/-- The pauses of a poller, however its rounds come out, whatever it is told in between and whatever
else happens. After a round that found something it rests for the poll interval. After a fruitless
one it rests for as long as its fruitless rounds in a row demand: at first for the poll interval,
which nothing cuts, then twice as long each time, cut to the longest interval. So the first pause
after one that followed on a find is the poll interval again. If the poll interval is not above the
longest, the wait is the cut one from the beginning, no pause is longer than the longest interval,
and pauses in a row do not get shorter. -/
theorem pauses_double (settings : Settings) (listeners : List Listener)
    (actions : List Action) (id : PollerId) :
    let beats := (initial settings listeners).beats id actions
    let poll := settings.pollInterval.nanoseconds
    let longest := settings.maxPollInterval.nanoseconds
    (∀ earlier found wait later, beats = earlier ++ .pause found wait :: later →
      wait = if found then poll else settings.fruitlessWait (Beat.streak earlier)) ∧
    (∀ earlier before found wait later,
      beats = earlier ++ .pause true before :: .pause found wait :: later → wait = poll) ∧
    (poll ≤ longest →
      (∀ k, settings.fruitlessWait k = min (poll * 2 ^ k) longest) ∧
      (∀ wait, .pause false wait ∈ beats → wait ≤ longest) ∧
      ∀ earlier first second later,
        beats = earlier ++ .pause false first :: .pause false second :: later → first ≤ second) := by
  intro beats poll longest
  have htimely (earlier : List Beat) (found : Bool) (wait : Nat) (later : List Beat)
      (he : beats = earlier ++ .pause found wait :: later) :
      wait = if found then poll else settings.fruitlessWait (Beat.streak earlier) := by
    have hmarks : Marks settings [] id (initial settings listeners) := rfl
    have hbeat := (timely_beats hmarks (regular_initial settings listeners) actions).2 earlier
      (.pause found wait) later he
    cases hbeat with
    | fruitful => rfl
    | fruitless _ is => exact is
  refine ⟨htimely, fun earlier before found wait later he => ?_, fun fits => ⟨?_, ?_, ?_⟩⟩
  · have hwait := htimely (earlier ++ [.pause true before]) found wait later (by simpa using he)
    rw [Beat.streak_concat_fruitful] at hwait
    cases found <;> exact hwait
  · exact settings.fruitlessWait_eq_min fits
  · intro wait hm
    obtain ⟨earlier, later, he⟩ := List.append_of_mem hm
    rw [htimely earlier false wait later he, if_neg Bool.false_ne_true,
      settings.fruitlessWait_eq_min fits]
    exact Nat.min_le_right _ _
  · intro earlier first second later he
    have hfirst := htimely earlier false first _ he
    have hsecond := htimely (earlier ++ [.pause false first]) false second later (by simpa using he)
    rw [if_neg Bool.false_ne_true] at hfirst hsecond
    rw [Beat.streak_concat_fruitless] at hsecond
    rw [hfirst, hsecond]
    exact settings.fruitlessWait_le_succ fits _

/-- With a poll interval of 10 seconds and a longest one of 35, a poller that finds nothing rests
for 10, 20, 35 and 35 seconds. -/
theorem pauses_double_up_to_longest :
    let notes : DocumentKey := ⟨.uniform 7, "notes"⟩
    let settings : Settings := { Settings.standard with
      pollInterval := .ofMilliseconds 10000, maxPollInterval := .ofMilliseconds 35000
      minFailures := 1 }
    let second : Nat := 1000000000
    let round : List Action := List.replicate 8 (.work (.poller 0))
    let after (n : Nat) : List Action := .elapse (n * second) :: round
    let actions : List Action :=
      .subscribe notes "ann" { background := true } :: round ++ after 10 ++ after 20 ++
        after 35
    let beats := (initial settings []).beats 0 actions
    beats = [.pause false (10 * second), .pause false (20 * second), .pause false (35 * second),
      .pause false (35 * second)] ∧
      ∀ wait, .pause false wait ∈ beats → wait ≤ settings.maxPollInterval.nanoseconds := by
  intro notes settings second round after actions beats
  have hbeats : beats = [.pause false (10 * second), .pause false (20 * second),
      .pause false (35 * second), .pause false (35 * second)] := by decide +kernel
  exact ⟨hbeats, ((pauses_double settings [] actions 0).2.2 (by decide)).2.1⟩

/-- With a poll interval of 40 seconds and a longest one of 10, which can be loaded, the first pause
is longer than the longest interval, and the second is shorter than the first. -/
theorem pause_beyond_longest :
    let notes : DocumentKey := ⟨.uniform 7, "notes"⟩
    let text := "poll_interval = \"40s\"\nmax_poll_interval = \"10s\"\n"
    let settings : Settings := { Settings.standard with
      pollInterval := .ofMilliseconds 40000, maxPollInterval := .ofMilliseconds 10000 }
    let second : Nat := 1000000000
    let round : List Action := List.replicate 12 (.work (.poller 0))
    let actions : List Action :=
      .subscribe notes "ann" { background := true } :: round ++
        .elapse (40 * second) :: round
    Settings.load (some text.toUTF8) = .ok settings ∧
      (initial settings []).beats 0 actions =
        [.pause false (40 * second), .pause false (10 * second)] ∧
      settings.maxPollInterval.nanoseconds < 40 * second :=
  ⟨Settings.load_toUTF8 (by decide +kernel), by decide +kernel, by decide⟩

end Watch

end EditionWatch
