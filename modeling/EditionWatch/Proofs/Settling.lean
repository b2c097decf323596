import EditionWatch.Proofs.Overflows

/-!
# No hint is lost

A hint waits in the inbox of its poller until the poller takes all it was told, and then it is in
the list with which a round begins. The round goes through the list, newest hint first: it drops
those that have become known, probes the others, and stops at the first that exists, which makes the
older ones known. So when it is done with its hints, each of them is known or was probed and did not
show up, whatever was noted meanwhile by others. A poller that nobody cancelled ends only when it
has taken all it was told, or by mishap: the executor does not take it, a fetch of it breaks down,
or its wait is too long to be said. What it was told by then and has not settled is lost with it,
and whoever goes on telling it something does not learn that its work is over.
-/

namespace EditionWatch

/-- What marks how a poller deals with its hints. -/
inductive Mark where
  /-- A round begins with these hints. -/
  | took (hints : List Edition)
  /-- The reply to the probe of a hint came. -/
  | probed (edition : Edition) (verdict : Verdict)
  /-- The round is done with its hints, and this is the slot. -/
  | ended (slot : Option Edition)
  deriving DecidableEq

namespace Mark

variable {e : Edition} {during marks more : List Mark} {slot : Option Edition}

/-- Whether a mark is left between the beginning and the end of a round's dealing with its hints. -/
def IsProbe (mark : Mark) : Prop := ∃ edition verdict, mark = .probed edition verdict

/-- The marks end inside a round that began with some hint, and it left these since it began. -/
def Inside (e : Edition) (during marks : List Mark) : Prop :=
  ∃ before hints, marks = before ++ .took hints :: during ∧ e ∈ hints ∧ ∀ m ∈ during, m.IsProbe

/-- An edition was probed and did not show up. -/
def Missed (e : Edition) (during : List Mark) : Prop :=
  ∃ verdict, verdict ≠ .present ∧ .probed e verdict ∈ during

/-- A round that began with some hint settled it: when the round was done with its hints, the slot
was not below the hint, or the round had probed it and it had not shown up. -/
def Settled (e : Edition) (marks : List Mark) : Prop :=
  ∃ inside during slot after, marks = inside ++ .ended slot :: after ∧ Inside e during inside ∧
    (some e ≤ slot ∨ Missed e during)

/-- What was settled stays settled. -/
theorem Settled.append (h : Settled e marks) (more : List Mark) : Settled e (marks ++ more) := by
  obtain ⟨inside, during, slot, after, rfl, hinside, hsettles⟩ := h
  exact ⟨inside, during, slot, after ++ more, by simp, hinside, hsettles⟩

/-- A probe within a round is a mark of this round. -/
theorem Inside.probe (h : Inside e during marks) (edition : Edition) (verdict : Verdict) :
    Inside e (during ++ [.probed edition verdict]) (marks ++ [.probed edition verdict]) := by
  obtain ⟨before, hints, rfl, hin, hprobes⟩ := h
  refine ⟨before, hints, by simp, hin, fun m hm => ?_⟩
  rcases List.mem_append.mp hm with hm | hm
  · exact hprobes m hm
  · exact ⟨edition, verdict, List.mem_singleton.mp hm⟩

/-- A hint is settled when a round ends that missed it or came to it. -/
theorem Inside.settled (h : Inside e during marks) (settles : some e ≤ slot ∨ Missed e during) :
    Settled e (marks ++ [.ended slot]) :=
  ⟨marks, during, slot, [], rfl, h, settles⟩

/-- What was missed stays missed. -/
theorem Missed.append (h : Missed e during) (more : List Mark) : Missed e (during ++ more) := by
  obtain ⟨verdict, hmissed, hin⟩ := h
  exact ⟨verdict, hmissed, List.mem_append_left more hin⟩

end Mark

namespace Round

/-- The hints that a round has not dealt with yet. -/
def pending? : Round → Option (List Edition)
  | .opening hints => some hints
  | .hinting hints => some hints
  | .askingHint e hints => some (e :: hints)
  | _ => none

/-- The hint that a round is probing. -/
def probing? : Round → Option Edition
  | .askingHint e _ => some e
  | _ => none

end Round

namespace Poller.Stage

/-- The hints that a poller has begun to deal with and has not dealt with yet. -/
def pending? (stage : Poller.Stage) : Option (List Edition) := stage.round?.bind Round.pending?

/-- Whether a round is about to go on with its hints, or done with them. -/
def isPastProbe : Poller.Stage → Bool
  | .rounding (.hinting _) => true
  | .rounding (.aligning _) => true
  | _ => false

/-- Whether a round is done with its hints. -/
def isDone : Poller.Stage → Bool
  | .rounding (.aligning _) => true
  | _ => false

end Poller.Stage

namespace Watch

variable {settings : Settings} {u v w : Watch} {id : PollerId} {p q : Poller} {action : Action}
  {e : Edition} {past : List Mark}

/-- The marks that a poller leaves in going from one state to another. -/
def marksOf (w v : Watch) (p q : Poller) : List Mark :=
  (if p.stage.pending?.isNone then q.stage.opening?.toList.map .took else []) ++
    (if q.stage.isPastProbe then
      (p.stage.round?.bind Round.probing?).toList.flatMap fun e =>
        ((w.fetchIn p).bind (·.answer w.now)).toList.map fun reply => .probed e reply.verdict
      else []) ++
    if p.stage.pending?.isSome && q.stage.isDone then [.ended (v.records.frontier p.key).slot]
    else []

/-- The marks that a poller leaves in what happens. -/
def marksIn (w : Watch) (id : PollerId) (action : Action) : List Mark :=
  match w.pollers[id]?, (w.act action).pollers[id]? with
  | some p, some q => marksOf w (w.act action) p q
  | _, _ => []

/-- The marks that a poller leaves along some actions, in order. -/
def trail (w : Watch) (id : PollerId) : List Action → List Mark
  | [] => []
  | action :: rest => w.marksIn id action ++ (w.act action).trail id rest

/-- A poller whose work stays where it is leaves no mark. -/
theorem marksOf_of_same (same : q.stage = p.stage) : marksOf w v p q = [] := by
  unfold marksOf
  rw [same]
  cases p.stage with
  | rounding round => cases round <;> rfl
  | waiting round flight => cases round <;> rfl
  | _ => rfl

/-- A round that is not done with its hints leaves a mark only when it hears of one. -/
theorem marksOf_of_pending (pending : p.stage.pending?.isSome = true)
    (silent : p.stage.round?.bind Round.probing? = none ∨ q.stage.isPastProbe = false)
    (going : q.stage.isDone = false) : marksOf w v p q = [] := by
  rw [marksOf, pending, going, Option.isNone_eq_false_iff.mpr pending]
  rcases silent with hnone | hbefore
  · rw [hnone]
    cases q.stage.isPastProbe <;> rfl
  · rw [hbefore]
    rfl

/-- A poller that begins a round leaves a mark of its hints. -/
theorem marksOf_beginRound (between : p.stage.isInRound = false)
    {hints : List Edition} (opens : q.stage = .rounding (.opening hints)) :
    marksOf w v p q = [.took hints] := by
  unfold marksOf
  rw [opens]
  cases hs : p.stage with
  | rounding round => rw [hs] at between; cases between
  | waiting round flight => rw [hs] at between; cases between
  | _ => rfl

end Watch

namespace Round

variable {e hint : Edition} {hints : List Edition}

/-- Hints stay among the hints when one is added. -/
theorem mem_addHint_of_mem (e : Edition) (h : hint ∈ hints) : hint ∈ addHint e hints := by
  induction hints with
  | nil => cases h
  | cons first rest ih =>
    rw [addHint]
    split
    · exact List.mem_cons_of_mem e h
    · split
      · exact h
      · rcases List.mem_cons.mp h with hfirst | hrest
        · exact List.mem_cons.mpr (.inl hfirst)
        · exact List.mem_cons_of_mem first (ih hrest)

/-- An edition is among the hints once it was added. -/
theorem mem_addHint_self (e : Edition) (hints : List Edition) : e ∈ addHint e hints := by
  induction hints with
  | nil => exact List.mem_singleton_self e
  | cons first rest ih =>
    rw [addHint]
    split
    · exact List.mem_cons_self
    · split
      case isTrue hsame => exact hsame ▸ List.mem_cons_self
      case isFalse => exact List.mem_cons_of_mem first ih

end Round

namespace Poller

variable {p q : Poller} {e : Edition} {past during : List Mark} {slot : Option Edition}

/-- A poller that takes its commands takes every hint that it was sent. -/
theorem mem_hints_takeCommands (settings : Settings) (sent : .hint e ∈ p.inbox) :
    e ∈ (p.takeCommands settings).hints := by
  have hfold (commands : List Command) (p : Poller)
      (h : .hint e ∈ commands ∨ e ∈ p.hints) :
      e ∈ (commands.foldl (apply settings) p).hints := by
    induction commands generalizing p with
    | nil => exact h.resolve_left List.not_mem_nil
    | cons command rest ih =>
      refine ih _ ?_
      rcases h with h | h
      · rcases List.mem_cons.mp h with rfl | h
        · exact .inr (Round.mem_addHint_self e p.hints)
        · exact .inl h
      · right
        cases command with
        | hint other => exact Round.mem_addHint_of_mem other h
        | pollForever => exact h
  exact hfold p.inbox p (.inl sent)

/-- What may have become of a hint that a round began with: it is still to come, or it has become
known, or it was probed and did not show up. -/
def Dealt (e : Edition) (pending : List Edition) (slot : Option Edition) (during : List Mark) :
    Prop :=
  e ∈ pending ∨ some e ≤ slot ∨ Mark.Missed e during

/-- What was dealt with is so when the slot rises. -/
theorem Dealt.rises {pending : List Edition} {higher : Option Edition}
    (h : Dealt e pending slot during) (rises : slot ≤ higher) : Dealt e pending higher during :=
  h.imp_right (.imp_left fun covered => slot_le_trans covered rises)

/-- When no hint is to come any more, all are settled. -/
theorem Dealt.settles (h : Dealt e [] slot during) : some e ≤ slot ∨ Mark.Missed e during :=
  h.resolve_left List.not_mem_nil

/-- A hint below the first unknown edition is known. -/
theorem covered_of_lt_nextUnknown {frontier : Frontier} (h : e < frontier.nextUnknown) :
    some e ≤ frontier.slot := by
  cases habove : isAbove e frontier.slot with
  | true =>
    have hle : frontier.nextUnknown ≤ e := Frontier.nextUnknown_le_of_isAbove habove
    exact absurd h (UInt64.not_lt.mpr hle)
  | false => exact raised_of_not_isAbove habove ▸ some_le_raised frontier.slot e

/-- Where a hint is that was sent to a poller. -/
inductive Heeds (q : Poller) (e : Edition) (past : List Mark) (slot : Option Edition) : Prop where
  /-- It waits in the inbox of a poller that goes on with its work. -/
  | waits (going : q.isOver = false) (here : .hint e ∈ q.inbox)
  /-- It was in the list of a round that is still dealing with its hints. -/
  | deals (during : List Mark) (pending : List Edition) (inside : Mark.Inside e during past)
      (stage : q.stage.pending? = some pending) (falls : Round.Falls pending)
      (dealt : Dealt e pending slot during)
  /-- It was settled. -/
  | settled (settled : Mark.Settled e past)

/-- A poller has not lost a hint that was sent to it: the hint waits in the inbox of a poller that
goes on with its work, or it was in the list of a round that is still dealing with its hints, or it
was in the list of a round that settled it. -/
def Minds (q : Poller) (e : Edition) (slot : Option Edition) (marks : List Mark) : Prop :=
  (q.isOver = false ∧ .hint e ∈ q.inbox) ∨
    (∃ during pending, Mark.Inside e during marks ∧ q.stage.pending? = some pending ∧
      Dealt e pending slot during) ∨
    Mark.Settled e marks

/-- A poller that heeds a hint has it in mind. -/
theorem Heeds.minds (h : q.Heeds e past slot) : q.Minds e slot past := by
  cases h with
  | waits going here => exact .inl ⟨going, here⟩
  | deals during pending inside stage falls dealt =>
    exact .inr (.inl ⟨during, pending, inside, stage, dealt⟩)
  | settled settled => exact .inr (.inr settled)

/-- A poller that left no mark minds at most what is in its inbox. -/
theorem not_minds_of_silent (lost : .hint e ∉ q.inbox) : ¬q.Minds e slot [] := by
  rintro (⟨-, here⟩ | ⟨during, pending, ⟨before, hints, hmarks, -⟩, -⟩ |
    ⟨inside, during, higher, after, hmarks, -⟩)
  · exact lost here
  · exact List.append_ne_nil_of_right_ne_nil before (List.cons_ne_nil _ _) hmarks.symm
  · exact List.append_ne_nil_of_right_ne_nil inside (List.cons_ne_nil _ _) hmarks.symm

end Poller

namespace Watch

variable {settings : Settings} {u v w : Watch} {id : PollerId} {p q : Poller} {action : Action}
  {e : Edition} {past during : List Mark} {pending : List Edition}

/-- If a poller leaves no mark, a hint is dealt with as before or further. -/
theorem heeds_of_silent {slot : Option Edition} (inside : Mark.Inside e during past)
    (silent : marksOf w v p q = []) (stage : q.stage.pending? = some pending)
    (falls : Round.Falls pending) (dealt : Poller.Dealt e pending slot during) :
    q.Heeds e (past ++ marksOf w v p q) slot := by
  rw [silent, List.append_nil]
  exact .deals during pending inside stage falls dealt

/-- What a round that deals with its hints makes of one of them when it goes on by itself. -/
theorem heeds_steps {round next : Round}
    (steps : Round.Steps w.settings p.origin (w.records.frontier p.key) round next)
    (rounds : p.stage = .rounding round) (pends : round.pending? = some pending)
    (rises : (w.records.frontier p.key).slot ≤ (v.records.frontier p.key).slot)
    (inside : Mark.Inside e during past) (falls : Round.Falls pending)
    (dealt : Poller.Dealt e pending (w.records.frontier p.key).slot during) :
    let q : Poller := { p with stage := .rounding next }
    q.Heeds e (past ++ marksOf w v p q) (v.records.frontier p.key).slot := by
  intro q
  have hdealt := dealt.rises rises
  have hsilent (probing : round.probing? = none) (going : q.stage.isDone = false) :
      marksOf w v p q = [] := by
    refine marksOf_of_pending ?_ (.inl ?_) going
    · rw [rounds, Poller.Stage.pending?, Poller.Stage.round?, Option.bind_some, pends]
      rfl
    · rw [rounds]
      exact probing
  -- a hint that the frontier is past has become known
  have hknown {hint : Edition} (below : hint < (w.records.frontier p.key).nextUnknown) :
      some hint ≤ (v.records.frontier p.key).slot :=
    slot_le_trans (Poller.covered_of_lt_nextUnknown below) rises
  cases steps with
  | selects hints =>
    cases pends
    refine heeds_of_silent inside (hsilent rfl rfl) rfl (List.Pairwise.filter _ falls) ?_
    rcases hdealt with hin | hdone
    · by_cases hunknown : (w.records.frontier p.key).nextUnknown ≤ e
      · exact .inl (List.mem_filter.mpr ⟨hin, decide_eq_true hunknown⟩)
      · exact .inr (.inl (hknown (UInt64.not_le.mp hunknown)))
    · exact .inr hdone
  | passes =>
    cases pends
    have hmarks : marksOf w v p q = [.ended (v.records.frontier p.key).slot] := by
      rw [marksOf, rounds]
      rfl
    rw [hmarks]
    exact .settled (inside.settled hdealt.settles)
  | tries other hints =>
    cases pends
    by_cases hpassed : other < (w.records.frontier p.key).nextUnknown
    · have hq : q.stage = .rounding (.hinting hints) := congrArg _ (if_pos hpassed)
      refine heeds_of_silent inside (hsilent rfl (by rw [hq]; rfl)) (by rw [hq]; rfl)
        (List.Pairwise.of_cons falls) ?_
      rcases hdealt with hin | hdone
      · rcases List.mem_cons.mp hin with rfl | hin
        · exact .inr (.inl (hknown hpassed))
        · exact .inl hin
      · exact .inr hdone
    · have hq : q.stage = .rounding (.askingHint other hints) := congrArg _ (if_neg hpassed)
      exact heeds_of_silent inside (hsilent rfl (by rw [hq]; rfl)) (by rw [hq]; rfl) falls hdealt
  | _ => cases pends

/-- What a round that deals with its hints makes of one of them when it hears a reply. -/
theorem heeds_hears {round next : Round} {reply : Reply}
    (hears : Round.Hears reply.verdict (v.records.frontier p.key).slot round next)
    (rounds : p.stage.round? = some round) (pends : round.pending? = some pending)
    (taken : (w.fetchIn p).bind (·.answer w.now) = some reply)
    (inside : Mark.Inside e during past) (falls : Round.Falls pending)
    (dealt : Poller.Dealt e pending (v.records.frontier p.key).slot during) :
    let q : Poller := { p with stage := .rounding next }
    q.Heeds e (past ++ marksOf w v p q) (v.records.frontier p.key).slot := by
  intro q
  have hmarks (hint : Edition) (probing : round.probing? = some hint)
      (past : q.stage.isPastProbe = true) :
      marksOf w v p q = .probed hint reply.verdict ::
        if q.stage.isDone then [.ended (v.records.frontier p.key).slot] else [] := by
    have hpending : p.stage.pending?.isSome = true := by
      rw [Poller.Stage.pending?, rounds, Option.bind_some, pends]
      rfl
    rw [marksOf, hpending, Option.isNone_eq_false_iff.mpr hpending, past, rounds,
      Option.bind_some, probing, taken]
    rfl
  cases hears with
  | hintFound hint hints raised present covers =>
    cases pends
    rw [hmarks hint rfl rfl, List.append_cons]
    refine .settled ((inside.probe hint reply.verdict).settled ?_)
    rcases dealt with hin | hcovered | hmissed
    · -- the hints that are left are older, so the one found makes them known
      left
      rcases List.mem_cons.mp hin with rfl | hin
      · exact covers
      · have holder : e < hint := List.rel_of_pairwise_cons falls hin
        exact slot_le_trans (Option.some_le_some.mpr (UInt64.le_of_lt holder)) covers
    · exact .inl hcovered
    · exact .inr (hmissed.append _)
  | hintMissed hint hints missed =>
    cases pends
    rw [hmarks hint rfl rfl]
    refine .deals _ hints (inside.probe hint reply.verdict) rfl (List.Pairwise.of_cons falls) ?_
    rcases dealt with hin | hcovered | hprobed
    · rcases List.mem_cons.mp hin with rfl | hin
      · exact .inr (.inr ⟨reply.verdict, missed, List.mem_append_right _ List.mem_cons_self⟩)
      · exact .inl hin
    · exact .inr (.inl hcovered)
    · exact .inr (.inr (hprobed.append _))
  | _ => cases pends

/-- What a round that deals with its hints makes of one of them in a stride. -/
theorem heeds_dealing (strides : w.Strides id p v q) (live : w.isCancelled p = false)
    (alive : v.isAlive = true)
    (rises : (w.records.frontier p.key).slot ≤ (v.records.frontier p.key).slot)
    (inside : Mark.Inside e during past) (stage : p.stage.pending? = some pending)
    (falls : Round.Falls pending)
    (dealt : Poller.Dealt e pending (w.records.frontier p.key).slot during) :
    q.Heeds e (past ++ marksOf w v p q) (v.records.frontier p.key).slot := by
  have hdealt := dealt.rises rises
  have hpends {round : Round} (rounds : p.stage.round? = some round) :
      round.pending? = some pending := by
    rw [Poller.Stage.pending?, rounds] at stage
    exact stage
  cases strides with
  | waits idle => exact heeds_of_silent inside (marksOf_of_same rfl) stage falls hdealt
  | asks round request flight rounds asks =>
    have hround : p.stage.round? = some round := by rw [rounds]; rfl
    refine heeds_of_silent inside (marksOf_of_pending ?_ (.inr rfl) rfl) (hpends hround) falls
      hdealt
    rw [stage]
    rfl
  | steps round next rounds steps =>
    have hround : p.stage.round? = some round := by rw [rounds]; rfl
    exact heeds_steps steps rounds (hpends hround) rises inside falls dealt
  | hears round next reply rounds asks taken hears =>
    exact heeds_hears hears rounds (hpends rounds) taken inside falls hdealt
  | quits cancelled => rw [live] at cancelled; cases cancelled
  | abandons gone => rw [alive] at gone; cases gone
  | begins between =>
    cases hs : p.stage with
    | rounding round => rw [hs] at between; cases between
    | waiting round flight => rw [hs] at between; cases between
    | _ => rw [hs] at stage; cases stage
  | leaves wake rests => rw [rests] at stage; cases stage
  | takes wake rests => rw [rests] at stage; cases stage
  | rests found closes => rw [closes] at stage; cases stage
  | pauses found pause closes => rw [closes] at stage; cases stage
  | overflows found closes => rw [closes] at stage; cases stage

/-- A poller that rests is not about to rest for longer than can be said. -/
theorem overflows_of_resting (found : w.pollers[id]? = some p) {due : Option Instant}
    (rests : p.stage = .resting due) : w.overflows id = false := by
  refine Bool.eq_false_iff.mpr fun exceeds => ?_
  obtain ⟨raised, hstage, -⟩ := (overflows_iff found).mp exceeds
  rw [rests] at hstage
  cases hstage

/-- A stride loses no hint, unless the poller would have to rest for longer than can be said. -/
theorem heeds_strides (strides : w.Strides id p v q) (found : w.pollers[id]? = some p)
    (live : w.isCancelled p = false) (alive : v.isAlive = true) (short : w.overflows id = false)
    (orderly : p.Orderly)
    (rises : (w.records.frontier p.key).slot ≤ (v.records.frontier p.key).slot)
    (heeds : p.Heeds e past (w.records.frontier p.key).slot) :
    q.Heeds e (past ++ marksOf w v p q) (v.records.frontier p.key).slot := by
  cases heeds with
  | settled settled => exact .settled (settled.append _)
  | deals during pending inside stage falls dealt =>
    exact heeds_dealing strides live alive rises inside stage falls dealt
  | waits going here =>
    cases strides with
    | waits => exact .waits going here
    | quits cancelled => rw [live] at cancelled; cases cancelled
    | leaves wake rests empty => rw [empty] at here; cases here
    | abandons gone => rw [alive] at gone; cases gone
    | overflows raised stage mode exceeds =>
      rw [(overflows_iff found).mpr ⟨raised, stage, mode, exceeds⟩] at short
      cases short
    | takes wake rests =>
      have hmarks : marksOf w v p (p.takeCommands w.settings).beginRound =
          [.took (p.takeCommands w.settings).hints] :=
        marksOf_beginRound (by rw [rests]; rfl) rfl
      have htaken := Poller.mem_hints_takeCommands w.settings here
      rw [hmarks]
      exact .deals [] _ ⟨past, _, rfl, htaken, fun _ hm => nomatch hm⟩ rfl
        (orderly.takeCommands w.settings).next (.inl htaken)
    | _ => exact .waits rfl here

/-! ## Mishaps -/

/-- Whether an action lets a poller go on with its work: no fetch of it breaks down, and it is not
about to rest for longer than can be said. -/
def spares (w : Watch) (id : PollerId) : Action → Bool
  | .crash (.poller other) => other ≠ id
  | .work (.poller other) => other ≠ id || !w.overflows id
  | _ => true

/-- Whether several actions let a poller go on with its work. -/
def sparesAlong (w : Watch) (id : PollerId) : List Action → Bool
  | [] => true
  | action :: rest => w.spares id action && (w.act action).sparesAlong id rest

/-- If the waits fit, a poller is let go on unless a fetch of it breaks down. -/
theorem sparesAlong_of_fit (arises : w.Arises settings) (fits : settings.waitsFit = true)
    {actions : List Action} (whole : .crash (.poller id) ∉ actions) :
    w.sparesAlong id actions = true := by
  induction actions generalizing w with
  | nil => rfl
  | cons action rest ih =>
    obtain ⟨hfirst, hrest⟩ := List.ne_and_not_mem_of_not_mem_cons whole
    refine Bool.and_eq_true_iff.mpr ⟨?_, ih (arises.act action) hrest⟩
    cases action with
    | work job =>
      cases job with
      | poller other =>
        rw [spares, overflows_of_fit arises fits id]
        exact Bool.or_true _
      | _ => rfl
    | crash job =>
      cases job with
      | poller other => exact decide_eq_true fun same => hfirst (same ▸ rfl)
      | _ => rfl
    | _ => rfl

/-- What happens loses no hint of a poller that is not cancelled and is let go on. -/
theorem heeds_act (regular : w.Regular settings) (found : w.pollers[id]? = some p)
    (ends : (w.act action).pollers[id]? = some q) (spared : w.spares id action = true)
    (live : (w.act action).isCancelled q = false)
    (heeds : p.Heeds e past (w.records.frontier p.key).slot) :
    q.key = p.key ∧
      q.Heeds e (past ++ w.marksIn id action) ((w.act action).records.frontier q.key).slot := by
  have hbefore := live_of_act regular found ends live
  have hrunning : (w.act action).stopped = false := (Bool.or_eq_false_iff.mp live).2
  have halive : (w.act action).isAlive = true :=
    (regular_act regular action).sound.alive_of_running hrunning
  have hrises := slot_le_act regular action p.key
  have hmarks : w.marksIn id action = marksOf w (w.act action) p q := by rw [marksIn, found, ends]
  rw [hmarks]
  -- a stride, whatever it is taken in
  have hstride (strides : w.Strides id p (w.act action) q) (short : w.overflows id = false) :
      q.key = p.key ∧
        q.Heeds e (past ++ marksOf w (w.act action) p q)
          ((w.act action).records.frontier q.key).slot := by
    refine ⟨strides.key, ?_⟩
    rw [strides.key]
    exact heeds_strides strides found hbefore halive short (regular.orderly id p found) hrises heeds
  obtain ⟨r, hr, hbecomes⟩ := regular.becomes found action
  obtain rfl : r = q := Option.some.inj (hr.symm.trans ends)
  cases hbecomes with
  | told action idle q told =>
    rw [marksOf_of_same told.stage, List.append_nil, told.key]
    refine ⟨rfl, ?_⟩
    cases heeds with
    | waits going here =>
      obtain ⟨commands, marked, rfl⟩ := told
      have hkept : .hint e ∈ if p.isOver then p.inbox else p.inbox ++ commands := by
        rw [if_neg (going ▸ Bool.false_ne_true)]
        exact List.mem_append_left commands here
      exact .waits going hkept
    | deals during pending inside stage falls dealt =>
      exact .deals during pending inside (told.stage ▸ stage) falls (dealt.rises hrises)
    | settled settled => exact .settled settled
  | turns q strides =>
    refine hstride strides ?_
    rcases Bool.or_eq_true_iff.mp spared with hother | hshort
    · exact absurd rfl (of_decide_eq_true hother)
    · simpa using hshort
  | wakes due rests => exact hstride (strides_wake rests _) (overflows_of_resting found rests)
  | crashes => exact absurd rfl (of_decide_eq_true spared)

/-- Nothing that happens one after the other loses a hint of a poller that is not cancelled in the
end, as long as it lets the poller go on. -/
theorem heeds_run (regular : w.Regular settings) (found : w.pollers[id]? = some p)
    {actions : List Action} (ends : (w.run actions).pollers[id]? = some q)
    (spared : w.sparesAlong id actions = true) (live : (w.run actions).isCancelled q = false)
    (heeds : p.Heeds e past (w.records.frontier p.key).slot) :
    q.Heeds e (past ++ w.trail id actions) ((w.run actions).records.frontier q.key).slot := by
  induction actions generalizing w p past with
  | nil =>
    obtain rfl : p = q := Option.some.inj (found.symm.trans ends)
    rw [trail, List.append_nil]
    exact heeds
  | cons action rest ih =>
    obtain ⟨hfirst, hrest⟩ := Bool.and_eq_true_iff.mp spared
    obtain ⟨r, hr, -⟩ := regular.becomes found action
    have hregular := regular_act regular action
    have hlive := live_of_run hregular hr ends live
    obtain ⟨-, hheeds⟩ := heeds_act regular found hr hfirst hlive heeds
    rw [trail, ← List.append_assoc]
    exact ih hregular hr ends hrest live hheeds

/-! ## Hints that are sent -/

/-- A document is looked up by a hint if a poller is stored for it. -/
theorem stores_of_hinted {key : DocumentKey} (hinted : w.records.lookup key = .hinted id) :
    w.roster.Stores key id := by
  rw [Records.lookup] at hinted
  split at hinted
  case h_1 poller hpool =>
    cases hinted
    exact .inl hpool
  case h_2 =>
    split at hinted
    case h_1 poller hcache =>
      cases hinted
      exact .inr hcache
    case h_2 => cases hinted

/-- To look up a document that has a poller is to send it a hint. -/
theorem send_of_hinted (held : w.held = true) {uri : EditionUri}
    (hinted : w.records.lookup uri.key = .hinted id) (found : w.pollers[id]? = some p)
    (prefetch : Bool) (name : String) :
    (w.act (.resolve uri prefetch name)).pollers[id]? = some (p.send (.hint uri.edition)) := by
  have hresolved : (w.resolve uri prefetch).watch.pollers =
      w.pollers.modify id (·.send (.hint uri.edition)) := by
    rw [resolve]
    dsimp only
    rw [hinted]
    rfl
  rw [act_of_held held]
  change (w.resolve uri prefetch).watch.pollers[id]? = _
  rw [hresolved]
  exact getElem?_modify_self found _

/-- No hint is lost while its poller goes on with its work. However commands, times to wake and
fetches of a poller come together, whichever of them it notices first, and whatever else happens to
its document: if the work of a poller was not over when a hint was sent to it, then the poller minds
the hint as long as it is let go on and is not cancelled, alone or with everything else. If the
waits fit, only a fetch that breaks down keeps a poller from going on. -/
theorem hints_settle (arises : w.Arises settings) (held : w.held = true) {uri : EditionUri}
    (hinted : w.records.lookup uri.key = .hinted id) (prefetch : Bool) (name : String)
    (later : List Action) :
    let u := w.act (.resolve uri prefetch name)
    let v := u.run later
    let trail := u.trail id later
    let slot := (v.records.frontier uri.key).slot
    (∃ p q, w.pollers[id]? = some p ∧ v.pollers[id]? = some q ∧ q.key = uri.key ∧
      (p.isOver = false → u.sparesAlong id later = true → v.isCancelled q = false →
        q.Minds uri.edition slot trail)) ∧
      (settings.waitsFit = true → .crash (.poller id) ∉ later →
        u.sparesAlong id later = true) := by
  intro u v trail slot
  have harises : u.Arises settings := arises.act (.resolve uri prefetch name)
  refine ⟨?_, fun fits whole => sparesAlong_of_fit harises fits whole⟩
  obtain ⟨p, hfound, hkey, -⟩ := arises.regular.sound.own uri.key id (stores_of_hinted hinted)
  have hsent : u.pollers[id]? = some (p.send (.hint uri.edition)) :=
    send_of_hinted held hinted hfound prefetch name
  obtain ⟨q, hends, hsame⟩ := key_run harises.regular hsent later
  have hqkey : q.key = uri.key := hsame.trans hkey
  refine ⟨p, q, hfound, hends, hqkey, fun going spared live => ?_⟩
  have hwaits : .hint uri.edition ∈ (p.send (.hint uri.edition)).inbox := by
    rw [Poller.inbox_send going]
    exact List.mem_append_right p.inbox List.mem_cons_self
  have hheeds : q.Heeds uri.edition ([] ++ trail) (v.records.frontier q.key).slot :=
    heeds_run harises.regular hsent hends spared live (.waits going hwaits)
  rw [List.nil_append, hqkey] at hheeds
  exact hheeds.minds

/-- A background poller is told of the edition 6 while its time to wake has come, and of 3 and 1
after it began a round for that reason; only the edition 3 exists. The round knows nothing of the
hints; the next one probes 6, which does not show up, and 3, which makes 1 known. -/
theorem hints_settle_past_wake :
    let notes : DocumentKey := ⟨.uniform 7, "notes"⟩
    let settings : Settings := { Settings.standard with minFailures := 1 }
    let turns (n : Nat) : List Action := List.replicate n (.work (.poller 0))
    let hint (e : Edition) : Action := .resolve ⟨notes, e⟩ false "bob"
    let earlier : List Action :=
      .subscribe notes "ann" { background := true } :: turns 8 ++
        [.setNetwork ⟨[⟨notes, 3, 3, some .data, some .data, []⟩], 0, 0⟩,
          .elapse 30000000000]
    let later : List Action :=
      .wake 0 :: turns 1 ++ [hint 3, hint 1] ++ turns 15
    let w := (initial settings []).run earlier
    let trail := (w.act (hint 6)).trail 0 later
    trail = [.took [], .ended none, .took [6, 3, 1], .probed 6 .absent, .probed 3 .present,
        .ended (some 3)] ∧
      Mark.Settled 6 trail := by
  intro notes settings turns hint earlier later w trail
  refine ⟨by decide +kernel, ?_⟩
  have harises : w.Arises settings := ⟨[], earlier, rfl⟩
  have hhinted : w.records.lookup (⟨notes, 6⟩ : EditionUri).key = .hinted 0 := by decide +kernel
  have hheld : w.held = true := by decide +kernel
  have hwhole : .crash (.poller 0) ∉ later := by
    simp [later, turns, hint]
  let v := (w.act (hint 6)).run later
  have hbefore : (w.pollers[0]?).map Poller.isOver = some false := by decide +kernel
  have hview : (v.pollers[0]?).map (fun q => (v.isCancelled q, q.inbox, q.stage.pending?)) =
      some (false, [], none) := by decide +kernel
  obtain ⟨⟨p, q, hp, hq, -, hminds⟩, hfit⟩ := hints_settle harises hheld hhinted false "bob" later
  obtain ⟨r, hr, hgoing⟩ := Option.map_eq_some_iff.mp hbefore
  obtain rfl : r = p := Option.some.inj (hr.symm.trans hp)
  obtain ⟨s, hs, hfields⟩ := Option.map_eq_some_iff.mp hview
  obtain rfl : s = q := Option.some.inj (hs.symm.trans hq)
  simp only [Prod.mk.injEq] at hfields
  obtain ⟨hlive, hinbox, hpending⟩ := hfields
  -- nothing is left in the inbox or in a round, so the hint must have been settled
  rcases hminds hgoing (hfit (by decide) hwhole) hlive with
    ⟨-, hin⟩ | ⟨_, _, -, hstage, -⟩ | hsettled
  · rw [hinbox] at hin
    cases hin
  · rw [hpending] at hstage
    cases hstage
  · exact hsettled

/-! ## Hints that are lost -/

/-- A hint that is sent to a poller after some actions is lost after some more, though by then the
document still has the poller, nobody cancelled it, and the watch goes on. -/
def LosesHint (settings : Settings) (earlier : List Action) (uri : EditionUri) (id : PollerId)
    (later : List Action) : Prop :=
  let w := (initial settings []).run earlier
  let u := w.act (.resolve uri false "bob")
  let v := u.run later
  w.records.lookup uri.key = .hinted id ∧ v.isAlive = true ∧ v.records.indexes uri.key id = true ∧
    ∃ q, v.pollers[id]? = some q ∧ v.isCancelled q = false ∧ .hint uri.edition ∉ q.inbox ∧
      ¬q.Minds uri.edition (v.records.frontier uri.key).slot (u.trail id later)

/-- A hint is lost if it is not in the inbox of its poller, which has left no mark. -/
theorem losesHint_of_silent {earlier later : List Action} {uri : EditionUri}
    (hinted : ((initial settings []).run earlier).records.lookup uri.key = .hinted id)
    (silent :
      (((initial settings []).run earlier).act (.resolve uri false "bob")).trail id later = [])
    (ends : let v := (((initial settings []).run earlier).act (.resolve uri false "bob")).run later
      v.isAlive = true ∧ v.records.indexes uri.key id = true ∧
        (v.pollers[id]?).map (fun q => (v.isCancelled q, q.inbox)) = some (false, [])) :
    LosesHint settings earlier uri id later := by
  obtain ⟨halive, hindexed, hview⟩ := ends
  obtain ⟨q, hq, hfields⟩ := Option.map_eq_some_iff.mp hview
  obtain ⟨hlive, hinbox⟩ := Prod.mk.inj hfields
  have hlost : .hint uri.edition ∉ q.inbox := hinbox ▸ List.not_mem_nil
  refine ⟨hinted, halive, hindexed, q, hq, hlive, hlost, ?_⟩
  rw [silent]
  exact Poller.not_minds_of_silent hlost

/-- A hint is lost if the executor did not take the poller to which it is sent, if a fetch of the
poller breaks down, and if the wait of the poller is too long to be said. -/
theorem hints_lost_with_their_poller :
    let notes : DocumentKey := ⟨.uniform 7, "notes"⟩
    let slow : Network := ⟨[⟨notes, 0, 0, none, none, []⟩], 1, 0⟩
    let longest : Settings :=
      { Settings.standard with pollInterval := ⟨18446744073709551615 * 1000000000, by decide⟩ }
    let turns (n : Nat) : List Action := List.replicate n (.work (.poller 0))
    LosesHint .standard [.refuse [.poller], .resolve ⟨notes, 0⟩ false "ann", .refuse []]
        ⟨notes, 5⟩ 0 (turns 3) ∧
      LosesHint .standard
        (.setNetwork slow :: .subscribe notes "ann" { background := true } :: turns 7)
        ⟨notes, 5⟩ 0 [.crash (.poller 0)] ∧
      LosesHint longest (.subscribe notes "ann" { background := true } :: turns 11)
        ⟨notes, 5⟩ 0 (turns 1) := by
  intro notes slow longest turns
  refine ⟨losesHint_of_silent ?_ ?_ ?_, losesHint_of_silent ?_ ?_ ?_,
    losesHint_of_silent ?_ ?_ ?_⟩
  all_goals decide +kernel

end Watch

end EditionWatch
