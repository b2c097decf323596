import EditionWatch.Proofs.Histories

/-!
# What rounds cost

A round may fetch the blocks of its hints, each once, newest first, and then walk. Only the walk is
limited by the settings: the hints that a round is given all come on top of the probes that a walk
may make. So from wherever a round stands there is an allowance for what is left of it, and whatever
it still fetches is within this allowance, in any network and whatever else happens meanwhile.
-/

namespace EditionWatch

namespace Round

/-- What is left for a round to fetch. -/
structure Allowance where
  /-- The hints that it may still probe, in order. -/
  hints : List Edition
  /-- The edition that its walk goes on from, if that is settled. -/
  start : Option Edition
  /-- How many probes its walk may still make. -/
  probes : Nat
  /-- How many contents it may still fetch. -/
  contents : Nat

/-- What a round fetched. -/
structure Bill where
  /-- The hints that it probed, in order. -/
  hinted : List Edition
  /-- The edition that its walk went on from. -/
  start : Edition
  /-- How many probes its walk made. -/
  walked : Nat
  /-- The editions whose content it fetched, in order. -/
  contents : List Edition

/-- The fetches on a bill, in order. -/
def Bill.requests (bill : Bill) (key : DocumentKey) : List Request :=
  (bill.hinted ++ walkProbes bill.start bill.walked).map (fun e => ⟨.block, ⟨key, e⟩⟩) ++
    bill.contents.map (fun e => ⟨.content, ⟨key, e⟩⟩)

/-- What was fetched is within what was allowed. -/
structure Bill.Within (bill : Bill) (a : Allowance) : Prop where
  hinted : bill.hinted.Sublist a.hints
  start : ∀ e ∈ a.start, bill.start = e
  walked : bill.walked ≤ a.probes
  contents : bill.contents.length ≤ a.contents

/-- A walk that may probe once more begins with the edition it stands at. -/
theorem walkProbes_cons (e : Edition) (n : Nat) :
    walkProbes e (n + 1) = e :: walkProbes (Edition.next e) n := by
  have hafter (k : Nat) : e.after (k + 1) = (Edition.next e).after k := by
    induction k with
    | zero => rfl
    | succ k ih => rw [Edition.after, ih, Edition.after]
  rw [walkProbes, walkProbes, List.range_succ_eq_map, List.map_cons, List.map_map]
  exact congrArg (e :: ·) (List.map_congr_left fun k _ => hafter k)

namespace Allowance

variable {a b : Allowance} {key : DocumentKey} {requests : List Request} {e : Edition}
  {hints : List Edition} {n contents : Nat}

/-- Some fetches are within an allowance. -/
def Covers (a : Allowance) (key : DocumentKey) (requests : List Request) : Prop :=
  ∃ bill : Bill, bill.requests key = requests ∧ bill.Within a

/-- To fetch nothing is always within an allowance. -/
theorem covers_nil (a : Allowance) (key : DocumentKey) : a.Covers key [] := by
  refine ⟨⟨[], a.start.getD 0, 0, []⟩, rfl, List.nil_sublist _, fun e he => ?_, Nat.zero_le _,
    Nat.zero_le _⟩
  exact he ▸ rfl

/-- What is within an allowance is within a larger one. -/
theorem Covers.mono (h : b.Covers key requests) (hints : b.hints.Sublist a.hints)
    (start : ∀ e ∈ a.start, b.start = some e ∨ b.probes = 0) (probes : b.probes ≤ a.probes)
    (contents : b.contents ≤ a.contents) : a.Covers key requests := by
  obtain ⟨bill, rfl, hhinted, hstart, hwalked, hcontents⟩ := h
  by_cases hnone : bill.walked = 0
  · -- a walk that made no probe may have begun anywhere
    refine ⟨⟨bill.hinted, a.start.getD 0, 0, bill.contents⟩, ?_, hhinted.trans hints,
      fun e he => he ▸ rfl, Nat.zero_le _, Nat.le_trans hcontents contents⟩
    rw [Bill.requests, Bill.requests, hnone]
    rfl
  · refine ⟨bill, rfl, hhinted.trans hints, fun e he => ?_, Nat.le_trans hwalked probes,
      Nat.le_trans hcontents contents⟩
    rcases start e he with hsome | hzero
    · exact hstart e hsome
    · omega

/-- To probe a hint uses it up. -/
theorem Covers.hint (h : Covers ⟨hints, none, n, contents⟩ key requests) (e : Edition) :
    Covers ⟨e :: hints, none, n, contents⟩ key (⟨.block, ⟨key, e⟩⟩ :: requests) := by
  obtain ⟨bill, rfl, hhinted, -, hwalked, hcontents⟩ := h
  exact ⟨⟨e :: bill.hinted, bill.start, bill.walked, bill.contents⟩, rfl, hhinted.cons_cons e,
    (fun _ he => nomatch he), hwalked, hcontents⟩

/-- To probe the next edition of a walk uses one probe up. -/
theorem Covers.probe (h : Covers ⟨[], some (Edition.next e), n, contents⟩ key requests) :
    Covers ⟨[], some e, n + 1, contents⟩ key (⟨.block, ⟨key, e⟩⟩ :: requests) := by
  obtain ⟨bill, rfl, hhinted, hstart, hwalked, hcontents⟩ := h
  refine ⟨⟨bill.hinted, e, bill.walked + 1, bill.contents⟩, ?_, hhinted,
    fun _ he => Option.some.inj he, Nat.succ_le_succ hwalked, hcontents⟩
  rw [Bill.requests, Bill.requests, walkProbes_cons, hstart _ rfl, List.sublist_nil.mp hhinted]
  rfl

/-- To fetch content uses that up. -/
theorem Covers.content (h : Covers ⟨[], none, 0, contents⟩ key requests) (e : Edition) :
    Covers ⟨[], none, 0, contents + 1⟩ key (⟨.content, ⟨key, e⟩⟩ :: requests) := by
  obtain ⟨bill, rfl, hhinted, -, hwalked, hcontents⟩ := h
  have hzero : bill.walked = 0 := Nat.le_zero.mp hwalked
  refine ⟨⟨bill.hinted, bill.start, bill.walked, e :: bill.contents⟩, ?_, hhinted,
    (fun _ he => nomatch he), hwalked, Nat.succ_le_succ hcontents⟩
  rw [Bill.requests, Bill.requests, List.sublist_nil.mp hhinted, hzero]
  rfl

/-- Where nothing is allowed, nothing is fetched. -/
theorem Covers.eq_nil (h : Covers ⟨[], none, 0, 0⟩ key requests) : requests = [] := by
  obtain ⟨bill, rfl, hhinted, -, hwalked, hcontents⟩ := h
  have hzero : bill.walked = 0 := Nat.le_zero.mp hwalked
  rw [Bill.requests, List.sublist_nil.mp hhinted, hzero,
    List.length_eq_zero_iff.mp (Nat.le_zero.mp hcontents)]
  rfl

/-- Within an allowance no more blocks are fetched than it has hints and probes. -/
theorem Covers.blocks_le (h : a.Covers key requests) :
    (requests.filter fun request => request.kind = .block).length ≤ a.hints.length + a.probes := by
  obtain ⟨bill, rfl, hhinted, -, hwalked, -⟩ := h
  have hblocks (editions : List Edition) :
      (editions.map fun e => (⟨.block, ⟨key, e⟩⟩ : Request)).filter
        (fun request => request.kind = .block) = editions.map fun e => ⟨.block, ⟨key, e⟩⟩ :=
    List.filter_eq_self.mpr fun request hin => by
      obtain ⟨e, -, rfl⟩ := List.mem_map.mp hin
      rfl
  have hcontents (editions : List Edition) :
      (editions.map fun e => (⟨.content, ⟨key, e⟩⟩ : Request)).filter
        (fun request => request.kind = .block) = [] :=
    List.filter_eq_nil_iff.mpr fun request hin => by
      obtain ⟨e, -, rfl⟩ := List.mem_map.mp hin
      exact Bool.false_ne_true
  rw [Bill.requests, List.filter_append, hblocks, hcontents, List.append_nil, List.length_map,
    List.length_append, walkProbes, List.length_map, List.length_range]
  exact Nat.add_le_add hhinted.length_le hwalked

end Allowance

end Round

namespace Poller.Stage

/-- What is left to fetch for a poller in a round. -/
def allowance (settings : Settings) : Poller.Stage → Round.Allowance
  | .rounding (.opening hints) => ⟨hints, none, settings.maxProbes.toNat, 1⟩
  | .rounding (.hinting hints) => ⟨hints, none, settings.maxProbes.toNat, 1⟩
  | .rounding (.askingHint e hints) => ⟨e :: hints, none, settings.maxProbes.toNat, 1⟩
  | .waiting (.askingHint _ hints) _ => ⟨hints, none, settings.maxProbes.toNat, 1⟩
  | .rounding (.aligning _) => ⟨[], none, settings.maxProbes.toNat, 1⟩
  | .rounding (.walking _ e _ probes) => ⟨[], some e, settings.maxProbes.toNat - probes, 1⟩
  | .rounding (.asking _ e _ probes) => ⟨[], some e, settings.maxProbes.toNat - (probes + 1) + 1, 1⟩
  | .waiting (.asking _ e _ probes) _ =>
    ⟨[], some (Edition.next e), settings.maxProbes.toNat - (probes + 1), 1⟩
  | .rounding .confirming => ⟨[], none, 0, 1⟩
  | .rounding (.fetching _) => ⟨[], none, 0, 1⟩
  | _ => ⟨[], none, 0, 0⟩

variable {settings : Settings} {key : DocumentKey} {requests : List Request} {round next : Round}

/-- What is left to fetch after a round went on by itself was left before. -/
theorem covers_of_steps {origin : Edition} {frontier : Frontier}
    (steps : Round.Steps settings origin frontier round next)
    (h : ((rounding next).allowance settings).Covers key requests) :
    ((rounding round).allowance settings).Covers key requests := by
  cases steps with
  | selects hints =>
    exact h.mono List.filter_sublist (fun _ he => nomatch he) (Nat.le_refl _) (Nat.le_refl _)
  | passes => exact h
  | tries e hints =>
    unfold Round.tryHint at h
    split at h
    · exact h.mono (List.sublist_cons_self e hints) (fun _ he => nomatch he) (Nat.le_refl _)
        (Nat.le_refl _)
    · exact h
  | aligns found =>
    exact h.mono (List.Sublist.refl _) (fun _ he => nomatch he) (Nat.sub_le _ _) (Nat.le_refl _)
  | proceeds found e misses probes =>
    unfold Round.proceed at h
    split at h
    case isTrue goes =>
      rw [Round.goesOn, Bool.and_eq_true, decide_eq_true_eq, decide_eq_true_eq] at goes
      refine h.mono (List.Sublist.refl _) (fun _ he => .inl he) ?_ (Nat.le_refl _)
      change settings.maxProbes.toNat - (probes + 1) + 1 ≤ settings.maxProbes.toNat - probes
      omega
    case isFalse =>
      split at h
      · exact h.mono (List.Sublist.refl _) (fun _ _ => .inr rfl) (Nat.zero_le _) (Nat.le_refl _)
      · exact h.mono (List.Sublist.refl _) (fun _ _ => .inr rfl) (Nat.zero_le _) (Nat.zero_le _)
  | confirms =>
    unfold Round.confirm at h
    split at h
    · exact h.mono (List.Sublist.refl _) (fun _ _ => .inr rfl) (Nat.zero_le _) (Nat.zero_le _)
    · split at h
      · exact h
      · exact h.mono (List.Sublist.refl _) (fun _ _ => .inr rfl) (Nat.zero_le _) (Nat.zero_le _)
  | skips =>
    exact h.mono (List.Sublist.refl _) (fun _ _ => .inr rfl) (Nat.zero_le _) (Nat.zero_le _)

/-- What is left to fetch after a reply was left while the round waited for it. -/
theorem covers_of_hears {verdict : Verdict} {slot : Option Edition} (flight : Flight)
    (hears : Round.Hears verdict slot round next)
    (h : ((rounding next).allowance settings).Covers key requests) :
    ((waiting round flight).allowance settings).Covers key requests := by
  cases hears with
  | hintFound e hints raised =>
    exact h.mono (List.nil_sublist _) (fun _ he => nomatch he) (Nat.le_refl _) (Nat.le_refl _)
  | _ => exact h

/-- A fetch is left to a round that asks for it. -/
theorem covers_of_asks {request : Request} (flight : Flight)
    (asks : round.request? key = some request)
    (h : ((waiting round flight).allowance settings).Covers key requests) :
    ((rounding round).allowance settings).Covers key (request :: requests) := by
  cases round with
  | askingHint e hints =>
    cases asks
    exact h.hint e
  | asking found e misses probes =>
    cases asks
    exact h.probe
  | fetching e =>
    cases asks
    exact h.content e
  | _ => cases asks

end Poller.Stage

namespace Watch

variable {settings : Settings} {w v : Watch} {id : PollerId} {p q : Poller} {action : Action}
  {requests : List Request}

/-- Whether a poller is in the middle of a round. -/
def isInRound (w : Watch) (id : PollerId) : Bool :=
  (w.pollers[id]?).any (·.stage.isInRound)

/-- What a poller fetches along some actions until it is out of its round. -/
def roundFetches (w : Watch) (id : PollerId) : List Action → List Request
  | [] => []
  | action :: rest =>
    if w.isInRound id then w.fetchesIn id action ++ (w.act action).roundFetches id rest else []

/-- What a poller fetches in its turn is what its round asks for. -/
theorem fetchesIn_turn (found : w.pollers[id]? = some p) :
    w.fetchesIn id (.work (.poller id)) = p.issues := by
  rw [fetchesIn, if_pos rfl, fetches_turn found, List.drop_left]

/-- A fetch that a round issues is left to it. -/
theorem covers_issues (settings : Settings) (p : Poller) :
    (p.stage.allowance settings).Covers p.key p.issues := by
  unfold Poller.issues
  cases p.stage with
  | rounding round =>
    dsimp only
    cases hasks : round.request? p.key with
    | none => exact Round.Allowance.covers_nil _ _
    | some request =>
      exact Poller.Stage.covers_of_asks ⟨request, none, 0⟩ hasks (Round.Allowance.covers_nil _ _)
  | _ => exact Round.Allowance.covers_nil _ _

/-- What a poller fetches in its turn and afterwards was left to it before. -/
theorem covers_strides (strides : w.Strides id p v q) (inRound : p.stage.isInRound = true)
    (h : (q.stage.allowance w.settings).Covers p.key requests) :
    (p.stage.allowance w.settings).Covers p.key (p.issues ++ requests) := by
  -- out of its round, a poller fetches nothing more in it
  have hout (nothing : q.stage.allowance w.settings = ⟨[], none, 0, 0⟩) :
      (p.stage.allowance w.settings).Covers p.key (p.issues ++ requests) := by
    rw [nothing] at h
    rw [h.eq_nil, List.append_nil]
    exact covers_issues w.settings p
  have hasked (round : Round) (flight : Flight) (request : Request)
      (stage : p.stage = .rounding round) (asks : round.request? p.key = some request)
      (h : ((Poller.Stage.waiting round flight).allowance w.settings).Covers p.key requests) :
      (p.stage.allowance w.settings).Covers p.key (p.issues ++ requests) := by
    have hissues : p.issues = [request] := by
      rw [Poller.issues, stage]
      exact congrArg Option.toList asks
    rw [hissues, stage]
    exact Poller.Stage.covers_of_asks flight asks h
  cases strides with
  | waits idle =>
    have hissues : p.issues = [] := by
      rw [Poller.isRounding] at idle
      unfold Poller.issues
      cases hs : p.stage with
      | rounding round =>
        rw [hs] at idle
        cases idle
      | _ => rfl
    rw [hissues]
    exact h
  | quits => exact hout rfl
  | leaves => exact hout rfl
  | abandons => exact hout rfl
  | rests => exact hout rfl
  | pauses => exact hout rfl
  | overflows => exact hout rfl
  | begins between =>
    rw [between] at inRound
    cases inRound
  | takes wake rests =>
    rw [rests] at inRound
    cases inRound
  | steps round next stage steps =>
    have hissues : p.issues = [] := by
      rw [Poller.issues, stage]
      cases steps <;> rfl
    rw [hissues, stage]
    exact Poller.Stage.covers_of_steps steps h
  | asks round request flight stage asks => exact hasked round flight request stage asks h
  | hears round next reply stage asks taken hears =>
    cases hs : p.stage with
    | rounding other =>
      rw [hs] at stage
      cases stage
      obtain ⟨request, hrequest⟩ := Option.isSome_iff_exists.mp asks
      have hheard := Poller.Stage.covers_of_hears ⟨request, none, 0⟩ hears h
      exact hs ▸ hasked round _ request hs hrequest hheard
    | waiting other flight =>
      rw [hs] at stage
      cases stage
      have hissues : p.issues = [] := by rw [Poller.issues, hs]
      rw [hissues]
      exact Poller.Stage.covers_of_hears flight hears h
    | _ =>
      rw [hs] at stage
      cases stage

/-- Wherever a round stands, what its poller still fetches in it is within its allowance, in every
run. -/
theorem covers_roundFetches (regular : w.Regular settings) (found : w.pollers[id]? = some p)
    (actions : List Action) :
    (p.stage.allowance settings).Covers p.key (w.roundFetches id actions) := by
  induction actions generalizing w p with
  | nil => exact Round.Allowance.covers_nil _ _
  | cons action rest ih =>
    rw [roundFetches]
    split
    case isFalse => exact Round.Allowance.covers_nil _ _
    case isTrue hin =>
      rw [isInRound, found] at hin
      obtain ⟨q, hq, hbecomes⟩ := regular.becomes found action
      have hrest := ih (regular_act regular action) hq
      cases hbecomes with
      | told action idle q told =>
        rw [fetchesIn_of_ne idle, List.nil_append]
        rw [told.stage, told.key] at hrest
        exact hrest
      | turns q strides =>
        rw [fetchesIn_turn found]
        have hkey : q.key = p.key := strides.key
        rw [hkey] at hrest
        rw [← regular.settings] at hrest ⊢
        exact covers_strides strides hin hrest
      | wakes due rests =>
        rw [Option.any_some, rests] at hin
        cases hin
      | crashes =>
        rw [fetchesIn_of_ne (fun he => by cases he), Round.Allowance.Covers.eq_nil hrest]
        exact Round.Allowance.covers_nil _ _

/-- The cost of a round, whatever its hints are, whatever the network replies and whatever else
happens meanwhile. The blocks that it fetches are those of some of its hints, each once and newest
first, and then those of editions in a row, no more than the settings say; after them it fetches the
content of one edition at most. So the settings limit the walk alone, and the hints of the round
come on top. -/
theorem round_costs_hints_and_walk (arises : w.Arises settings) (found : w.pollers[id]? = some p)
    {hints : List Edition} (begun : p.stage = .rounding (.opening hints))
    (actions : List Action) :
    let fetches := w.roundFetches id actions
    (∃ bill : Round.Bill, bill.requests p.key = fetches ∧ bill.hinted.Sublist hints ∧
      bill.walked ≤ settings.maxProbes.toNat ∧ bill.contents.length ≤ 1) ∧
    (fetches.filter fun request => request.kind = .block).length ≤
      hints.length + settings.maxProbes.toNat := by
  have hcovers := covers_roundFetches arises.regular found actions
  rw [begun] at hcovers
  have hblocks := hcovers.blocks_le
  obtain ⟨bill, hbill, hhinted, -, hwalked, hcontents⟩ := hcovers
  exact ⟨⟨bill, hbill, hhinted, hwalked, hcontents⟩, hblocks⟩

/-- A poller that may make two probes and was told of the editions 6 and 3 fetches four blocks in
its next round, and the content of the edition that it found. -/
theorem round_costs_hints_and_walk_of_two_hints :
    let notes : DocumentKey := ⟨.uniform 7, "notes"⟩
    let settings : Settings := { Settings.standard with maxProbes := 2 }
    let turns (n : Nat) : List Action := List.replicate n (.work (.poller 0))
    let w := (initial settings []).run (.resolve ⟨notes, 0⟩ false "ann" :: turns 10 ++
      [.resolve ⟨notes, 3⟩ false "bob", .resolve ⟨notes, 6⟩ false "bob", .work (.poller 0),
        .setNetwork ⟨[⟨notes, 3, 3, some .data, some .data, []⟩], 0, 0⟩])
    let round : List Action := turns 16
    w.roundFetches 0 round =
        [⟨.block, ⟨notes, 6⟩⟩, ⟨.block, ⟨notes, 3⟩⟩, ⟨.block, ⟨notes, 4⟩⟩, ⟨.block, ⟨notes, 5⟩⟩,
          ⟨.content, ⟨notes, 3⟩⟩] ∧
      ((w.roundFetches 0 round).filter fun request => request.kind = .block).length ≤
        [6, 3].length + settings.maxProbes.toNat := by
  intro notes settings turns w round
  have hstage : (w.pollers[0]?).map (fun p => (p.stage.opening?, p.flight?.isSome)) =
      some (some [6, 3], false) := by decide +kernel
  obtain ⟨p, hp, hopening⟩ := Option.map_eq_some_iff.mp hstage
  obtain ⟨hhints, hidle⟩ := Prod.mk.inj hopening
  have harises : w.Arises settings := ⟨[], _, rfl⟩
  refine ⟨by decide +kernel, ?_⟩
  exact (round_costs_hints_and_walk harises hp (Poller.eq_of_opening? hhints hidle) round).2

/-- A poller that may make one probe and was told of one edition, which does not exist, fetches two
blocks in its next round. -/
theorem round_exceeds_probes_of_hint :
    let notes : DocumentKey := ⟨.uniform 7, "notes"⟩
    let settings : Settings := { Settings.standard with maxProbes := 1 }
    let turns (n : Nat) : List Action := List.replicate n (.work (.poller 0))
    let w := (initial settings []).run (.resolve ⟨notes, 0⟩ false "ann" :: turns 8 ++
      [.resolve ⟨notes, 7⟩ false "bob", .work (.poller 0)])
    let fetches := w.roundFetches 0 (turns 12)
    (w.pollers[0]?).map (fun p => p.stage.opening?) = some (some [7]) ∧
      fetches = [⟨.block, ⟨notes, 7⟩⟩, ⟨.block, ⟨notes, 0⟩⟩] ∧
      ¬(fetches.filter fun request => request.kind = .block).length ≤
        settings.maxProbes.toNat := by
  decide +kernel

end Watch

end EditionWatch
