import EditionWatch.Proofs.Costs

/-!
# Which editions rounds ask for

A round asks for no edition below the first unknown one, and its walk goes from one edition to
the next. That sounds as if it never asked for what is known to exist, nor for anything twice.
Both hold up to the end of the range: the last edition counts as the first unknown one even when
it is the slot itself, and is followed by itself. So there, and nowhere else, a round asks again
for what is known, as often as its walk may go on.
-/

namespace EditionWatch

namespace Frontier

/-- What is not below the first unknown edition is above the slot, unless both are the last. -/
theorem isAbove_or_last_of_nextUnknown_le {slot : Option Edition} {e : Edition}
    (h : nextUnknown ⟨slot, none⟩ ≤ e) :
    isAbove e slot = true ∨ e = Edition.last ∧ slot = some Edition.last := by
  cases slot with
  | none => exact .inl rfl
  | some known =>
    by_cases hlast : known = Edition.last
    · subst hlast
      exact .inr ⟨UInt64.le_antisymm e.le_last h, rfl⟩
    · refine .inl (decide_eq_true ?_)
      have hnext := Edition.toNat_next_of_ne_last hlast
      have hle : (Edition.next known).toNat ≤ e.toNat := UInt64.le_iff_toNat_le.mp h
      rw [UInt64.lt_iff_toNat_lt]
      omega

/-- Once an edition that was not below the first unknown one is known, the one after it is not. -/
theorem nextUnknown_raised_le {slot : Option Edition} {e : Edition}
    (h : nextUnknown ⟨slot, none⟩ ≤ e) :
    nextUnknown ⟨raised slot e, none⟩ ≤ Edition.next e := by
  rw [Round.raised_of_nextUnknown_le h]
  exact UInt64.le_refl _

end Frontier

namespace Round

/-- One edition of a walk is before another, unless both are the last edition of all. -/
def Ascends (a b : Edition) : Prop := a < b ∨ a = Edition.last ∧ b = Edition.last

/-- Each edition is before the next one, or is the last. -/
theorem ascends_next (e : Edition) : Ascends e (Edition.next e) := by
  by_cases h : e = Edition.last
  · exact .inr ⟨h, by rw [h, Edition.next_last]⟩
  · have hnext := Edition.toNat_next_of_ne_last h
    exact .inl (UInt64.lt_iff_toNat_lt.mpr (by omega))

/-- What is before an edition is before those that are not below it. -/
theorem Ascends.trans_le {a b c : Edition} (h : Ascends a b) (le : b ≤ c) : Ascends a c := by
  rcases h with hlt | ⟨ha, hb⟩
  · exact .inl (UInt64.lt_of_lt_of_le hlt le)
  · exact .inr ⟨ha, UInt64.le_antisymm c.le_last (hb ▸ le)⟩

/-- A walk probes nothing below its start. -/
theorem le_of_mem_walkProbes {start e : Edition} {n : Nat} (h : e ∈ walkProbes start n) :
    start ≤ e := by
  induction n generalizing start with
  | zero => cases h
  | succ n ih =>
    rw [walkProbes_cons] at h
    rcases List.mem_cons.mp h with rfl | hlater
    · exact UInt64.le_refl _
    · exact UInt64.le_trans start.le_next (ih hlater)

/-- A walk only ever goes up, but for the last edition. -/
theorem pairwise_walkProbes (start : Edition) (n : Nat) :
    (walkProbes start n).Pairwise Ascends := by
  induction n generalizing start with
  | zero => exact List.Pairwise.nil
  | succ n ih =>
    rw [walkProbes_cons]
    exact List.pairwise_cons.mpr ⟨fun e he =>
      (ascends_next start).trans_le (le_of_mem_walkProbes he), ih (Edition.next start)⟩

/-- The edition whose block a round asks for. -/
def probed? : Round → Option Edition
  | .askingHint e _ => some e
  | .asking _ e _ _ => some e
  | _ => none

/-- The edition whose block a walk asks for. -/
def walked? : Round → Option Edition
  | .asking _ e _ _ => some e
  | _ => none

/-- A round is about to ask for nothing below the first unknown edition. -/
def Seeks (slot : Option Edition) : Round → Prop
  | .askingHint e _ => Frontier.nextUnknown ⟨slot, none⟩ ≤ e
  | .walking _ e _ _ => Frontier.nextUnknown ⟨slot, none⟩ ≤ e
  | .asking _ e _ _ => Frontier.nextUnknown ⟨slot, none⟩ ≤ e
  | _ => True

/-- The editions that a round may still walk over: some in a row, from where its walk stands. -/
def Walks : Round → List Edition → Prop
  | .walking _ e _ _, walk => ∃ n, walk = walkProbes e n
  | .asking _ e _ _, walk => ∃ n, walk = walkProbes e n
  | .confirming, walk => walk = []
  | .fetching _, walk => walk = []
  | .over _, walk => walk = []
  | _, walk => ∃ start n, walk = walkProbes start n

variable {settings : Settings} {origin : Edition} {frontier : Frontier} {verdict : Verdict}
  {slot : Option Edition} {round next : Round} {walk : List Edition}

/-- A round that seeks probes for nothing that is known. -/
theorem Seeks.probed (h : round.Seeks slot) {e : Edition} (probed : round.probed? = some e) :
    Frontier.nextUnknown ⟨slot, none⟩ ≤ e := by
  cases round with
  | askingHint => cases probed; exact h
  | asking => cases probed; exact h
  | _ => cases probed

/-- A round may always stop walking. -/
theorem walks_nil (round : Round) : round.Walks [] := by
  cases round with
  | walking => exact ⟨0, rfl⟩
  | asking => exact ⟨0, rfl⟩
  | confirming => rfl
  | fetching => rfl
  | «over» => rfl
  | _ => exact ⟨0, 0, rfl⟩

/-- A round that asks for an edition of its walk may stop with that. -/
theorem walks_walked (round : Round) : round.Walks round.walked?.toList := by
  cases round with
  | asking found e => exact ⟨1, rfl⟩
  | _ => exact walks_nil _

/-! ## A round that goes on -/

/-- A round that goes on by itself looks at the slot first. -/
theorem Seeks.steps (h : round.Seeks frontier.slot)
    (steps : Steps settings origin frontier round next) : next.Seeks frontier.slot := by
  cases steps with
  | selects => trivial
  | passes => trivial
  | tries e hints =>
    unfold tryHint
    split
    case isTrue => trivial
    case isFalse known => exact UInt64.not_lt.mp known
  | aligns =>
    change frontier.nextUnknown ≤ max frontier.nextUnknown origin
    rw [UInt64.le_iff_toNat_le, Edition.toNat_max]
    exact Nat.le_max_left _ _
  | proceeds =>
    unfold proceed
    split
    · exact h
    · split <;> trivial
  | confirms =>
    unfold confirm
    split
    · trivial
    · split <;> trivial
  | skips => trivial

/-- With the reply to its fetch a round goes on above it, whether that raised the slot or not. -/
theorem Seeks.hears (h : round.Seeks slot) {after : Option Edition}
    (rose : ∀ e, round.probed? = some e → after = slot ∨ after = raised slot e)
    (hears : Hears verdict after round next) : next.Seeks after := by
  have habove {e : Edition} (probed : round.probed? = some e) :
      Frontier.nextUnknown ⟨after, none⟩ ≤ Edition.next e := by
    have hle := h.probed probed
    rcases rose e probed with rfl | rfl
    · exact UInt64.le_trans hle e.le_next
    · exact Frontier.nextUnknown_raised_le hle
  cases hears with
  | found => exact habove rfl
  | missed => exact habove rfl
  | _ => trivial

/-- What a round walks over after it went on by itself, it might have walked over before. -/
theorem Walks.of_steps (steps : Steps settings origin frontier round next)
    (h : next.Walks walk) : round.Walks walk := by
  cases steps with
  | selects => exact h
  | passes => exact h
  | tries e hints =>
    unfold tryHint at h
    split at h <;> exact h
  | aligns => exact ⟨_, h⟩
  | proceeds found e =>
    unfold proceed at h
    split at h
    · exact h
    · split at h <;> exact ⟨0, h⟩
  | confirms =>
    unfold confirm at h
    split at h
    · exact h
    · split at h <;> exact h
  | skips => exact h

/-- What a round walks over after a reply comes after the edition that it waited for. -/
theorem Walks.of_hears (hears : Hears verdict slot round next) (h : next.Walks walk) :
    round.Walks (round.walked?.toList ++ walk) := by
  cases hears with
  | hintFound => exact h
  | hintMissed => exact h
  | found found raised e =>
    obtain ⟨n, rfl⟩ := h
    exact ⟨n + 1, (walkProbes_cons e n).symm⟩
  | missed found e =>
    obtain ⟨n, rfl⟩ := h
    exact ⟨n + 1, (walkProbes_cons e n).symm⟩
  | fetched => exact h

end Round

/-- A fetch that a poller issued, with what was known then. -/
structure Inquiry where
  /-- The fetch. -/
  request : Request
  /-- Whether it is a step of a walk. -/
  walks : Bool
  /-- The slot that was known when it was issued. -/
  slot : Option Edition

namespace Inquiry

/-- It does not ask for the block of an edition that was known, unless that was the last one. -/
def IsNew (inquiry : Inquiry) : Prop :=
  inquiry.request.kind = .block →
    isAbove inquiry.request.uri.edition inquiry.slot = true ∨
      inquiry.request.uri.edition = Edition.last ∧ inquiry.slot = some Edition.last

/-- The editions that were walked over. -/
def walked (inquiries : List Inquiry) : List Edition :=
  (inquiries.filter (·.walks)).map (·.request.uri.edition)

/-- What was walked over in two parts was walked over in each. -/
theorem walked_append (earlier later : List Inquiry) :
    walked (earlier ++ later) = walked earlier ++ walked later := by
  rw [walked, List.filter_append, List.map_append, walked, walked]

end Inquiry

namespace Poller

/-- A poller in a round is about to ask for nothing below the first unknown edition. -/
def Seeks (p : Poller) (slot : Option Edition) : Prop :=
  ∀ round, p.stage.round? = some round → round.Seeks slot

/-- The editions that a poller may still walk over in its round. If it waits for one, they come
after that one. -/
def Stage.Walks : Poller.Stage → List Edition → Prop
  | .rounding round, walk => round.Walks walk
  | .waiting round _, walk => round.Walks (round.walked?.toList ++ walk)
  | _, walk => walk = []

/-- A stage may always walk over nothing more. -/
theorem Stage.walks_nil (stage : Poller.Stage) : stage.Walks [] := by
  cases stage with
  | rounding round => exact round.walks_nil
  | waiting round flight =>
    change round.Walks (round.walked?.toList ++ [])
    rw [List.append_nil]
    exact round.walks_walked
  | _ => rfl

/-- What a poller asks for in its next turn, if the slot is this. -/
def inquiries (p : Poller) (slot : Option Edition) : List Inquiry :=
  match p.stage with
  | .rounding round => (round.request? p.key).toList.map (⟨·, round.walked?.isSome, slot⟩)
  | _ => []

variable {p : Poller} {slot : Option Edition} {round : Round} {walk : List Edition}

/-- Every inquiry of a poller is one of the requests that it issues. -/
theorem map_request_inquiries (p : Poller) (slot : Option Edition) :
    (p.inquiries slot).map (·.request) = p.issues := by
  unfold inquiries issues
  cases p.stage with
  | rounding round =>
    dsimp only
    rw [List.map_map]
    exact List.map_id _
  | _ => rfl

/-- What a poller asks for that asks for nothing below the first unknown edition is new. -/
theorem Seeks.isNew (h : p.Seeks slot) {inquiry : Inquiry} (asked : inquiry ∈ p.inquiries slot) :
    inquiry.IsNew := by
  intro block
  cases hstage : p.stage with
  | rounding round =>
    have hseeks : round.Seeks slot := h round (hstage ▸ rfl)
    rw [inquiries, hstage] at asked
    obtain ⟨request, hrequest, rfl⟩ := List.mem_map.mp asked
    have hnew {e : Edition} (probed : round.probed? = some e) :=
      Frontier.isAbove_or_last_of_nextUnknown_le (hseeks.probed probed)
    cases round with
    | askingHint e => cases List.mem_singleton.mp hrequest; exact hnew rfl
    | asking found e => cases List.mem_singleton.mp hrequest; exact hnew rfl
    | fetching e => cases List.mem_singleton.mp hrequest; cases block
    | _ => cases hrequest
  | _ =>
    rw [inquiries, hstage] at asked
    cases asked

/-- What a poller asks for in its walk comes before what it may walk over then. -/
theorem walks_inquiries (stage : p.stage.round? = some round)
    (walks : round.Walks (round.walked?.toList ++ walk)) (slot : Option Edition) :
    p.stage.Walks (Inquiry.walked (p.inquiries slot) ++ walk) := by
  cases hstage : p.stage with
  | rounding other =>
    rw [hstage] at stage
    cases stage
    rw [inquiries, hstage]
    cases round <;> exact walks
  | waiting other flight =>
    rw [hstage] at stage
    cases stage
    rw [inquiries, hstage]
    exact walks
  | _ =>
    rw [hstage] at stage
    cases stage

end Poller

namespace Watch

variable {settings : Settings} {w v : Watch} {id : PollerId} {p q : Poller} {action : Action}
  {key : DocumentKey} {walk : List Edition} {actions : List Action}

/-! ## The slot in a turn -/

/-- The reply to a probe raises the slot by the edition that was probed, or not at all. -/
theorem slot_takeReply (w : Watch) (id : PollerId) (key : DocumentKey) {round : Round}
    {e : Edition} (probed : round.probed? = some e) (reply : Reply) :
    let v := (w.takeReply id key round reply).watch
    (v.records.frontier key).slot = (w.records.frontier key).slot ∨
      (v.records.frontier key).slot = raised (w.records.frontier key).slot e := by
  let counted : Watch := { w with records := w.records.countVerdict reply.verdict }
  have hcounted : (counted.records.frontier key).slot = (w.records.frontier key).slot := by
    have hkept : (w.records.apply (.countVerdict reply.verdict)).frontiers = w.records.frontiers :=
      Records.frontiers_apply_of_not_given w.records fun _ => rfl
    exact congrArg (fun frontiers => (Frontiers.of frontiers key).slot) hkept
  have hnoted : ((counted.noteSlot ⟨key, e⟩).records.frontier key).slot =
      raised (w.records.frontier key).slot e := by
    rw [slot_noteSlot, hcounted]
  unfold takeReply
  cases round with
  | askingHint other hints =>
    cases probed
    dsimp only
    split
    · split
      · exact .inr hnoted
      · exact .inl hcounted
    · exact .inl hcounted
  | asking raised other misses probes =>
    cases probed
    dsimp only
    split
    · split
      · exact .inr hnoted
      · exact .inl hcounted
    · exact .inl hcounted
  | _ => cases probed

/-- A poller that takes the reply to its fetch goes on above what it asked for. -/
theorem seeks_takeReply (found : w.pollers[id]? = some p) {round : Round}
    (asks : (round.request? p.key).isSome = true)
    (seeks : round.Seeks (w.records.frontier p.key).slot) (reply : Reply) :
    let v := (w.takeReply id p.key round reply).watch
    ∃ q, v.pollers[id]? = some q ∧ q.Seeks (v.records.frontier p.key).slot := by
  intro v
  rcases hears_takeReply found asks reply with ⟨-, hended⟩ | ⟨next, hq, hhears⟩
  · exact ⟨_, hended, fun _ he => nomatch he⟩
  · refine ⟨_, hq, fun round he => ?_⟩
    obtain rfl : next = round := Option.some.inj he
    exact seeks.hears (fun e probed => w.slot_takeReply id p.key probed reply) hhears

/-- A poller that issues a fetch goes on above what it asks for, whether it got the reply at once or
not. -/
theorem seeks_sendRequest (found : w.pollers[id]? = some p) {round : Round} {request : Request}
    (asks : round.request? p.key = some request)
    (seeks : round.Seeks (w.records.frontier p.key).slot) :
    let v := (w.sendRequest id p.key round request).watch
    ∃ q, v.pollers[id]? = some q ∧ q.Seeks (v.records.frontier p.key).slot := by
  have hissued : (w.issue request).watch.pollers[id]? = some p := by
    rw [pollers_issue]
    exact found
  rw [← w.frontier_issue request] at seeks
  unfold sendRequest
  dsimp only
  split
  case h_1 reply _ => exact seeks_takeReply hissued (asks ▸ rfl) seeks reply
  case h_2 =>
    refine ⟨_, getElem?_modify_self hissued _, fun round he => ?_⟩
    cases he
    exact seeks

/-- A poller that closes a round is out of it. -/
theorem Strides.out_of_over (strides : w.Strides id p v q) {raised : Bool}
    (stage : p.stage = .rounding (.over raised)) : q.stage.round? = none := by
  cases strides with
  | waits idle =>
    rw [Poller.isRounding, stage] at idle
    cases idle
  | begins between =>
    rw [stage] at between
    cases between
  | takes wake rests =>
    rw [stage] at rests
    cases rests
  | steps round next rounding steps =>
    cases stage.symm.trans rounding
    cases steps
  | asks round request flight rounding asks =>
    cases stage.symm.trans rounding
    cases asks
  | hears round next reply rounding asks =>
    rw [stage] at rounding
    cases rounding
    cases asks
  | _ => rfl

/-- In a turn of its own a poller in a round goes on to ask for nothing below the first unknown
edition. -/
theorem seeks_turn (found : w.pollers[id]? = some p) (poised : p.Poised)
    (inRound : p.stage.isInRound = true) (seeks : p.Seeks (w.records.frontier p.key).slot) :
    let v := w.act (.work (.poller id))
    ∃ q, v.pollers[id]? = some q ∧ q.Seeks (v.records.frontier p.key).slot := by
  change ∃ q, (w.stepPoller id).watch.pollers[id]? = some q ∧
    q.Seeks ((w.stepPoller id).watch.records.frontier p.key).slot
  have hset {round next : Round} (stage : p.stage = .rounding round)
      (steps : Round.Steps w.settings p.origin (w.records.frontier p.key) round next) :
      let v := (w.setRound id next).watch
      ∃ q, v.pollers[id]? = some q ∧ q.Seeks (v.records.frontier p.key).slot := by
    refine ⟨_, getElem?_modify_self found _, fun other he => ?_⟩
    cases he
    exact (seeks round (stage ▸ rfl)).steps steps
  have hgone : ∃ q, (w.abandon id).watch.pollers[id]? = some q ∧
      q.Seeks ((w.abandon id).watch.records.frontier p.key).slot :=
    ⟨_, getElem?_modify_self found _, fun _ he => nomatch he⟩
  unfold stepPoller
  rw [found]
  dsimp only
  cases hstage : p.stage with
  | rounding round =>
    have hseeks : round.Seeks (w.records.frontier p.key).slot := seeks round (hstage ▸ rfl)
    dsimp only
    unfold stepRound
    cases round with
    | askingHint e hints => exact seeks_sendRequest found rfl hseeks
    | asking raised e misses probes => exact seeks_sendRequest found rfl hseeks
    | fetching e => exact seeks_sendRequest found rfl hseeks
    | «over» raised =>
      obtain ⟨q, hq, hstrides⟩ := strides_closeRound found hstage
      exact ⟨q, hq, fun _ he => nomatch (hstrides.out_of_over hstage).symm.trans he⟩
    | hinting hints =>
      cases hints with
      | nil => exact hset hstage .passes
      | cons e hints =>
        dsimp only
        split
        · exact hset hstage (.tries e hints)
        · exact hgone
    | opening hints =>
      dsimp only
      split
      · exact hset hstage (.selects hints)
      · exact hgone
    | aligning raised =>
      dsimp only
      split
      · exact hset hstage (.aligns raised)
      · exact hgone
    | walking raised e misses probes => exact hset hstage (.proceeds raised e misses probes)
    | confirming =>
      dsimp only
      split
      · exact hset hstage .confirms
      · exact hset hstage .skips
  | waiting round flight =>
    have hseeks : round.Seeks (w.records.frontier p.key).slot := seeks round (hstage ▸ rfl)
    dsimp only
    split
    · obtain ⟨marked, -, hended⟩ := getElem?_endPoller found p.key true
      exact ⟨_, hended, fun _ he => nomatch he⟩
    · split
      · exact ⟨p, found, seeks⟩
      · exact seeks_takeReply found (poised round flight hstage) hseeks _
  | _ =>
    rw [hstage] at inRound
    cases inRound

/-! ## What a round asks for -/

/-- What a poller walks over in its turn and afterwards, it might have walked over before. -/
theorem walks_strides (strides : w.Strides id p v q) (inRound : p.stage.isInRound = true)
    (walks : q.stage.Walks walk) (slot : Option Edition) :
    p.stage.Walks (Inquiry.walked (p.inquiries slot) ++ walk) := by
  obtain ⟨current, hcurrent⟩ : ∃ round, p.stage.round? = some round := by
    cases hstage : p.stage with
    | rounding round => exact ⟨round, rfl⟩
    | waiting round flight => exact ⟨round, rfl⟩
    | _ =>
      rw [hstage] at inRound
      cases inRound
  -- out of its round, a poller walks no further
  have hout (nothing : walk = []) :
      p.stage.Walks (Inquiry.walked (p.inquiries slot) ++ walk) := by
    refine Poller.walks_inquiries hcurrent ?_ slot
    rw [nothing, List.append_nil]
    exact current.walks_walked
  cases strides with
  | waits idle =>
    have hnone : p.inquiries slot = [] := by
      rw [Poller.isRounding] at idle
      unfold Poller.inquiries
      cases hstage : p.stage with
      | rounding round =>
        rw [hstage] at idle
        cases idle
      | _ => rfl
    rw [hnone]
    exact walks
  | begins between =>
    rw [between] at inRound
    cases inRound
  | takes wake rests =>
    rw [rests] at inRound
    cases inRound
  | steps round next stage steps =>
    have hquiet : round.walked? = none := by cases steps <;> rfl
    have hround : p.stage.round? = some round := by rw [stage]; rfl
    refine Poller.walks_inquiries hround ?_ slot
    rw [hquiet]
    exact Round.Walks.of_steps steps walks
  | asks round request flight stage =>
    exact Poller.walks_inquiries (by rw [stage]; rfl) walks slot
  | hears round next reply stage asks taken hears =>
    exact Poller.walks_inquiries stage (Round.Walks.of_hears hears walks) slot
  | _ => exact hout walks

/-- What a poller asks for in what happens. -/
def inquiriesOf (w : Watch) (id : PollerId) : Action → List Inquiry
  | .work (.poller other) =>
    if other = id then
      (w.pollers[id]?).toList.flatMap fun p => p.inquiries (w.records.frontier p.key).slot
    else []
  | _ => []

/-- What a poller asks for along some actions until it is out of its round. -/
def roundInquiries (w : Watch) (id : PollerId) : List Action → List Inquiry
  | [] => []
  | action :: rest =>
    if w.isInRound id then w.inquiriesOf id action ++ (w.act action).roundInquiries id rest else []

/-- Nobody but a poller itself raises the slot of a document along some actions until the poller is
out of its round. -/
def LeavesSlot (w : Watch) (id : PollerId) (key : DocumentKey) : List Action → Prop
  | [] => True
  | action :: rest =>
    w.isInRound id = true →
      (action ≠ .work (.poller id) →
        ((w.act action).records.frontier key).slot = (w.records.frontier key).slot) ∧
      (w.act action).LeavesSlot id key rest

/-- A poller that alone takes turns is disturbed by nobody. -/
theorem leavesSlot_replicate (w : Watch) (id : PollerId) (key : DocumentKey) (n : Nat) :
    w.LeavesSlot id key (List.replicate n (.work (.poller id))) := by
  induction n generalizing w with
  | zero => trivial
  | succ n ih => exact fun _ => ⟨fun other => absurd rfl other, ih _⟩

/-- In its own turn, a poller inquires from where its document stands. -/
theorem inquiriesOf_turn (found : w.pollers[id]? = some p) :
    w.inquiriesOf id (.work (.poller id)) =
      p.inquiries (w.records.frontier p.key).slot := by
  rw [inquiriesOf, if_pos rfl, found]
  exact List.append_nil _

/-- A poller inquires after nothing when others have their turn. -/
theorem inquiriesOf_of_ne (idle : action ≠ .work (.poller id)) : w.inquiriesOf id action = [] := by
  unfold inquiriesOf
  split
  case h_1 other => exact if_neg fun (he : other = id) => idle (he ▸ rfl)
  case h_2 => rfl

/-- What is asked for is what is fetched. -/
theorem map_request_roundInquiries (w : Watch) (id : PollerId) (actions : List Action) :
    (w.roundInquiries id actions).map (·.request) = w.roundFetches id actions := by
  induction actions generalizing w with
  | nil => rfl
  | cons action rest ih =>
    rw [roundInquiries, roundFetches]
    split
    case isFalse => rfl
    case isTrue hin =>
      rw [List.map_append, ih]
      refine congrArg (· ++ _) ?_
      by_cases hturn : action = .work (.poller id)
      · subst hturn
        cases hp : w.pollers[id]? with
        | none =>
          rw [isInRound, hp] at hin
          cases hin
        | some p => rw [inquiriesOf_turn hp, fetchesIn_turn hp, Poller.map_request_inquiries]
      · rw [inquiriesOf_of_ne hturn, fetchesIn_of_ne hturn]
        rfl

/-- Wherever a round stands, it walks on over editions in a row, and asks for nothing that is known
if it was about to ask for nothing that is known, unless that is the last edition. -/
theorem isNew_roundInquiries (regular : w.Regular settings) (found : w.pollers[id]? = some p)
    (seeks : p.Seeks (w.records.frontier p.key).slot)
    (undisturbed : w.LeavesSlot id p.key actions) :
    p.stage.Walks (Inquiry.walked (w.roundInquiries id actions)) ∧
      ∀ inquiry ∈ w.roundInquiries id actions, inquiry.IsNew := by
  induction actions generalizing w p with
  | nil => exact ⟨p.stage.walks_nil, List.forall_mem_nil _⟩
  | cons action rest ih =>
    rw [roundInquiries]
    split
    case isFalse => exact ⟨p.stage.walks_nil, List.forall_mem_nil _⟩
    case isTrue hin =>
      obtain ⟨hleaves, hlater⟩ := undisturbed hin
      rw [isInRound, found] at hin
      obtain ⟨q, hq, hbecomes⟩ := regular.becomes found action
      have hrest := ih (regular_act regular action) hq
      rw [hbecomes.key] at hrest
      cases hbecomes with
      | told action idle q told =>
        rw [inquiriesOf_of_ne idle, List.nil_append]
        rw [hleaves idle, told.stage] at hrest
        exact hrest (fun round stage => seeks round (told.stage ▸ stage)) hlater
      | turns q strides =>
        obtain ⟨r, hr, hseeks⟩ := seeks_turn found (regular.poised id p found) hin seeks
        obtain rfl : r = q := Option.some.inj (hr.symm.trans hq)
        obtain ⟨hwalks, hnew⟩ := hrest hseeks hlater
        rw [inquiriesOf_turn found, Inquiry.walked_append]
        refine ⟨walks_strides strides hin hwalks _, fun inquiry hasked => ?_⟩
        rcases List.mem_append.mp hasked with hnow | hafter
        · exact seeks.isNew hnow
        · exact hnew inquiry hafter
      | wakes due rests =>
        rw [Option.any_some, rests] at hin
        cases hin
      | crashes =>
        obtain ⟨hwalks, hnew⟩ := hrest (fun _ he => by cases he) hlater
        rw [inquiriesOf_of_ne (fun he => by cases he), List.nil_append]
        exact ⟨hwalks ▸ p.stage.walks_nil, hnew⟩

/-- A round goes forward, up to the end of the range. Whatever was known and whatever it was told,
as long as nobody else raises the slot meanwhile, its walk goes over editions in a row, each above
the ones before, and whenever it asks for a block, that edition is above the slot. There is one
exception to both: the last edition comes after itself, and a round asks for it even if it is the
slot. -/
theorem round_asks_forward (arises : w.Arises settings) (found : w.pollers[id]? = some p)
    {hints : List Edition} (begun : p.stage = .rounding (.opening hints))
    (undisturbed : w.LeavesSlot id p.key actions) :
    let inquiries := w.roundInquiries id actions
    let walk := Inquiry.walked inquiries
    inquiries.map (·.request) = w.roundFetches id actions ∧
      (∃ start n, walk = Round.walkProbes start n) ∧
      (walk.Pairwise fun a b => a < b ∨ a = Edition.last ∧ b = Edition.last) ∧
      ∀ inquiry ∈ inquiries, inquiry.request.kind = .block →
        isAbove inquiry.request.uri.edition inquiry.slot = true ∨
          inquiry.request.uri.edition = Edition.last ∧ inquiry.slot = some Edition.last := by
  intro inquiries walk
  have hseeks : p.Seeks (w.records.frontier p.key).slot := by
    intro round he
    rw [begun] at he
    cases he
    trivial
  obtain ⟨hwalks, hnew⟩ := isNew_roundInquiries arises.regular found hseeks undisturbed
  rw [begun] at hwalks
  obtain ⟨start, n, hwalk⟩ := hwalks
  have hpairwise : walk.Pairwise Round.Ascends :=
    (show walk = _ from hwalk) ▸ Round.pairwise_walkProbes start n
  exact ⟨map_request_roundInquiries w id actions, ⟨start, n, hwalk⟩, hpairwise, hnew⟩

/-- A poller that may make four probes begins with the slot two below the last edition, while time
passes. It asks for the two editions above, which exist, and then for the last one twice again. -/
theorem round_asks_forward_to_end :
    let notes : DocumentKey := ⟨.uniform 7, "notes"⟩
    let last := Edition.last
    let settings : Settings := { Settings.standard with maxProbes := 4 }
    let turn : Action := .work (.poller 0)
    let w := (initial settings []).run [.noteSlot ⟨notes, last - 2⟩,
      .setNetwork ⟨[⟨notes, last - 1, last, some .data, some .data, []⟩], 0, 0⟩,
      .resolve ⟨notes, 0⟩ false "ann", .work (.poller 0)]
    let inquiries := w.roundInquiries 0 (.elapse 5 :: List.replicate 15 turn)
    (Inquiry.walked inquiries = [last - 1, last, last, last] ∧
      inquiries.map (·.slot) =
        [some (last - 2), some (last - 1), some last, some last, some last]) ∧
      ((Inquiry.walked inquiries).Pairwise fun a b => a < b ∨ a = last ∧ b = last) ∧
      ∀ inquiry ∈ inquiries, inquiry.request.kind = .block →
        isAbove inquiry.request.uri.edition inquiry.slot = true ∨
          inquiry.request.uri.edition = last ∧ inquiry.slot = some last := by
  intro notes last settings turn w inquiries
  have hstage : (w.pollers[0]?).map (fun p => (p.stage.opening?, p.flight?.isSome, p.key)) =
      some (some [], false, notes) := by decide +kernel
  obtain ⟨p, hp, hparts⟩ := Option.map_eq_some_iff.mp hstage
  obtain ⟨hhints, hrest⟩ := Prod.mk.inj hparts
  obtain ⟨hidle, hkey⟩ := Prod.mk.inj hrest
  have harises : w.Arises settings := ⟨[], _, rfl⟩
  have hundisturbed :
      w.LeavesSlot 0 p.key (.elapse 5 :: List.replicate 15 turn) := by
    refine fun _ => ⟨fun _ => ?_, leavesSlot_replicate _ 0 p.key 15⟩
    rw [hkey]
    decide +kernel
  refine ⟨by decide +kernel, ?_⟩
  exact (round_asks_forward harises hp (Poller.eq_of_opening? hhints hidle) hundisturbed).2.2

/-- A poller of a document whose slot is the last edition asks for that edition again and again: its
walk goes nowhere, and nothing that it asks for is above the slot. -/
theorem round_asks_again_at_end :
    let notes : DocumentKey := ⟨.uniform 7, "notes"⟩
    let last := Edition.last
    let w := (initial Settings.standard []).run [.noteSlot ⟨notes, last⟩,
      .resolve ⟨notes, 0⟩ false "ann", .work (.poller 0)]
    let turns := List.replicate 10 (.work (.poller 0))
    let inquiries := w.roundInquiries 0 turns
    (w.pollers[0]?).map (fun p => (p.stage.opening?, p.key)) = some (some [], notes) ∧
      w.LeavesSlot 0 notes turns ∧
      Inquiry.walked inquiries = [last, last, last] ∧
      ¬(Inquiry.walked inquiries).Pairwise (· < ·) ∧
      inquiries.map (fun inquiry => isAbove inquiry.request.uri.edition inquiry.slot) =
        [false, false, false] := by
  intro notes last w turns inquiries
  refine ⟨by decide +kernel, leavesSlot_replicate w 0 notes 10, ?_⟩
  decide +kernel

end Watch

end EditionWatch
