import EditionWatch.Proofs.Turns

/-!
# No edition is made up

The slot of a document and its known good edition rise only to editions that an incident shows, at
the very moment of the incident: the owner or a listener named the edition, or the reply to a fetch
of just this edition was taken. A reply that says nothing of the kind, a fetch without a reply and
one that was dropped move neither.
-/

namespace EditionWatch

namespace Incident

/-- Nothing was said and no reply was taken but that an edition is absent, or that nothing is
known of it. -/
def isVain : Incident → Bool
  | .word _ _ => false
  | .reply _ _ answer => answer = .fault .notFound || answer = .fault .other
  | _ => true

/-- Nobody said that an edition was fetched, no content was fetched, and no block was found for a
probe of the owner that takes it for a proof. -/
def provesNothing : Incident → Bool
  | .word _ fetched => !fetched
  | .reply purpose request answer =>
    match request.kind with
    | .content => answer ≠ .data
    | .block =>
      purpose ≠ some (.probe true) || answer = .fault .notFound || answer = .fault .other
  | _ => true

/-- What is in vain shows no slot. -/
theorem not_showsSlot_of_isVain {d : Incident} (vain : d.isVain = true) (uri : EditionUri) :
    ¬d.ShowsSlot uri := by
  cases d with
  | word told fetched => cases vain
  | reply purpose request answer =>
    rintro ⟨-, rfl | ⟨-, rfl⟩⟩
    · cases vain
    · cases vain
  | _ => exact fun h => h

/-- What proves nothing shows no good edition. -/
theorem not_showsGood_of_provesNothing {d : Incident} (h : d.provesNothing = true)
    (uri : EditionUri) : ¬d.ShowsGood uri := by
  cases d with
  | word told fetched =>
    rintro ⟨-, rfl⟩
    cases h
  | reply purpose request answer =>
    unfold provesNothing at h
    rintro ⟨-, ⟨hkind, rfl⟩ | ⟨hkind, rfl, rfl | rfl⟩⟩ <;> simp [hkind] at h
  | _ => exact fun h => h

/-- What proves that an edition is good shows more than that it exists. -/
theorem provesNothing_of_isVain {d : Incident} (vain : d.isVain = true) :
    d.provesNothing = true := by
  cases d with
  | word told fetched => cases vain
  | reply purpose request answer =>
    obtain ⟨kind, uri⟩ := request
    simp only [isVain, Bool.or_eq_true, decide_eq_true_eq] at vain
    cases kind <;> rcases vain with rfl | rfl <;> simp [provesNothing]
  | _ => rfl

end Incident

/-! ## Changes that incidents show -/

namespace Records

variable {r : Records} {key : DocumentKey} {heard : List Incident} {change : Change} {e : Edition}

/-- A slot that the records were given is shown by an incident. -/
theorem shown_of_given (shown : change.IsShownBy heard) (given : change.given? key = some e) :
    ∃ d ∈ heard, d.ShowsSlot ⟨key, e⟩ := by
  have hnamed {uri : EditionUri}
      (h : (if uri.key = key then some uri.edition else none) = some e) : uri = ⟨key, e⟩ := by
    split at h
    case isTrue hk =>
      rw [← hk, ← Option.some.inj h]
    case isFalse => cases h
  cases change with
  | noteSlot now uri => exact hnamed given ▸ shown
  | noteGood now uri =>
    obtain ⟨d, hd, hgood⟩ := shown
    exact ⟨d, hd, hnamed given ▸ hgood.showsSlot⟩
  | _ => cases given

/-- A good edition that the records were given is shown by an incident. -/
theorem shown_of_givenGood (shown : change.IsShownBy heard)
    (given : change.givenGood? key = some e) : ∃ d ∈ heard, d.ShowsGood ⟨key, e⟩ := by
  cases change with
  | noteGood now uri =>
    simp only [Change.givenGood?] at given
    split at given
    case isTrue hk =>
      have huri : uri = ⟨key, e⟩ := by rw [← hk, ← Option.some.inj given]
      exact huri ▸ shown
    case isFalse => cases given
  | _ => cases given

/-- A newest edition that one step leaves or raises to an edition with some property, and so does
the next, is left or raised to such an edition by both. -/
theorem left_or_raised {P : Edition → Prop} {first second third : Option Edition}
    (h : second = first ∨ ∃ e, second = some e ∧ P e)
    (h' : third = second ∨ ∃ e, third = some e ∧ P e) :
    third = first ∨ ∃ e, third = some e ∧ P e := by
  rcases h' with hsame | hraised
  · rwa [hsame]
  · exact .inr hraised

/-- An edition is left where it was, or raised to what was given. -/
theorem raisedBy_cases (known given : Option Edition) :
    raisedBy known given = known ∨ ∃ e, given = some e ∧ raisedBy known given = some e := by
  cases given with
  | none => exact .inl rfl
  | some e =>
    cases habove : isAbove e known with
    | false => exact .inl (raised_of_not_isAbove habove)
    | true => exact .inr ⟨e, rfl, raised_of_isAbove habove⟩

/-- The newest editions of a document are left, or raised to what incidents show. -/
structure Reveals (heard : List Incident) (key : DocumentKey) (before after : Frontier) : Prop where
  slot : after.slot = before.slot ∨
    ∃ e, after.slot = some e ∧ ∃ d ∈ heard, d.ShowsSlot ⟨key, e⟩
  good : after.good = before.good ∨
    ∃ e, after.good = some e ∧ ∃ d ∈ heard, d.ShowsGood ⟨key, e⟩

namespace Reveals

variable {before after : Frontier}

/-- If all incidents were in vain, the slot is as it was. -/
theorem slot_eq (h : Reveals heard key before after) (vain : ∀ d ∈ heard, d.isVain = true) :
    after.slot = before.slot := by
  refine h.slot.resolve_right ?_
  rintro ⟨e, -, d, hd, hshows⟩
  exact Incident.not_showsSlot_of_isVain (vain d hd) ⟨key, e⟩ hshows

/-- If nothing was proved, the good edition is as it was. -/
theorem good_eq (h : Reveals heard key before after)
    (nothing : ∀ d ∈ heard, d.provesNothing = true) : after.good = before.good := by
  refine h.good.resolve_right ?_
  rintro ⟨e, -, d, hd, hshows⟩
  exact Incident.not_showsGood_of_provesNothing (nothing d hd) ⟨key, e⟩ hshows

/-- If all incidents were in vain, the frontier is as it was. -/
theorem eq_of_isVain (h : Reveals heard key before after)
    (vain : ∀ d ∈ heard, d.isVain = true) : after = before := by
  have hslot := h.slot_eq vain
  have hgood := h.good_eq fun d hd => Incident.provesNothing_of_isVain (vain d hd)
  cases before
  cases after
  exact Frontier.mk.injEq .. ▸ ⟨hslot, hgood⟩

/-- A slot that was unknown before is shown by an incident. -/
theorem shown_slot (h : Reveals heard key .unknown after) (slot : after.slot = some e) :
    ∃ d ∈ heard, d.ShowsSlot ⟨key, e⟩ := by
  rcases h.slot with hnone | ⟨other, hother, hshown⟩
  · rw [slot] at hnone
    cases hnone
  · rw [slot, Option.some.injEq] at hother
    exact hother ▸ hshown

/-- A good edition that was unknown before is shown by an incident. -/
theorem shown_good (h : Reveals heard key .unknown after) (good : after.good = some e) :
    ∃ d ∈ heard, d.ShowsGood ⟨key, e⟩ := by
  rcases h.good with hnone | ⟨other, hother, hshown⟩
  · rw [good] at hnone
    cases hnone
  · rw [good, Option.some.injEq] at hother
    exact hother ▸ hshown

end Reveals

/-- A change raises the newest editions to nothing but what incidents show. -/
theorem reveals_apply (sound : ∀ key, (r.frontier key).Sound) (shown : change.IsShownBy heard)
    (key : DocumentKey) : Reveals heard key (r.frontier key) ((r.apply change).frontier key) := by
  rw [frontier_apply sound change key]
  constructor
  · refine (raisedBy_cases (r.frontier key).slot (change.given? key)).imp_right ?_
    rintro ⟨e, hgiven, hraised⟩
    exact ⟨e, hraised, shown_of_given shown hgiven⟩
  · refine (raisedBy_cases (r.frontier key).good (change.givenGood? key)).imp_right ?_
    rintro ⟨e, hgiven, hraised⟩
    exact ⟨e, hraised, shown_of_givenGood shown hgiven⟩

/-- Several changes raise the newest editions to nothing but what incidents show. -/
theorem reveals_run {history changes : List Change} (peaks : Peaks r history)
    (shown : ∀ change ∈ changes, change.IsShownBy heard) (key : DocumentKey) :
    Reveals heard key (r.frontier key) ((r.run changes).frontier key) := by
  induction changes generalizing r history with
  | nil => exact ⟨.inl rfl, .inl rfl⟩
  | cons change rest ih =>
    have hfirst := reveals_apply peaks.sound (shown change List.mem_cons_self) key
    have hrest := ih (peaks.apply change) fun c hc => shown c (List.mem_cons_of_mem _ hc)
    exact ⟨left_or_raised hfirst.slot hrest.slot, left_or_raised hfirst.good hrest.good⟩

end Records

/-- A fetch was issued for some purpose, and fetches what this purpose asks for. -/
def Request.IsIssued (request : Request) (issued : List Request) (purpose : Option Purpose) :
    Prop :=
  request ∈ issued ∧ ∀ p, purpose = some p → request.kind = p.fetches

namespace Watch

variable {w : Watch} {key : DocumentKey} {d : Incident}

/-! ## What an action moves -/

/-- After a run, the newest editions are the greatest ones that some history of changes gave. -/
theorem peaks_run (settings : Settings) (listeners : List Listener) (actions : List Action) :
    ∃ history, Records.Peaks ((initial settings listeners).run actions).records history := by
  obtain ⟨history, hrecords, -⟩ := records_run (initial settings listeners) actions
  exact ⟨history, hrecords ▸ (Records.Peaks.initial settings.maxTemporary.toNat).run history⟩

/-- An action moves the newest editions of a document only to what its incidents show. -/
theorem reveals_act (settings : Settings) (listeners : List Listener) (actions : List Action)
    (action : Action) (key : DocumentKey) :
    let w := (initial settings listeners).run actions
    Records.Reveals (w.incidents action) key (w.records.frontier key)
      ((w.act action).records.frontier key) := by
  intro w
  obtain ⟨history, hpeaks⟩ := peaks_run settings listeners actions
  have hnumbered : w.Numbered := numbered_run settings listeners actions
  have hfounded : w.Founded := founded_run settings listeners actions
  obtain ⟨changes, hrecords, hshown⟩ := (explains_act hnumbered hfounded action).records
  rw [hrecords]
  exact Records.reveals_run hpeaks hshown key

/-! ## Replies belong to fetches that were issued -/

/-- What is dropped brings no reply. -/
theorem not_reply_of_mem_dropped {flight? : Option Flight} {purpose : Option Purpose}
    {request : Request} {answer : Reply} :
    Incident.reply purpose request answer ∉ dropped flight? := by
  intro h
  obtain ⟨flight, -, he⟩ := List.mem_map.mp h
  cases he

/-- A round asks for what it then issues. -/
theorem mem_fetches_sendRequest {id : PollerId} {p : Poller} (found : w.pollers[id]? = some p)
    {round : Round} {request : Request} (asks : round.request? p.key = some request) :
    request ∈ (w.sendRequest id p.key round request).watch.fetches := by
  have hissued : request ∈ (w.issue request).watch.fetches := by
    rw [fetches_issue]
    exact List.mem_append_right _ (List.mem_singleton.mpr rfl)
  have hfound : (w.issue request).watch.pollers[id]? = some p := by
    rw [pollers_issue]
    exact found
  unfold sendRequest
  dsimp only
  split
  case h_1 reply _ => exact (accounts_takeReply hfound asks reply).fetches hissued
  case h_2 => exact hissued

/-- The reply that a poller takes is one to a fetch that was issued before, or in this turn. -/
theorem isIssued_stepPoller (founded : w.Founded) {id : PollerId} {purpose : Option Purpose}
    {request : Request} {answer : Reply}
    (heard : .reply purpose request answer ∈ w.incidentsOfPoller id) :
    request.IsIssued (w.stepPoller id).watch.fetches purpose := by
  have hnone {p : Purpose} (h : none = some p) : request.kind = p.fetches := nomatch h
  have hgrows := (explains_stepPoller founded id).fetches
  unfold incidentsOfPoller at heard
  split at heard
  · cases heard
  case h_2 p hfound =>
    split at heard
    · rcases List.mem_append.mp heard with hdropped | hexit
      · exact absurd hdropped not_reply_of_mem_dropped
      · unfold exits at hexit
        split at hexit
        · cases List.mem_singleton.mp hexit
        · cases hexit
    · unfold heardBy fetchIn at heard
      cases hstage : p.stage with
      | waiting round flight =>
        rw [hstage] at heard
        obtain ⟨reply, -, he⟩ := List.mem_map.mp heard
        cases he
        have hmem : p ∈ w.pollers := List.mem_iff_getElem?.mpr ⟨id, hfound⟩
        exact ⟨hgrows (founded.pollers p hmem round flight hstage).2, fun _ => hnone⟩
      | rounding round =>
        rw [hstage] at heard
        dsimp only at heard
        cases hasks : round.request? p.key with
        | none =>
          rw [hasks] at heard
          cases heard
        | some asked =>
          rw [hasks] at heard
          obtain ⟨reply, -, he⟩ := List.mem_map.mp heard
          cases he
          have hturn : w.stepPoller id = w.sendRequest id p.key round asked := by
            unfold stepPoller
            rw [hfound]
            dsimp only
            rw [hstage]
            cases round <;> cases hasks <;> rfl
          rw [hturn]
          exact ⟨mem_fetches_sendRequest hfound hasks, fun _ => hnone⟩
      | submitted evicted => rw [hstage] at heard; cases heard
      | resting wake => rw [hstage] at heard; cases heard
      | ended => rw [hstage] at heard; cases heard

/-- The reply that an errand takes is one to a fetch that was issued before, or in this turn. -/
theorem isIssued_stepErrand (founded : w.Founded) {id : Nat} {purpose : Option Purpose}
    {request : Request} {answer : Reply}
    (heard : .reply purpose request answer ∈ w.incidentsOfErrand id) :
    request.IsIssued (w.stepErrand id).watch.fetches purpose := by
  unfold incidentsOfErrand at heard
  split at heard
  · cases heard
  case h_2 errand hfound =>
    have hmem := List.mem_of_find?_eq_some hfound
    rw [stepErrand_eq hfound]
    dsimp only at heard ⊢
    cases hreply : w.replyTo errand with
    | none =>
      rw [hreply] at heard
      dsimp only at heard
      split at heard
      · exact absurd heard not_reply_of_mem_dropped
      · cases heard
    | some reply =>
      rw [hreply] at heard
      dsimp only at heard ⊢
      cases List.mem_singleton.mp heard
      obtain ⟨hasks, -⟩ : _ ∧ Accounts [] _ 0 w (w.fetchFor errand).watch :=
        accounts_fetchFor founded hmem
      have hissued : (w.fetchFor errand).flight.request ∈ (w.fetchFor errand).watch.fetches := by
        unfold fetchFor
        cases hflight : errand.flight with
        | none =>
          rw [fetches_issue]
          exact List.mem_append_right _ (List.mem_singleton.mpr rfl)
        | some flight => exact (founded.errands errand hmem flight hflight).2
      have hconcluded :=
        (accounts_conclude (w.fetchFor errand).watch errand hasks answer).fetches hissued
      refine ⟨?_, fun p hp => ?_⟩
      · rw [fetches, dismiss, journal_reap]
        exact hconcluded
      · rw [hasks, ← Option.some.inj hp]

/-- A reply that is taken in an action was asked for by a fetch that was issued. -/
theorem isIssued_act (founded : w.Founded) {action : Action} {purpose : Option Purpose}
    {request : Request} {answer : Reply}
    (heard : .reply purpose request answer ∈ w.incidents action) :
    request.IsIssued (w.act action).fetches purpose := by
  unfold incidents at heard
  split at heard
  case isTrue => cases heard
  case isFalse hcall =>
    rw [act, if_neg hcall]
    have hpromotions (key : DocumentKey) (options : SubscribeOptions) :
        Incident.reply purpose request answer ∉
          if options.persistent then [] else w.promotions key options.polls := by
      unfold promotions
      split
      · exact List.not_mem_nil
      · split
        · split
          · exact fun h => by cases List.mem_singleton.mp h
          · exact List.not_mem_nil
        · exact List.not_mem_nil
    cases action with
    | work job =>
      cases job with
      | poller id => exact isIssued_stepPoller founded heard
      | errand id => exact isIssued_stepErrand founded heard
      | sweeper => cases heard
      | delivery =>
        simp only [incidentsIn, incidentsOfTurn] at heard
        split at heard
        · obtain ⟨_, _, he⟩ | ⟨_, he⟩ := cases_of_mem_sayingsOfNext heard <;> cases he
        · cases heard
    | crash job => cases job <;> first | exact absurd heard not_reply_of_mem_dropped | cases heard
    | dropProbe =>
      obtain ⟨errand, -, hdropped⟩ := List.mem_flatMap.mp heard
      exact absurd hdropped not_reply_of_mem_dropped
    | subscribe key name options => exact absurd heard (hpromotions key options)
    | subscribeContent key name quiet options => exact absurd heard (hpromotions key options)
    | probe uri good =>
      have hheld : w.held = true := by simpa [Action.isCall] using hcall
      exact isIssued_stepErrand ((keeps_asking hheld uri good).founded founded) heard
    | noteSlot uri => cases List.mem_singleton.mp heard
    | noteGood uri => cases List.mem_singleton.mp heard
    | noteFetched uri metadata => cases List.mem_singleton.mp heard
    | shutdown => cases List.mem_singleton.mp heard
    | _ => cases heard

/-- A reply that is taken in a run was asked for by a fetch that was issued. -/
theorem isIssued_run (numbered : w.Numbered) (founded : w.Founded) (actions : List Action)
    {purpose : Option Purpose} {request : Request} {answer : Reply}
    (heard : .reply purpose request answer ∈ w.annals actions) :
    request.IsIssued (w.run actions).fetches purpose := by
  induction actions generalizing w with
  | nil => cases heard
  | cons action rest ih =>
    have hnumbered := numbered_act numbered action
    have hfounded := (explains_act numbered founded action).founded founded
    rcases List.mem_append.mp heard with hfirst | hrest
    · have hgrows := (explains_run hnumbered hfounded rest).fetches
      exact (isIssued_act founded hfirst).imp_left fun hin => hgrows hin
    · exact ih hnumbered hfounded hrest

/-! ## What the whole run shows -/

/-- The newest editions of documents are shown by the incidents of the run. -/
theorem reveals_run (settings : Settings) (listeners : List Listener) (actions : List Action)
    (key : DocumentKey) :
    let start := initial settings listeners
    Records.Reveals (start.annals actions) key .unknown
      ((start.run actions).records.frontier key) := by
  intro start
  obtain ⟨changes, hrecords, hshown⟩ := (explains_run (numbered_initial settings listeners)
    (founded_initial settings listeners) actions).records
  rw [hrecords]
  exact Records.reveals_run (Records.Peaks.initial settings.maxTemporary.toNat) hshown key

/-- For every run and every document: an edition that is known to exist was shown by an incident of
the run, which is word of just this edition, or a reply that brought it or found it and lost it
again. The replies belong to fetches that were issued, by errands for what they are for. The slot
moves only in an action, to an edition that an incident of this same action shows. And an action
that brings neither word nor any reply, except for those that an edition is absent or that nothing
is known of it, moves neither newest edition of any document. -/
theorem slots_grounded (settings : Settings) (listeners : List Listener) (actions : List Action)
    (key : DocumentKey) :
    let start := initial settings listeners
    let w := start.run actions
    (∀ e, (w.records.frontier key).slot = some e →
      ∃ d ∈ start.annals actions, d.ShowsSlot ⟨key, e⟩) ∧
    (∀ purpose request answer, .reply purpose request answer ∈ start.annals actions →
      request.IsIssued w.fetches purpose) ∧
    (∀ action, ((w.act action).records.frontier key).slot ≠ (w.records.frontier key).slot →
      ∃ e, ((w.act action).records.frontier key).slot = some e ∧
        ∃ d ∈ w.incidents action, d.ShowsSlot ⟨key, e⟩) ∧
    ∀ action, (∀ d ∈ w.incidents action, d.isVain = true) →
      (w.act action).records.frontier key = w.records.frontier key := by
  intro start w
  have hact := reveals_act settings listeners actions
  refine ⟨fun e hslot => ?_, ?_, fun action hmoved => ?_, fun action hvain => ?_⟩
  · exact (reveals_run settings listeners actions key).shown_slot hslot
  · exact fun _ _ _ => isIssued_run (numbered_initial settings listeners)
      (founded_initial settings listeners) actions
  · exact (hact action key).slot.resolve_left hmoved
  · exact (hact action key).eq_of_isVain hvain

/-- For every run and every document: an edition that is known good was shown to be by an incident
of the run, which is word that just this edition was fetched, or a reply that brought its content,
or the reply to a probe of the owner that takes its block for a proof and found it, even if it was
lost again. The replies belong to fetches that were issued, by errands for what they are for. What
is known good moves only in an action, to an edition that an incident of this same action shows to
be good, and no other word and no other reply moves it. -/
theorem goods_grounded (settings : Settings) (listeners : List Listener) (actions : List Action)
    (key : DocumentKey) :
    let start := initial settings listeners
    let w := start.run actions
    (∀ e, (w.records.frontier key).good = some e →
      ∃ d ∈ start.annals actions, d.ShowsGood ⟨key, e⟩) ∧
    (∀ purpose request answer, .reply purpose request answer ∈ start.annals actions →
      request.IsIssued w.fetches purpose) ∧
    (∀ action, ((w.act action).records.frontier key).good ≠ (w.records.frontier key).good →
      ∃ e, ((w.act action).records.frontier key).good = some e ∧
        ∃ d ∈ w.incidents action, d.ShowsGood ⟨key, e⟩) ∧
    ∀ action, (∀ d ∈ w.incidents action, d.provesNothing = true) →
      ((w.act action).records.frontier key).good = (w.records.frontier key).good := by
  intro start w
  have hact := reveals_act settings listeners actions
  refine ⟨fun e hgood => ?_, ?_, fun action hmoved => ?_, fun action hnothing => ?_⟩
  · exact (reveals_run settings listeners actions key).shown_good hgood
  · exact fun _ _ _ => isIssued_run (numbered_initial settings listeners)
      (founded_initial settings listeners) actions
  · exact (hact action key).good.resolve_left hmoved
  · exact (hact action key).good_eq hnothing

/-- A block that was found and lost again makes an edition known good if the owner's probe takes it
for a proof, though nobody said that the edition was fetched and no fetch brought any data. -/
theorem good_of_lost_block :
    let notes : DocumentKey := ⟨.uniform 7, "notes"⟩
    let actions : List Action :=
      [.setNetwork ⟨[⟨notes, 5, 5, some (.fault .dataFound), none, []⟩], 0, 0⟩,
        .probe ⟨notes, 5⟩ true]
    let start := initial .standard []
    ((start.run actions).records.frontier notes).good = some 5 ∧
      start.annals actions =
        [.reply (some (.probe true)) ⟨.block, ⟨notes, 5⟩⟩ (.fault .dataFound)] ∧
      .word ⟨notes, 5⟩ true ∉ start.annals actions ∧
      ∀ purpose request, .reply purpose request .data ∉ start.annals actions := by
  intro notes actions start
  have hannals :
      start.annals actions =
        [.reply (some (.probe true)) ⟨.block, ⟨notes, 5⟩⟩ (.fault .dataFound)] := by decide
  refine ⟨by decide, hannals, by decide, fun purpose request hin => ?_⟩
  rw [hannals, List.mem_singleton] at hin
  cases hin

end Watch

end EditionWatch
