import EditionWatch.Proofs.Sparse
import Mathlib.Data.List.Flatten
import Mathlib.Data.List.Forall2

/-!
# Editions are told in their order

One callback may be reached on many ways: directly, and through any number of sparse gates,
each with a memory of its own that begins with its registration and ends with its removal. It
is told the editions of a document in their order all the same. What keeps the ways in step is
the slot: news is always of the slot as it is when the news arrives, and a gate that is told of
the end of a round reports the slot as it was when that end arrived. Since slots only rise and
deliveries are made in the order of their arrival, all that anyone is told of a document rises
along with its slot.
-/

namespace EditionWatch

/-- The edition of a document that someone is told of. -/
def Signal.editionOf? (key : DocumentKey) : Signal → Option Edition
  | .found news => if news.key = key then some news.edition else none
  | .round _ => none

/-- The editions of a document that signals tell of, in order. -/
def editionsOf (key : DocumentKey) (signals : List Signal) : List Edition :=
  signals.filterMap (Signal.editionOf? key)

/-- Editions in their order, none of them above the slot. -/
structure Climbs (slot : Option Edition) (editions : List Edition) : Prop where
  ordered : editions.Pairwise (· ≤ ·)
  bounded : ∀ e ∈ editions, some e ≤ slot

theorem climbs_nil (slot : Option Edition) : Climbs slot [] where
  ordered := List.Pairwise.nil
  bounded _ he := nomatch he

/-- Editions that all stand at the slot are in order. -/
theorem pairwise_of_tops {slot : Option Edition} {editions : List Edition}
    (tops : ∀ e ∈ editions, slot = some e) : editions.Pairwise (· ≤ ·) := by
  refine List.pairwise_iff_forall_sublist.mpr fun {e later} h => ?_
  have he := tops e (h.subset List.mem_cons_self)
  have hlater := tops later (h.subset (List.mem_cons_of_mem _ List.mem_cons_self))
  exact UInt64.le_of_eq (Option.some.inj (he.symm.trans hlater))

/-- What stands at the slot comes after all that came before. -/
theorem Climbs.append {slot later : Option Edition} {editions more : List Edition}
    (h : Climbs slot editions) (rises : slot ≤ later)
    (tops : ∀ e ∈ more, later = some e) : Climbs later (editions ++ more) := by
  have hbounded : ∀ e ∈ editions, some e ≤ later := fun e he =>
    slot_le_trans (h.bounded e he) rises
  constructor
  · refine List.pairwise_append.mpr ⟨h.ordered, pairwise_of_tops tops, fun e he e' he' => ?_⟩
    exact Option.some_le_some.mp (tops e' he' ▸ hbounded e he)
  · intro e he
    rcases List.mem_append.mp he with he | he
    · exact hbounded e he
    · rw [tops e he]
      exact slot_le_refl (some e)

namespace Records

variable {r : Records} {key : DocumentKey} {editions : List Edition}

/-- What is heard of a document is its slot. -/
theorem edition_view (r : Records) (key : DocumentKey) :
    (r.view key).map Heard.edition = (r.frontier key).slot := by
  rw [view, Frontier.view, Option.map_map]
  exact Option.map_id'

/-- No change lowers a slot. -/
theorem slot_le_apply (h : Attuned r) (change : Change) (key : DocumentKey) :
    (r.frontier key).slot ≤ ((r.apply change).frontier key).slot := by
  rw [← edition_view, ← edition_view]
  rcases view_apply h change key with hsame | ⟨found, hview, hnews⟩
  · rw [hsame]
    exact slot_le_refl _
  · rw [hview]
    cases hbefore : r.view key with
    | none => exact Option.none_le
    | some heard =>
      rw [hbefore] at hnews
      refine Option.some_le_some.mpr ?_
      rcases isNews_cases hnews with hlt | ⟨he, -⟩
      · exact UInt64.le_of_lt hlt
      · exact UInt64.le_of_eq he.symm

/-- News is always of the slot as it is when the news arrives. -/
theorem slot_of_mem_enqueuedBy (h : Attuned r) {change : Change} {callback : CallbackId}
    {found : Found} (hd : .found callback found ∈ r.enqueuedBy change) :
    ((r.apply change).frontier found.key).slot = some found.edition := by
  rw [← edition_view]
  cases effect h change with
  | announces news announced =>
    rw [enqueuedBy_of_append announced.pending] at hd
    obtain ⟨s, hs, hd⟩ := List.mem_flatMap.mp hd
    obtain ⟨-, rfl⟩ := Delivery.found.inj (eq_of_mem_deliveries hd)
    cases announced.tells with
    | moves view differs news newSlot => rw [view]; rfl
    | lags same slot view behind =>
      -- an edition behind the slot is told to nobody
      have hwants := Subscriber.not_wants_of_lags (view ▸ h.heard _ s hs) behind
      rw [Subscriber.deliveries, hwants] at hd
      cases hd
  | registers joined callback requested polls is =>
    subst is
    rw [view_subscribe]
    rw [enqueuedBy_subscribe] at hd
    split at hd
    · cases hd
    case h_2 standing hstanding =>
      obtain ⟨s, -, hd⟩ := List.mem_flatMap.mp hd
      split at hd
      case isFalse => cases hd
      case isTrue =>
        obtain ⟨-, rfl⟩ := Delivery.found.inj (eq_of_mem_deliveries hd)
        rw [standing_eq] at hstanding
        obtain ⟨heard, hview, rfl⟩ := Option.map_eq_some_iff.mp hstanding
        rw [hview]
        rfl
  | removes other removed is =>
    subst is
    have hn : r.enqueuedBy (.unsubscribe other removed) = [] :=
      enqueuedBy_of_append (List.append_nil _).symm
    rw [hn] at hd
    cases hd
  | quiet agrees rounds =>
    obtain ⟨told, ended, hround⟩ := rounds _ hd
    cases hround

/-- A change tells of no edition but the slot that it leaves. -/
theorem slot_of_mem_editionsOf (h : Attuned r) {change : Change} {e : Edition}
    (he : e ∈ editionsOf key ((r.enqueuedBy change).map Delivery.signal)) :
    ((r.apply change).frontier key).slot = some e := by
  obtain ⟨signal, hs, he⟩ := List.mem_filterMap.mp he
  obtain ⟨d, hd, rfl⟩ := List.mem_map.mp hs
  cases d with
  | round told ended => cases he
  | found told found =>
    simp only [Delivery.signal, Signal.editionOf?] at he
    split at he
    case isFalse => cases he
    case isTrue hk =>
      cases he
      exact hk ▸ slot_of_mem_enqueuedBy h hd

/-- What a change tells of a document stands in order behind what was told. -/
theorem climbs_apply (h : Attuned r) (climbs : Climbs (r.frontier key).slot editions)
    (change : Change) :
    Climbs ((r.apply change).frontier key).slot
      (editions ++ editionsOf key ((r.enqueuedBy change).map Delivery.signal)) :=
  climbs.append (slot_le_apply h change key) fun _ he => slot_of_mem_editionsOf h he

/-- What a history tells of a document stands in order behind what was told. -/
theorem climbs_run (h : Attuned r) (climbs : Climbs (r.frontier key).slot editions)
    (changes : List Change) :
    Climbs ((r.run changes).frontier key).slot
      (editions ++ editionsOf key ((r.enqueuedIn changes).map Delivery.signal)) := by
  induction changes generalizing r editions with
  | nil =>
    change Climbs _ (editions ++ [])
    rw [List.append_nil]
    exact climbs
  | cons change rest ih =>
    rw [enqueuedIn, List.map_append, editionsOf, List.filterMap_append, ← List.append_assoc]
    exact ih (attuned_apply h change) (climbs_apply h climbs change)

end Records

namespace Watch

variable {u v w : Watch} {key : DocumentKey} {arrived : List Arrival} {made : List HandOut}
  {calls : List (String × Signal)}

/-! ## The slot behind an arrival -/

/-- The slot of a document that an arrival bears witness to: the edition that is news, or the
slot at which a round ended. -/
def Arrival.mark? (key : DocumentKey) (a : Arrival) : Option Edition :=
  match a.delivery with
  | .found _ news => if news.key = key then some news.edition else none
  | .round _ ended => if ended = key then a.slot else none

/-- The slots of a document that arrivals bear witness to. -/
def marks (key : DocumentKey) (arrived : List Arrival) : List Edition :=
  arrived.filterMap (Arrival.mark? key)

theorem marks_append (key : DocumentKey) (arrived more : List Arrival) :
    marks key (arrived ++ more) = marks key arrived ++ marks key more :=
  List.filterMap_append

/-- Arrivals of editions bear witness to these editions. -/
theorem marks_of_found (w : Watch) (key : DocumentKey) {ds : List Delivery}
    (h : ∀ d ∈ ds, ∃ told found, d = .found told found) :
    marks key (w.arriving ds) = editionsOf key (ds.map Delivery.signal) := by
  rw [marks, arriving, editionsOf, List.filterMap_map, List.filterMap_map]
  refine List.filterMap_congr fun d hd => ?_
  obtain ⟨told, found, rfl⟩ := h d hd
  rfl

/-- What arrives while somebody is told something bears witness to slots in their order. -/
theorem climbs_tells (attuned : w.records.Attuned)
    (climbs : Climbs (w.records.frontier key).slot (marks key arrived)) (h : Tells w calls v) :
    ∃ more, v.pending = w.pending ++ more ∧
      Climbs (v.records.frontier key).slot (marks key (arrived ++ w.arriving more)) := by
  obtain ⟨changes, hrecords, hplain, hpending⟩ := h.pending
  refine ⟨_, hpending, ?_⟩
  rw [marks_append, hrecords,
    marks_of_found w key fun d hd => Records.found_of_mem_enqueuedIn attuned hplain hd]
  exact Records.climbs_run attuned climbs changes

/-- What arrives for somebody who joins bears witness to slots in their order. -/
theorem climbs_joins (attuned : w.records.Attuned)
    (climbs : Climbs (w.records.frontier key).slot (marks key arrived)) {enrolment : Enrolment}
    (h : Joins w v enrolment) :
    ∃ more, v.pending = w.pending ++ more ∧
      Climbs (v.records.frontier key).slot (marks key (arrived ++ w.arriving more)) := by
  obtain ⟨polls, changes, hrecords, hplain, hpending⟩ := h.pending
  refine ⟨_, hpending, ?_⟩
  rw [marks_append, hrecords,
    marks_of_found w key fun d hd => Records.found_of_mem_subscribe attuned hplain hd]
  exact Records.climbs_run attuned climbs (.subscribe enrolment.key
    (w.choice enrolment).callback enrolment.requested polls :: changes)

/-- The ends of a round bear witness to the slot that is known then. -/
theorem climbs_closes (climbs : Climbs (w.records.frontier key).slot (marks key arrived))
    {ended : DocumentKey} (h : Closes w v ended) :
    ∃ more, v.pending = w.pending ++ more ∧
      Climbs (v.records.frontier key).slot (marks key (arrived ++ w.arriving more)) := by
  refine ⟨_, h.pending, ?_⟩
  rw [marks_append, h.agrees.frontier]
  refine climbs.append (slot_le_refl _) fun e he => ?_
  obtain ⟨a, ha, he⟩ := List.mem_filterMap.mp he
  obtain ⟨d, hd, rfl⟩ := List.mem_map.mp ha
  obtain ⟨s, -, rfl⟩ := List.mem_map.mp hd
  simp only [Arrival.mark?] at he
  split at he
  case isFalse => cases he
  case isTrue hk => exact hk ▸ he

/-- Arrivals bear witness to slots in their order. -/
theorem climbs_act (attuned : w.records.Attuned)
    (climbs : Climbs (w.records.frontier key).slot (marks key arrived)) (action : Action) :
    Climbs ((w.act action).records.frontier key).slot
      (marks key (arrived ++ w.arrivalsBy action)) := by
  have hagrees := agrees_eased w action
  have hattuned := hagrees.attuned attuned
  rw [← hagrees.frontier key] at climbs
  obtain ⟨more, hmore, hclimbs⟩ : ∃ more,
      (w.act action).pending = (w.eased action).pending ++ more ∧
      Climbs ((w.act action).records.frontier key).slot
        (marks key (arrived ++ (w.eased action).arriving more)) := by
    cases deed_act w action with
    | tells tells => exact climbs_tells hattuned climbs tells
    | joins enrolment joins => exact climbs_joins hattuned climbs joins
    | closes ended closes => exact climbs_closes climbs closes
  rw [arrivalsBy_eq hmore]
  exact hclimbs

/-! ## All gates at once -/

/-- Of every callback behind a gate it is known what it was asked for and what it let through. -/
def Ledgers (w : Watch) (arrived : List Arrival) (made : List HandOut) : Prop :=
  ∀ callback gate target, w.callbacks[callback]? = some ⟨some gate, target⟩ →
    ∃ key requested, Ledger w callback key requested target arrived made

/-- To be told something changes neither whether a callback is behind a gate nor its target. -/
theorem gate_of_eased {action : Action} {callback : CallbackId} {gate : SparseGate}
    {target : Target} (found : (w.eased action).callbacks[callback]? = some ⟨some gate, target⟩) :
    ∃ before, w.callbacks[callback]? = some ⟨some before, target⟩ := by
  unfold eased at found
  split at found
  · exact ⟨gate, found⟩
  case h_2 handed _ =>
    change (w.callbacks.modify handed.delivery.callback _)[callback]? = _ at found
    rw [List.getElem?_modify] at found
    obtain ⟨⟨before, told⟩, hbefore, heq⟩ := Option.map_eq_some_iff.mp found
    split at heq
    case isFalse =>
      cases heq
      exact ⟨gate, hbefore⟩
    case isTrue =>
      obtain ⟨hgate, rfl⟩ := Callback.mk.inj heq
      obtain ⟨old, rfl, -⟩ := Option.map_eq_some_iff.mp hgate
      exact ⟨old, hbefore⟩

/-- A callback behind a gate was there before, or was made for someone who joined. -/
theorem gate_of_deed (h : Deed w calls v) {callback : CallbackId} {gate : SparseGate}
    {target : Target} (found : v.callbacks[callback]? = some ⟨some gate, target⟩) :
    w.callbacks[callback]? = some ⟨some gate, target⟩ ∨
      ∃ key requested, callback = w.callbacks.length ∧
        Joins w v ⟨key, requested, true, target⟩ := by
  cases h with
  | tells tells => exact .inl (tells.callbacks ▸ found)
  | closes ended closes => exact .inl (closes.callbacks ▸ found)
  | joins enrolment joins =>
    have hchosen := joins.callbacks ▸ found
    rcases choice_cases w enrolment with ⟨-, hc⟩ | ⟨hc, -⟩
    · rw [hc, List.getElem?_append] at hchosen
      split at hchosen
      case isTrue => exact .inl hchosen
      case isFalse hge =>
        obtain ⟨hlt, hnew⟩ := List.getElem?_eq_some_iff.mp hchosen
        have hle : callback ≤ w.callbacks.length :=
          Nat.sub_eq_zero_iff_le.mp (Nat.lt_one_iff.mp hlt)
        have hid : callback = w.callbacks.length := Nat.le_antisymm hle (Nat.not_lt.mp hge)
        obtain ⟨key, requested, sparse, joined⟩ := enrolment
        rw [List.getElem_singleton] at hnew
        obtain ⟨hgate, rfl⟩ := Callback.mk.inj hnew
        cases sparse with
        | false => cases hgate
        | true => exact .inr ⟨key, requested, hid, joins⟩
    · exact .inl (hc ▸ hchosen)

/-- Of gates that are made anew something is known from the start. -/
theorem Ledgers.act (ledgers : Ledgers w arrived made) (familiar : Familiar w arrived)
    (fifo : made.map HandOut.delivery ++ w.pending = arrived.map Arrival.delivery)
    (action : Action) :
    Ledgers (w.act action) (arrived ++ w.arrivalsBy action)
      (made ++ (w.handOut? action).toList) := by
  intro callback gate target found
  rcases gate_of_deed (deed_act w action) found with hold | ⟨key, requested, rfl, hjoins⟩
  · obtain ⟨before, hbefore⟩ := gate_of_eased hold
    obtain ⟨key, requested, ledger⟩ := ledgers callback before target hbefore
    exact ⟨key, requested, ledger.act action⟩
  · have hfifo : (made ++ (w.handOut? action).toList).map HandOut.delivery ++
        (w.eased action).pending = arrived.map Arrival.delivery := by
      rw [List.map_append, List.append_assoc, ← pending_eased, fifo]
    obtain ⟨more, hmore, ledger⟩ := ledger_of_joins (familiar.eased action) hfifo hjoins
    rw [arrivalsBy_eq hmore]
    exact ⟨key, requested, ledger⟩

/-! ## From arrivals to calls -/

/-- A delivery was handed out as it had arrived, and what was told of any document then is the
slot that the arrival bears witness to. -/
def Repeats (h : HandOut) (a : Arrival) : Prop :=
  h.delivery = a.delivery ∧ ∀ key, ∀ e ∈ editionsOf key h.calls, a.mark? key = some e

/-- A call stands for one of the signals. -/
theorem mem_of_mem_callsTo {target : Target} {signals : List Signal} {signal : Signal}
    (h : signal ∈ w.callsTo target signals) : signal ∈ signals := by
  induction signals generalizing w with
  | nil => exact h
  | cons first rest ih =>
    rcases List.mem_cons.mp h with rfl | h
    · exact List.mem_cons_self
    · split at h
      · exact List.mem_cons_of_mem _ (ih h)
      · cases h

/-- What a gate brings out at the end of a round is what it had to report. -/
theorem newest_of_mem_through {gate : SparseGate} {newest : Option Edition} {ended : DocumentKey}
    {found : Found} (keeps : gate.Keeps key newest)
    (h : .found found ∈ (gate.feed (.round ended)).through) :
    found.key = key ∧ newest = some found.edition := by
  cases keeps with
  | idle none passed => simp [SparseGate.feed, none] at h
  | holds kept pending document newest above =>
    obtain rfl : found = kept := by simpa [SparseGate.feed, pending, above] using h
    exact ⟨document, newest⟩

/-- A gate only brings out the slot at which the round ended. -/
theorem mark_of_mem_through {callback : CallbackId} {requested : Edition} {target : Target}
    {served rest : List Arrival} {a : Arrival}
    (ledger : Ledger w callback key requested target (served ++ a :: rest) made)
    (same : made.map HandOut.delivery = served.map Arrival.delivery)
    (told : a.delivery.callback = callback) {found : Found}
    (h : .found found ∈ ((SparseGate.after callback
      (made.map HandOut.delivery)).feed a.delivery.signal).through) :
    a.mark? found.key = some found.edition := by
  obtain ⟨d, slot⟩ := a
  cases d with
  | found callback news => cases h
  | round callback ended =>
    obtain rfl : callback = _ := told
    obtain ⟨rfl, hkeeps⟩ := ledger.heeds served _ rest rfl ended rfl
    rw [List.nil_append, ← same] at hkeeps
    obtain ⟨hk, hnewest⟩ := newest_of_mem_through hkeeps h
    exact (if_pos hk.symm).trans (Option.filter_eq_some_iff.mp hnewest).1

/-- A delivery that is next is handed out as it arrived. -/
theorem repeats_of_handOut {served rest : List Arrival} {a : Arrival}
    (ledgers : Ledgers w (served ++ a :: rest) made)
    (same : made.map HandOut.delivery = served.map Arrival.delivery) :
    Repeats (w.take.handOut a.delivery) a := by
  refine ⟨rfl, fun key e he => ?_⟩
  obtain ⟨signal, hsignal, he⟩ := List.mem_filterMap.mp he
  cases signal with
  | round ended => cases he
  | found found =>
    obtain ⟨rfl, rfl⟩ : found.key = key ∧ found.edition = e := by
      simpa [Signal.editionOf?] using he
    simp only [handOut, callsOf] at hsignal
    split at hsignal
    · cases hsignal
    case h_2 callback hc =>
      have hthrough := mem_of_mem_callsTo hsignal
      obtain ⟨gate, target⟩ := callback
      cases gate with
      | none =>
        obtain ⟨d, slot⟩ := a
        have hd : d.signal = .found found := (List.mem_singleton.mp hthrough).symm
        cases d with
        | found callback news =>
          obtain rfl := Signal.found.inj hd
          exact if_pos rfl
        | round callback ended => cases hd
      | some gate =>
        obtain ⟨document, requested, ledger⟩ := ledgers a.delivery.callback gate target hc
        obtain rfl : gate = _ := by
          simpa using Option.some.inj (hc.symm.trans ledger.gate)
        exact mark_of_mem_through ledger same rfl hthrough

/-- What is known in the course of a run: what arrived was handed out in turn or waits, and has
borne witness to slots in their order. -/
structure Chronicle (w : Watch) (arrived : List Arrival) (made : List HandOut) : Prop where
  familiar : Familiar w arrived
  ledgers : Ledgers w arrived made
  climbs : ∀ key, Climbs (w.records.frontier key).slot (marks key arrived)
  served : ∃ served waiting, arrived = served ++ waiting ∧
    waiting.map Arrival.delivery = w.pending ∧ List.Forall₂ Repeats made served

/-- The first chronicle is empty. -/
theorem chronicle_initial (settings : Settings) (listeners : List Listener) :
    Chronicle (initial settings listeners) [] [] where
  familiar := familiar_initial settings listeners
  ledgers _ _ _ found := nomatch found
  climbs _ := climbs_nil _
  served := ⟨[], [], rfl, rfl, .nil⟩

/-- Deliveries were handed out as they had arrived. -/
theorem deliveries_of_repeats {served : List Arrival} (h : List.Forall₂ Repeats made served) :
    made.map HandOut.delivery = served.map Arrival.delivery := by
  induction h with
  | nil => rfl
  | cons first _ ih => rw [List.map_cons, List.map_cons, first.1, ih]

/-- The first that waits is the next that is handed out. -/
theorem Chronicle.ease (h : Chronicle w arrived made) (action : Action) :
    ∃ served waiting, arrived = served ++ waiting ∧
      waiting.map Arrival.delivery = (w.eased action).pending ∧
      List.Forall₂ Repeats (made ++ (w.handOut? action).toList) served := by
  obtain ⟨served, waiting, rfl, hwaiting, hrepeats⟩ := h.served
  cases hmade : w.handOut? action with
  | none =>
    rw [eased_of_idle hmade, Option.toList_none, List.append_nil]
    exact ⟨served, waiting, rfl, hwaiting, hrepeats⟩
  | some handed =>
    obtain ⟨hmaking, hpending, -⟩ := handOut_cases hmade
    rw [hpending] at hwaiting
    obtain ⟨a, rest, rfl, hd, hrest⟩ := List.map_eq_cons_iff.mp hwaiting
    rw [eased_of_handOut hmade]
    refine ⟨served ++ [a], rest, by rw [List.append_assoc]; rfl, hrest, ?_⟩
    rw [hmaking, ← hd]
    exact List.rel_append hrepeats
      (.cons (repeats_of_handOut h.ledgers (deliveries_of_repeats hrepeats)) .nil)

/-- Every action goes on with the chronicle. -/
theorem Chronicle.act (h : Chronicle w arrived made) (action : Action) :
    Chronicle (w.act action) (arrived ++ w.arrivalsBy action)
      (made ++ (w.handOut? action).toList) where
  familiar := h.familiar.act action
  ledgers := by
    obtain ⟨served, waiting, rfl, hwaiting, hrepeats⟩ := h.served
    refine h.ledgers.act h.familiar ?_ action
    rw [deliveries_of_repeats hrepeats, ← hwaiting, List.map_append]
  climbs key := climbs_act h.familiar.attuned (h.climbs key) action
  served := by
    obtain ⟨served, waiting, harrived, hwaiting, hrepeats⟩ := h.ease action
    refine ⟨served, waiting ++ w.arrivalsBy action, ?_, ?_, hrepeats⟩
    · rw [harrived, List.append_assoc]
    · rw [List.map_append, hwaiting, pending_act]

/-- Every run goes on with the chronicle. -/
theorem Chronicle.run (h : Chronicle w arrived made) (actions : List Action) :
    Chronicle (w.run actions) (arrived ++ w.arrivals actions) (made ++ w.handOuts actions) := by
  induction actions generalizing w arrived made with
  | nil =>
    rw [arrivals, handOuts, List.append_nil, List.append_nil]
    exact h
  | cons action rest ih =>
    rw [arrivals, handOuts, ← List.append_assoc, ← List.append_assoc]
    exact ih (h.act action)

/-! ## Every run -/

theorem editionsOf_append (key : DocumentKey) (earlier later : List Signal) :
    editionsOf key (earlier ++ later) = editionsOf key earlier ++ editionsOf key later :=
  List.filterMap_append

/-- Every edition that was told is one that arrivals bore witness to. -/
theorem mem_marks_of_repeats {served : List Arrival} (h : List.Forall₂ Repeats made served)
    {e : Edition} (he : e ∈ editionsOf key (made.flatMap HandOut.calls)) :
    e ∈ marks key served := by
  induction h with
  | nil => cases he
  | cons first _ ih =>
    rw [List.flatMap_cons, editionsOf_append, List.mem_append] at he
    rcases he with he | he
    · exact List.mem_filterMap.mpr ⟨_, List.mem_cons_self, first.2 key e he⟩
    · obtain ⟨a, ha, hm⟩ := List.mem_filterMap.mp (ih he)
      exact List.mem_filterMap.mpr ⟨a, List.mem_cons_of_mem _ ha, hm⟩

/-- What is handed out comes in the order of the slots that the arrivals bear witness to. -/
theorem pairwise_of_repeats {served : List Arrival} (h : List.Forall₂ Repeats made served)
    (ordered : (marks key served).Pairwise (· ≤ ·)) :
    (editionsOf key (made.flatMap HandOut.calls)).Pairwise (· ≤ ·) := by
  induction h with
  | nil => exact .nil
  | @cons handed a made served first rest ih =>
    have htops : ∀ e ∈ editionsOf key handed.calls, a.mark? key = some e := first.2 key
    obtain ⟨hserved, hfirst⟩ : (marks key served).Pairwise (· ≤ ·) ∧
        ∀ top, a.mark? key = some top → ∀ later ∈ marks key served, top ≤ later := by
      rw [marks, List.filterMap_cons] at ordered
      split at ordered
      case h_1 hnone => exact ⟨ordered, fun top htop => nomatch hnone.symm.trans htop⟩
      case h_2 mark hmark =>
        obtain ⟨hfirst, hserved⟩ := List.pairwise_cons.mp ordered
        exact ⟨hserved, fun top htop => Option.some.inj (hmark.symm.trans htop) ▸ hfirst⟩
    rw [List.flatMap_cons, editionsOf_append, List.pairwise_append]
    exact ⟨pairwise_of_tops htops, ih hserved, fun e he later hlater =>
      hfirst e (htops e he) later (mem_marks_of_repeats rest hlater)⟩

/-- The calls that a target gets when deliveries are handed out. -/
def callsOn (target : Target) (made : List HandOut) : List Signal :=
  (made.filter fun h => h.target = some target).flatMap HandOut.calls

/-- A listener is told of the calls that it gets. -/
theorem calls_of_told (name : String) (made : List HandOut) :
    ((made.flatMap HandOut.told).filter fun call => call.1 = name).map Prod.snd =
      callsOn (.listener name) made := by
  induction made with
  | nil => rfl
  | cons h rest ih =>
    have hfirst : (h.told.filter fun call => call.1 = name).map Prod.snd =
        if h.target = some (.listener name) then h.calls else [] := by
      unfold HandOut.told
      cases ht : h.target with
      | none => rfl
      | some target =>
        cases target with
        | feed id => rfl
        | listener other =>
          by_cases hn : other = name <;> simp [Target.tells, hn, List.filter_map, Function.comp_def]
    rw [List.flatMap_cons, List.filter_append, List.map_append, ih, hfirst, callsOn, callsOn,
      List.filter_cons]
    split
    case isTrue ht => rw [if_pos (decide_eq_true ht), List.flatMap_cons]
    case isFalse ht => rw [if_neg (by simpa using ht), List.nil_append]

/-- In every run, all that anyone is told of a document comes in the order of its editions. So
it does for each callback, whatever subscriptions and removals there were and whichever way
the calls took to it; and what a listener hears of is just these calls. -/
theorem told_in_order (settings : Settings) (listeners : List Listener) (actions : List Action) :
    let start := initial settings listeners
    let made := start.handOuts actions
    (∀ key, (editionsOf key (made.flatMap HandOut.calls)).Pairwise (· ≤ ·)) ∧
    (∀ target key, (editionsOf key (callsOn target made)).Pairwise (· ≤ ·)) ∧
    (∀ name, ((start.run actions).told.filter fun call => call.1 = name).map Prod.snd =
      callsOn (.listener name) made) := by
  intro start made
  obtain ⟨served, waiting, harrived, -, hrepeats⟩ :=
    ((chronicle_initial settings listeners).run actions).served
  have hall (key : DocumentKey) :
      (editionsOf key (made.flatMap HandOut.calls)).Pairwise (· ≤ ·) := by
    have hclimbs := ((chronicle_initial settings listeners).run actions).climbs key
    rw [harrived, marks_append] at hclimbs
    exact pairwise_of_repeats hrepeats (List.pairwise_append.mp hclimbs.ordered).1
  refine ⟨hall, fun target key => ?_, fun name => ?_⟩
  · exact (hall key).sublist ((List.filter_sublist.flatMap _).filterMap _)
  · have htold : (start.run actions).told = made.flatMap HandOut.told := told_run start actions
    rw [htold]
    exact calls_of_told name made

end Watch

end EditionWatch
