import EditionWatch.Proofs.Deliveries
import EditionWatch.Proofs.Peaks

/-!
# Sparse delivery is exact

Whoever subscribes sparsely is told at the end of each round of the newest slot that the
document had when the round ended, if that is above what was asked for and above all that was
told before, and of nothing else. The gate that sees to this acts when a delivery is handed
out, long after it arrived; but it acts on the arrivals in their order. So it is as if it acted
on them at once, and then it always agrees with the slot: either the newest slot that concerns
the subscriber is the last one that was let through, or the gate keeps it.
-/

namespace EditionWatch

/-- The edition that someone is told of. -/
def Signal.edition? : Signal → Option Edition
  | .found news => some news.edition
  | .round _ => none

/-! ## The gate -/

/-- The slot that is to be reported to someone who asked for editions above one. -/
def reported (requested : Edition) (slot : Option Edition) : Option Edition :=
  slot.filter fun e => requested < e

/-- The newest edition that a gate has to report: it let that through last, or it keeps it and
let only older ones through. -/
inductive SparseGate.Keeps (gate : SparseGate) (key : DocumentKey) (newest : Option Edition) :
    Prop where
  | idle (none : gate.pending = none) (passed : gate.passed = newest)
  | holds (found : Found) (pending : gate.pending = some found) (document : found.key = key)
      (newest : newest = some found.edition) (above : isAbove found.edition gate.passed = true)

/-- News of a document that was heard of raises its edition or confirms it. -/
theorem isNews_cases {found : Found} {heard : Heard}
    (h : Subscriber.isNews found (some heard) = true) :
    heard.edition < found.edition ∨ (found.edition = heard.edition ∧ found.good = true) := by
  simp only [Subscriber.isNews, Bool.or_eq_true, Bool.and_eq_true, decide_eq_true_eq] at h
  rcases h with hlt | ⟨⟨he, hgood⟩, -⟩
  · exact .inl hlt
  · exact .inr ⟨he, hgood⟩

/-- News of another edition is above all that could be heard. -/
theorem isAbove_audible {found : Found} {before : Option Heard}
    (h : Subscriber.isNews found before = true)
    (moves : before.map Heard.edition ≠ some found.edition) (requested : Edition) :
    isAbove found.edition ((audible requested before).map Heard.edition) = true := by
  cases before with
  | none => rfl
  | some heard =>
    have hlt : heard.edition < found.edition := by
      rcases isNews_cases h with hlt | ⟨he, -⟩
      · exact hlt
      · exact absurd (congrArg some he.symm) moves
    rw [audible_some]
    split
    · exact decide_eq_true hlt
    · rfl

/-- Who could not hear of the news heard nothing before. -/
theorem audible_eq_none {found : Found} {before : Option Heard}
    (h : Subscriber.isNews found before = true) {requested : Edition}
    (inaudible : ¬requested < found.edition) : audible requested before = none := by
  cases before with
  | none => rfl
  | some heard =>
    have hle : heard.edition ≤ found.edition := by
      rcases isNews_cases h with hlt | ⟨he, -⟩
      · exact UInt64.le_of_lt hlt
      · exact UInt64.le_of_eq he.symm
    rw [audible_some, if_neg fun hlt => inaudible (UInt64.lt_of_lt_of_le hlt hle)]

/-- What is told of a view that is news to those who heard the old one. -/
theorem tiding_of_isNews {found : Found} {before : Option Heard}
    (h : Subscriber.isNews found before = true) (key : DocumentKey) (requested : Edition) :
    tiding key requested before (some found.heard) =
      if requested < found.edition then
        [⟨key, found.edition, found.good, before.map Heard.edition ≠ some found.edition⟩]
      else [] := by
  have hdiffers : some found.heard ≠ before := by
    rintro rfl
    simp [Subscriber.isNews, Found.heard] at h
  rw [tiding, if_neg hdiffers, audible_some]
  by_cases hr : requested < found.edition
  · rw [if_pos hr, if_pos (show requested < found.heard.edition from hr)]
    rfl
  · rw [if_neg hr, if_neg (show ¬requested < found.heard.edition from hr)]

namespace SparseGate

variable {gate : SparseGate} {key : DocumentKey} {newest : Option Edition}

/-- A fresh gate has nothing to report. -/
theorem Keeps.fresh (key : DocumentKey) : fresh.Keeps key none := .idle rfl rfl

theorem isAbove_irrefl (e : Edition) : isAbove e (some e) = false := by
  simp [isAbove]

/-- The end of a round brings out what a gate keeps, if there is something. -/
theorem Keeps.through_round (h : gate.Keeps key newest) (ended : DocumentKey) :
    (∀ e, newest = some e → isAbove e gate.passed = true →
      ∃ found : Found, found.key = key ∧ found.edition = e ∧
        (gate.feed (.round ended)).through = [.found found, .round ended]) ∧
    ((∀ e, newest = some e → isAbove e gate.passed = false) →
      (gate.feed (.round ended)).through = [.round ended]) := by
  cases h with
  | idle none passed =>
    have hthrough : (gate.feed (.round ended)).through = [.round ended] := by
      simp [feed, none]
    refine ⟨fun e he habove => ?_, fun _ => hthrough⟩
    rw [passed, he, isAbove_irrefl] at habove
    cases habove
  | holds found pending document newest above =>
    have hthrough : (gate.feed (.round ended)).through = [.found found, .round ended] := by
      simp [feed, pending, above]
    constructor
    · intro e he _
      rw [newest, Option.some.injEq] at he
      exact ⟨found, document, he, hthrough⟩
    · intro hnone
      rw [hnone found.edition newest] at above
      cases above

/-- The end of a round leaves nothing to report. -/
theorem Keeps.feed_round (h : gate.Keeps key newest) (ended : DocumentKey) :
    (gate.feed (.round ended)).gate.Keeps key newest := by
  cases h with
  | idle none passed => exact .idle (by simp [feed, none]) (by simp [feed, none, passed])
  | holds found pending document newest above =>
    refine .idle ?_ ?_ <;> simp [feed, pending, above, newest]

/-- A gate takes up a new slot above what it keeps. -/
theorem Keeps.feed_slot (h : gate.Keeps key newest) {found : Found} (document : found.key = key)
    (slot : found.newSlot = true) (above : isAbove found.edition newest = true) :
    (gate.feed (.found found)).gate.Keeps key (some found.edition) := by
  have hnewer : isAbove found.edition (gate.pending.map Found.edition) = true ∧
      isAbove found.edition gate.passed = true := by
    cases h with
    | idle none passed => exact ⟨by simp [none, isAbove], passed ▸ above⟩
    | holds kept pending document newest older =>
      rw [newest] at above
      refine ⟨by simp [pending, above], ?_⟩
      cases hp : gate.passed with
      | none => rfl
      | some passed =>
        rw [hp] at older
        exact decide_eq_true (UInt64.lt_trans (Frontier.lt_of_isAbove older)
          (Frontier.lt_of_isAbove above))
  have htakes : gate.takes found = true := by simp [takes, slot, hnewer.1]
  have hgate : (gate.feed (.found found)).gate = { gate with pending := some found } := by
    simp [feed, htakes]
  rw [hgate]
  exact .holds found rfl document rfl hnewer.2

/-- A gate keeps out an edition that only became known good. -/
theorem feed_confirmation {found : Found} (good : found.good = true)
    (slot : found.newSlot = false) : (gate.feed (.found found)).gate = gate := by
  simp [feed, takes, good, slot]

/-- The ends of rounds leave a gate with the same edition to report. -/
theorem Keeps.feed_rounds {signals : List Signal} (h : gate.Keeps key newest)
    (rounds : ∀ signal ∈ signals, ∃ ended, signal = .round ended) :
    (gate.feedAll signals).gate.Keeps key newest := by
  induction signals generalizing gate with
  | nil => exact h
  | cons signal rest ih =>
    obtain ⟨ended, rfl⟩ := rounds signal List.mem_cons_self
    exact ih (h.feed_round ended) fun s hs => rounds s (List.mem_cons_of_mem _ hs)

/-- A gate that was fed more has been fed what came first. -/
theorem feedAll_append (gate : SparseGate) (earlier later : List Signal) :
    (gate.feedAll (earlier ++ later)).gate =
      ((gate.feedAll earlier).gate.feedAll later).gate := by
  induction earlier generalizing gate with
  | nil => rfl
  | cons signal rest ih => exact ih (gate.feed signal).gate

/-- What a gate let through last is the greatest edition that it let through. -/
theorem passed_feed {given : List Edition} (h : gate.passed = given.max?) (signal : Signal) :
    (gate.feed signal).gate.passed =
      (given ++ (gate.feed signal).through.filterMap Signal.edition?).max? := by
  cases signal with
  | found found =>
    have hpassed : (gate.feed (.found found)).gate.passed = gate.passed := by
      simp only [feed]
      split <;> rfl
    have hthrough : (gate.feed (.found found)).through = [] := rfl
    rw [hpassed, hthrough, h, List.filterMap_nil, List.append_nil]
  | round ended =>
    have hround : [Signal.round ended].filterMap Signal.edition? = [] := rfl
    simp only [feed]
    split
    · rw [hround, List.append_nil]
      exact h
    case h_2 found _ =>
      split
      case isTrue habove =>
        have hfound : [Signal.found found, .round ended].filterMap Signal.edition? =
          [found.edition] := rfl
        rw [hfound, max?_concat, raised, ← h, if_pos habove]
      case isFalse =>
        rw [hround, List.append_nil]
        exact h

/-- Of a document whose view moves on, a gate that is told so has the new slot to report. -/
theorem Keeps.feed_tiding {requested : Edition} {before now : Option Heard}
    (h : gate.Keeps key ((audible requested before).map Heard.edition))
    (moves : now = before ∨
      ∃ found : Found, now = some found.heard ∧ Subscriber.isNews found before = true) :
    (gate.feedAll ((tiding key requested before now).map .found)).gate.Keeps key
      ((audible requested now).map Heard.edition) := by
  rcases moves with rfl | ⟨found, rfl, hnews⟩
  · rw [tiding, if_pos rfl]
    exact h
  rw [tiding_of_isNews hnews, audible_some]
  by_cases hr : requested < found.edition
  · rw [if_pos hr, if_pos (show requested < found.heard.edition from hr)]
    by_cases hs : before.map Heard.edition = some found.edition
    · -- the slot stands where it stood, so it was confirmed
      obtain ⟨heard, rfl, he⟩ := Option.map_eq_some_iff.mp hs
      have hgood : found.good = true := by
        rcases isNews_cases hnews with hlt | ⟨-, hgood⟩
        · exact absurd (he ▸ hlt) (UInt64.lt_irrefl found.edition)
        · exact hgood
      have hkept : (gate.feed (.found ⟨key, found.edition, found.good, false⟩)).gate = gate :=
        feed_confirmation hgood rfl
      rw [audible_some, if_pos (he ▸ hr), Option.map_some, he] at h
      simp only [hs, ne_eq, not_true, decide_false, List.map_cons, List.map_nil, feedAll]
      rw [hkept]
      exact h
    · have habove := isAbove_audible hnews hs requested
      simp only [hs, ne_eq, not_false_eq_true, decide_true, List.map_cons, List.map_nil, feedAll]
      exact h.feed_slot rfl rfl habove
  · rw [if_neg hr, if_neg (show ¬requested < found.heard.edition from hr)]
    rw [audible_eq_none hnews hr] at h
    exact h

end SparseGate

/-! ## What a callback is told -/

/-- What deliveries tell one callback, in order. -/
def signalsTo (callback : CallbackId) (ds : List Delivery) : List Signal :=
  (ds.filter fun d => d.callback = callback).map Delivery.signal

theorem signalsTo_append (callback : CallbackId) (earlier later : List Delivery) :
    signalsTo callback (earlier ++ later) =
      signalsTo callback earlier ++ signalsTo callback later := by
  rw [signalsTo, List.filter_append, List.map_append]
  rfl

/-- Deliveries to others bring a callback no signal. -/
theorem signalsTo_eq_nil {callback : CallbackId} {ds : List Delivery}
    (h : ∀ d ∈ ds, d.callback ≠ callback) : signalsTo callback ds = [] := by
  have hnone : (ds.filter fun d => d.callback = callback) = [] :=
    List.filter_eq_nil_iff.mpr fun d hd => by simpa using h d hd
  rw [signalsTo, hnone, List.map_nil]

/-- If all that a callback is told is news of one document, it is told exactly these. -/
theorem signalsTo_eq_news {callback : CallbackId} {key : DocumentKey} {ds : List Delivery}
    (h : ∀ d ∈ ds, d.callback = callback →
      ∃ found : Found, found.key = key ∧ d = .found callback found) :
    signalsTo callback ds = (newsFor key callback ds).map .found := by
  induction ds with
  | nil => rfl
  | cons d rest ih =>
    have hrest := ih fun d hd => h d (List.mem_cons_of_mem _ hd)
    by_cases hc : d.callback = callback
    · obtain ⟨found, hk, rfl⟩ := h d List.mem_cons_self hc
      have hnews : (Delivery.found callback found).newsFor? key callback = some found :=
        if_pos ⟨rfl, hk⟩
      rw [signalsTo, List.filter_cons_of_pos (by simpa using hc), newsFor,
        List.filterMap_cons_some hnews, List.map_cons, List.map_cons]
      exact congrArg _ hrest
    · have hnews : d.newsFor? key callback = none := by
        cases d with
        | found told news => exact if_neg fun hn => hc hn.1
        | round told ended => rfl
      rw [signalsTo, List.filter_cons_of_neg (by simpa using hc), newsFor,
        List.filterMap_cons_none hnews]
      exact hrest

/-- The gate of a callback after deliveries. -/
def SparseGate.after (callback : CallbackId) (ds : List Delivery) : SparseGate :=
  (fresh.feedAll (signalsTo callback ds)).gate

/-- A gate after more deliveries is the gate after the first ones, fed the signals of the others. -/
theorem SparseGate.after_append (callback : CallbackId) (earlier later : List Delivery) :
    after callback (earlier ++ later) =
      ((after callback earlier).feedAll (signalsTo callback later)).gate := by
  rw [after, signalsTo_append, feedAll_append]
  rfl

/-- What others are told before does not concern a callback. -/
theorem SparseGate.after_of_unheard {callback : CallbackId} {earlier : List Delivery}
    (h : ∀ d ∈ earlier, d.callback ≠ callback) (later : List Delivery) :
    after callback (earlier ++ later) = after callback later := by
  rw [after, signalsTo_append, signalsTo_eq_nil h]
  rfl

/-- Deliveries to others leave the gate of a callback as it is. -/
theorem SparseGate.after_of_other {callback : CallbackId} {earlier later : List Delivery}
    (h : ∀ d ∈ later, d.callback ≠ callback) :
    after callback (earlier ++ later) = after callback earlier := by
  rw [after_append, signalsTo_eq_nil h]
  rfl

namespace Records

variable {r : Records} {callback : CallbackId} {key : DocumentKey} {requested : Edition}
  {gate : SparseGate}

/-- A callback is registered for one document at most, and as long as it is, its gate has the
slot of the document to report. -/
structure Serves (r : Records) (callback : CallbackId) (key : DocumentKey) (requested : Edition)
    (gate : SparseGate) : Prop where
  attuned : r.Attuned
  only : ∀ other, ∀ s ∈ r.registry.of other, s.callback = callback →
    other = key ∧ s.requested = requested
  keeps : ∀ s ∈ r.registry.of key, s.callback = callback →
    gate.Keeps key (reported requested (r.frontier key).slot)

/-- What is to be reported is the edition that is heard of, if it is above what was asked for. -/
theorem reported_slot (r : Records) (key : DocumentKey) (requested : Edition) :
    reported requested (r.frontier key).slot =
      (audible requested (r.view key)).map Heard.edition := by
  rw [view, Frontier.view]
  cases (r.frontier key).slot with
  | none => rfl
  | some slot =>
    rw [Option.map_some, audible_some, reported]
    by_cases hr : requested < slot
    · rw [if_pos hr, Option.filter_some_pos (by simpa using hr)]
      rfl
    · rw [if_neg hr, Option.filter_some_neg (by simpa using hr)]
      rfl

namespace Serves

/-- A plain change feeds the gate what it enqueues, so it has the slot to report. -/
theorem apply (h : r.Serves callback key requested gate) {change : Change}
    (plain : change.isPlain = true) :
    (r.apply change).Serves callback key requested
      (gate.feedAll (signalsTo callback (r.enqueuedBy change))).gate where
  attuned := attuned_apply h.attuned change
  only other t ht hc := by
    obtain ⟨s, hs, hcallback, hrequested⟩ := subscriber_of_mem_apply h.attuned plain ht
    obtain ⟨hk, hr⟩ := h.only other s hs (hcallback.trans hc)
    exact ⟨hk, hrequested ▸ hr⟩
  keeps t ht hc := by
    obtain ⟨s, hs, hcallback, -⟩ := subscriber_of_mem_apply h.attuned plain ht
    rw [hc] at hcallback
    have hrequested := (h.only key s hs hcallback).2
    have hkeeps := h.keeps s hs hcallback
    have htiding : newsFor key s.callback (r.enqueuedBy change) =
        tiding key s.requested (r.view key) ((r.apply change).view key) :=
      newsFor_enqueuedBy h.attuned hs
    have hnews : signalsTo callback (r.enqueuedBy change) =
        (newsFor key callback (r.enqueuedBy change)).map .found := by
      refine signalsTo_eq_news fun d hd htold => ?_
      obtain ⟨found, told, hin, rfl⟩ := subscriber_of_mem_enqueuedBy h.attuned plain hd
      have htold : told.callback = callback := htold
      exact ⟨found, (h.only _ told hin htold).1, by rw [htold]⟩
    rw [hcallback, hrequested] at htiding
    rw [reported_slot] at hkeeps ⊢
    rw [hnews, htiding]
    exact hkeeps.feed_tiding (view_apply h.attuned change key)

/-- Plain changes feed the gate what they enqueue, so it has the slot to report. -/
theorem run (h : r.Serves callback key requested gate) {changes : List Change}
    (plain : ∀ change ∈ changes, change.isPlain = true) :
    (r.run changes).Serves callback key requested
      (gate.feedAll (signalsTo callback (r.enqueuedIn changes))).gate := by
  induction changes generalizing r gate with
  | nil => exact h
  | cons change rest ih =>
    rw [enqueuedIn, signalsTo_append, SparseGate.feedAll_append]
    exact ih (h.apply (plain change List.mem_cons_self)) fun c hc =>
      plain c (List.mem_cons_of_mem _ hc)

/-- The end of a round tells subscribers only that. -/
theorem finishRound (h : r.Serves callback key requested gate) (ended : DocumentKey) :
    (r.finishRound ended).Serves callback key requested
      (gate.feedAll (signalsTo callback (r.registry.roundDeliveries ended))).gate where
  attuned := attuned_apply h.attuned (.finishRound ended)
  only := h.only
  keeps s hs hc := by
    refine (h.keeps s hs hc).feed_rounds fun signal hsignal => ?_
    obtain ⟨d, hd, rfl⟩ := List.mem_map.mp hsignal
    obtain ⟨t, -, rfl⟩ := List.mem_map.mp (List.mem_filter.mp hd).1
    exact ⟨ended, rfl⟩

/-- A change that leaves frontiers and subscribers alone. -/
theorem agrees {r' : Records} (h : r.Serves callback key requested gate) (ha : Agrees r r') :
    r'.Serves callback key requested gate where
  attuned := ha.attuned h.attuned
  only := by rw [ha.registry]; exact h.only
  keeps := by rw [ha.registry, ha.frontier]; exact h.keeps

/-- The subscription of another callback. -/
theorem subscribe_other (h : r.Serves callback key requested gate) {joining : CallbackId}
    (differs : joining ≠ callback) (document : DocumentKey) (asked : Edition) (polls : Bool) :
    (r.apply (.subscribe document joining asked polls)).Serves callback key requested gate := by
  have hmem {other : DocumentKey} {t : Subscriber}
      (ht : t ∈ (r.apply (.subscribe document joining asked polls)).registry.of other)
      (hc : t.callback = callback) :
      ∃ s ∈ r.registry.of other, s.callback = callback ∧ s.requested = t.requested := by
    rcases subscriber_of_mem_subscribe ht with ⟨s, hs, hcallback, hr⟩ | ⟨-, -, hnew, -⟩
    · exact ⟨s, hs, hcallback.trans hc, hr⟩
    · exact absurd (hnew.symm.trans hc) differs
  refine ⟨attuned_apply h.attuned _, fun other t ht hc => ?_, fun t ht hc => ?_⟩
  · obtain ⟨s, hs, hcallback, hr⟩ := hmem ht hc
    exact hr ▸ h.only other s hs hcallback
  · obtain ⟨s, hs, hcallback, -⟩ := hmem ht hc
    rw [reported_slot, view_subscribe, ← reported_slot]
    exact h.keeps s hs hcallback

/-- The subscription of a callback that nobody knows yet: its gate is told the slot. -/
theorem of_subscribe (h : r.Attuned)
    (unknown : ∀ other, ∀ s ∈ r.registry.of other, s.callback ≠ callback) (polls : Bool) :
    let subscribes := .subscribe key callback requested polls
    (r.apply subscribes).Serves callback key requested
      (SparseGate.after callback (r.enqueuedBy subscribes)) := by
  intro subscribes
  have hnew : r.registry.has key callback = false := by
    refine Bool.eq_false_iff.mpr fun hin => ?_
    obtain ⟨s, hs, hc⟩ := (Registry.has_iff _ _ _).mp hin
    exact unknown key s hs hc
  have hmem {other : DocumentKey} {t : Subscriber}
      (ht : t ∈ (r.apply subscribes).registry.of other) (hc : t.callback = callback) :
      other = key ∧ t.requested = requested := by
    rcases subscriber_of_mem_subscribe ht with ⟨s, hs, hcallback, -⟩ | ⟨hk, -, -, hr⟩
    · exact absurd (hcallback.trans hc) (unknown other s hs)
    · exact ⟨hk, hr⟩
  refine ⟨attuned_apply h _, fun other t ht hc => hmem ht hc, fun t ht hc => ?_⟩
  have hnews : signalsTo callback (r.enqueuedBy subscribes) =
      (tiding key requested none (r.view key)).map .found := by
    rw [← newsFor_register h hnew requested polls]
    exact signalsTo_eq_news fun d hd _ => callback_of_mem_enqueuedBy_subscribe hd
  have hmoves : r.view key = none ∨
      ∃ found : Found, r.view key = some found.heard ∧ Subscriber.isNews found none = true := by
    cases r.view key with
    | none => exact .inl rfl
    | some heard => exact .inr ⟨⟨key, heard.edition, heard.good, true⟩, rfl, rfl⟩
  rw [reported_slot, view_subscribe, SparseGate.after, hnews]
  exact (SparseGate.Keeps.fresh key).feed_tiding hmoves

end Serves

end Records

/-! ## From arrivals to calls -/

namespace Watch

variable {u v w : Watch} {callback : CallbackId} {key : DocumentKey} {requested : Edition}
  {target : Target} {calls : List (String × Signal)}

/-- Whenever the end of a round arrives for a callback, it is of its document, and the gate that
has seen all arrivals before has the slot to report. -/
def Heeds (callback : CallbackId) (key : DocumentKey) (requested : Edition)
    (past : List Delivery) (arrived : List Arrival) : Prop :=
  ∀ earlier a later, arrived = earlier ++ a :: later → ∀ ended,
    a.delivery = .round callback ended →
    ended = key ∧
      (SparseGate.after callback (past ++ earlier.map Arrival.delivery)).Keeps key
        (reported requested a.slot)

namespace Heeds

variable {past : List Delivery} {arrived more : List Arrival}

/-- A callback heeds what arrives later after what arrived before. -/
theorem append (h : Heeds callback key requested past arrived)
    (h' : Heeds callback key requested (past ++ arrived.map Arrival.delivery) more) :
    Heeds callback key requested past (arrived ++ more) := by
  intro earlier a later hsplit ended hround
  rcases List.append_eq_append_iff.mp hsplit with ⟨middle, rfl, hmore⟩ | ⟨middle, hold, hmore⟩
  · have hkeeps := h' middle a later hmore ended hround
    rw [List.append_assoc, ← List.map_append] at hkeeps
    exact hkeeps
  · cases middle with
    | nil =>
      rw [List.append_nil] at hold
      have hkeeps := h' [] a later hmore.symm ended hround
      rw [List.map_nil, List.append_nil, hold] at hkeeps
      exact hkeeps
    | cons first middle =>
      obtain ⟨rfl, -⟩ := List.cons.inj hmore
      exact h earlier a middle hold ended hround

/-- No end of a round is among what arrives for the callback. -/
theorem of_no_round (h : ∀ a ∈ arrived, ∀ ended, a.delivery ≠ .round callback ended) :
    Heeds callback key requested past arrived := by
  intro earlier a later hsplit ended hround
  have hin : a ∈ arrived := by
    rw [hsplit]
    exact List.mem_append_right _ List.mem_cons_self
  exact absurd hround (h a hin ended)

/-- Where no end of a round arrives there is nothing to heed. -/
theorem of_found {ds : List Delivery} (h : ∀ d ∈ ds, ∃ told found, d = .found told found) :
    Heeds callback key requested past (w.arriving ds) := by
  refine of_no_round fun a ha ended hround => ?_
  obtain ⟨d, hd, rfl⟩ := List.mem_map.mp ha
  obtain ⟨told, found, rfl⟩ := h d hd
  cases hround

/-- What arrives for others need not be heeded. -/
theorem of_unheard (h : ∀ a ∈ arrived, a.delivery.callback ≠ callback) :
    Heeds callback key requested past arrived := by
  refine of_no_round fun a ha ended hround => h a ha ?_
  rw [hround]
  rfl

/-- The ends of rounds that are told to all subscribers. -/
theorem of_rounds
    (h : w.records.Serves callback key requested (SparseGate.after callback past))
    (ended : DocumentKey) :
    Heeds callback key requested past
      (w.arriving (w.records.registry.roundDeliveries ended)) := by
  intro earlier a later hsplit document hround
  have hrounds : ∀ b ∈ earlier ++ a :: later, ∃ s ∈ w.records.registry.of ended,
      b = ⟨.round s.callback ended, (w.records.frontier ended).slot⟩ := by
    intro b hb
    rw [← hsplit] at hb
    obtain ⟨d, hd, rfl⟩ := List.mem_map.mp hb
    obtain ⟨s, hs, rfl⟩ := List.mem_map.mp hd
    exact ⟨s, hs, rfl⟩
  obtain ⟨s, hs, rfl⟩ := hrounds a (List.mem_append_right _ List.mem_cons_self)
  obtain ⟨hc, rfl⟩ : s.callback = callback ∧ ended = document := by simpa using hround
  obtain ⟨rfl, -⟩ := h.only ended s hs hc
  refine ⟨rfl, ?_⟩
  rw [SparseGate.after_append]
  refine (h.keeps s hs hc).feed_rounds fun signal hsignal => ?_
  obtain ⟨d, hd, rfl⟩ := List.mem_map.mp hsignal
  obtain ⟨b, hb, rfl⟩ := List.mem_map.mp (List.mem_filter.mp hd).1
  obtain ⟨t, -, rfl⟩ := hrounds b (List.mem_append_left _ hb)
  exact ⟨ended, rfl⟩

end Heeds

/-- The editions that the target of a callback was told of. -/
def forwarded (callback : CallbackId) (made : List HandOut) : List Edition :=
  (made.filter fun h => h.delivery.callback = callback).flatMap fun h =>
    h.calls.filterMap Signal.edition?

/-- The gate of a callback as it was before a hand-out decides about the calls, and knows what was
let through. -/
def Complies (callback : CallbackId) (target : Target) (made : List HandOut) : Prop :=
  ∀ earlier h later, made = earlier ++ h :: later → h.delivery.callback = callback →
    let gate := SparseGate.after callback (earlier.map HandOut.delivery)
    gate.passed = (forwarded callback earlier).max? ∧ h.target = some target ∧
      (h.returned = true → h.calls = (gate.feed h.delivery.signal).through)

/-- What is known of a callback behind a gate at any time of a run. -/
structure Ledger (w : Watch) (callback : CallbackId) (key : DocumentKey) (requested : Edition)
    (target : Target) (arrived : List Arrival) (made : List HandOut) : Prop where
  /-- What arrived was handed out or waits. -/
  fifo : made.map HandOut.delivery ++ w.pending = arrived.map Arrival.delivery
  /-- A gate that had seen all arrivals would agree with the slot. -/
  serves : w.records.Serves callback key requested
    (SparseGate.after callback (arrived.map Arrival.delivery))
  /-- It agreed whenever a round ended. -/
  heeds : Heeds callback key requested [] arrived
  /-- The gate has seen all that was handed out. -/
  gate : w.callbacks[callback]? =
    some ⟨some (SparseGate.after callback (made.map HandOut.delivery)), target⟩
  /-- It let through what was forwarded. -/
  passed : (SparseGate.after callback (made.map HandOut.delivery)).passed =
    (forwarded callback made).max?
  /-- The calls were what it let through. -/
  complies : Complies callback target made

/-! ## A hand-out -/

/-- What was forwarded to a callback grows by the editions of its own hand-outs. -/
theorem forwarded_concat (callback : CallbackId) (made : List HandOut) (h : HandOut) :
    forwarded callback (made ++ [h]) =
      forwarded callback made ++
        if h.delivery.callback = callback then h.calls.filterMap Signal.edition? else [] := by
  by_cases hc : h.delivery.callback = callback <;> simp [forwarded, hc]

/-- Whether calls fail or not, a target is told of every edition that a gate lets through. -/
theorem editions_callsTo (w : Watch) (target : Target) (gate : SparseGate) (signal : Signal) :
    (w.callsTo target (gate.feed signal).through).filterMap Signal.edition? =
      (gate.feed signal).through.filterMap Signal.edition? := by
  have hround (v : Watch) (ended : DocumentKey) :
      v.callsTo target [.round ended] = [.round ended] := by
    simp [callsTo]
  cases signal with
  | found found => rfl
  | round ended =>
    simp only [SparseGate.feed]
    split
    · rw [hround]
    · split
      · rw [callsTo]
        dsimp only
        split
        · rw [hround]
        · rfl
      · rw [hround]

/-- The gate of a callback goes on to decide if it does so in the last hand-out. -/
theorem Complies.concat {made : List HandOut} (h : Complies callback target made)
    {last : HandOut}
    (hlast : last.delivery.callback = callback →
      let gate := SparseGate.after callback (made.map HandOut.delivery)
      gate.passed = (forwarded callback made).max? ∧ last.target = some target ∧
        (last.returned = true → last.calls = (gate.feed last.delivery.signal).through)) :
    Complies callback target (made ++ [last]) := by
  intro earlier other later hsplit hc
  rcases List.eq_nil_or_concat later with rfl | ⟨middle, final, rfl⟩
  · obtain ⟨rfl, he⟩ := List.append_inj' hsplit rfl
    obtain rfl : last = other := List.singleton_inj.mp he
    exact hlast hc
  · have hsplit : made ++ [last] = (earlier ++ other :: middle) ++ [final] := by
      rw [hsplit, List.concat_eq_append, List.append_assoc, List.cons_append]
    exact h earlier other middle (List.append_inj' hsplit rfl).1 hc

/-- What is handed out to a callback behind a gate goes to its target as far as the gate lets it
through. -/
theorem handOut_of_gate {d : Delivery} {gate : SparseGate}
    (found : w.callbacks[d.callback]? = some ⟨some gate, target⟩) :
    let through := (gate.feed d.signal).through
    (w.handOut d).target = some target ∧
      (w.handOut d).calls.filterMap Signal.edition? = through.filterMap Signal.edition? ∧
      ((w.handOut d).returned = true → (w.handOut d).calls = through) := by
  intro through
  have htarget : (w.handOut d).target = some target := by
    rw [handOut, found]
    rfl
  have hcalls : (w.handOut d).calls = (w.tell d).callsTo target through := by
    simp only [handOut, callsOf, found]
    rfl
  have hreturned : (w.handOut d).returned = ((w.tell d).callAll target through).returned := by
    simp only [handOut, deliver_eq, found]
    rfl
  refine ⟨htarget, ?_, fun hr => ?_⟩
  · rw [hcalls]
    exact editions_callsTo (w.tell d) target gate d.signal
  · rw [hcalls]
    exact callsTo_of_returned (hreturned ▸ hr)

namespace Ledger

variable {arrived : List Arrival} {made : List HandOut}

/-- A delivery is taken out and its callback is told. -/
theorem tell (ledger : Ledger w callback key requested target arrived made) {h : HandOut}
    (hmade : h = w.take.handOut h.delivery)
    (hpending : w.pending = h.delivery :: w.take.pending) :
    Ledger (w.take.tell h.delivery) callback key requested target arrived (made ++ [h]) := by
  have hfifo : (made ++ [h]).map HandOut.delivery ++ (w.take.tell h.delivery).pending =
      arrived.map Arrival.delivery := by
    rw [← ledger.fifo, hpending, List.map_append, List.append_assoc]
    rfl
  have hserves := ledger.serves.agrees (agrees_take w)
  by_cases hc : h.delivery.callback = callback
  · let gate := SparseGate.after callback (made.map HandOut.delivery)
    have hafter : SparseGate.after callback ((made ++ [h]).map HandOut.delivery) =
        (gate.feed h.delivery.signal).gate := by
      have hsignal : signalsTo callback [h.delivery] = [h.delivery.signal] := by
        simp [signalsTo, hc]
      rw [List.map_append, SparseGate.after_append]
      change (gate.feedAll (signalsTo callback [h.delivery])).gate = _
      rw [hsignal]
      rfl
    have hfound : w.take.callbacks[h.delivery.callback]? = some ⟨some gate, target⟩ := by
      rw [hc]
      exact ledger.gate
    obtain ⟨htarget, heditions, hcalls⟩ := handOut_of_gate hfound
    rw [← hmade] at htarget heditions hcalls
    constructor
    case fifo => exact hfifo
    case serves => exact hserves
    case heeds => exact ledger.heeds
    case gate =>
      rw [hafter, Watch.tell, ← hc, getElem?_modify_self hfound]
      rfl
    case passed =>
      rw [hafter, forwarded_concat, if_pos hc, heditions]
      exact SparseGate.passed_feed ledger.passed _
    case complies => exact ledger.complies.concat fun _ => ⟨ledger.passed, htarget, hcalls⟩
  · have hafter : SparseGate.after callback ((made ++ [h]).map HandOut.delivery) =
        SparseGate.after callback (made.map HandOut.delivery) := by
      rw [List.map_append]
      exact SparseGate.after_of_other fun d hd => List.mem_singleton.mp hd ▸ hc
    constructor
    case fifo => exact hfifo
    case serves => exact hserves
    case heeds => exact ledger.heeds
    case gate =>
      rw [hafter, Watch.tell, ← ledger.gate]
      exact List.getElem?_modify_ne _ _ hc
    case passed =>
      rw [hafter, forwarded_concat, if_neg hc, List.append_nil]
      exact ledger.passed
    case complies => exact ledger.complies.concat fun his => absurd his hc

/-- A delivery that is taken out is entered as handed out. -/
theorem ease (ledger : Ledger w callback key requested target arrived made) (action : Action) :
    Ledger (w.eased action) callback key requested target arrived
      (made ++ (w.handOut? action).toList) := by
  cases hmade : w.handOut? action with
  | none =>
    rw [eased_of_idle hmade, Option.toList_none, List.append_nil]
    exact ledger
  | some h =>
    obtain ⟨hmaking, hpending, -⟩ := handOut_cases hmade
    rw [eased_of_handOut hmade]
    exact ledger.tell hmaking hpending

/-! ## Arrivals -/

/-- Deliveries arrive while the gate stays as it is. -/
theorem grow (ledger : Ledger w callback key requested target arrived made) {more : List Delivery}
    (pending : v.pending = w.pending ++ more)
    (callbacks : v.callbacks[callback]? = w.callbacks[callback]?)
    (serves : v.records.Serves callback key requested
      (SparseGate.after callback (arrived.map Arrival.delivery ++ more)))
    (heeds : Heeds callback key requested (arrived.map Arrival.delivery) (w.arriving more)) :
    Ledger v callback key requested target (arrived ++ w.arriving more) made where
  fifo := by
    rw [deliveries_append_arriving, pending, ← List.append_assoc, ledger.fifo]
  serves := by
    rw [deliveries_append_arriving]
    exact serves
  heeds := ledger.heeds.append heeds
  gate := callbacks.trans ledger.gate
  passed := ledger.passed
  complies := ledger.complies

/-- A callback with a ledger is there. -/
theorem lt_of_ledger (ledger : Ledger w callback key requested target arrived made) :
    callback < w.callbacks.length := (List.getElem?_eq_some_iff.mp ledger.gate).1

/-- What tells somebody something keeps the ledger: deliveries arrive as they are enqueued. -/
theorem tells (ledger : Ledger w callback key requested target arrived made) (h : Tells w calls v) :
    ∃ more, v.pending = w.pending ++ more ∧
      Ledger v callback key requested target
        (arrived ++ w.arriving more) made := by
  obtain ⟨changes, hrecords, hplain, hpending⟩ := h.pending
  refine ⟨_, hpending, ledger.grow hpending (by rw [h.callbacks]) ?_
    (Heeds.of_found fun d hd =>
      Records.found_of_mem_enqueuedIn ledger.serves.attuned hplain hd)⟩
  rw [hrecords, SparseGate.after_append]
  exact ledger.serves.run hplain

/-- Whoever is subscribed later gets another callback. -/
theorem choice_ne (ledger : Ledger w callback key requested target arrived made)
    (enrolment : Enrolment) :
    (w.choice enrolment).callback ≠ callback ∧
      (w.choice enrolment).watch.callbacks[callback]? = w.callbacks[callback]? := by
  have hlt := ledger.lt_of_ledger
  rcases choice_cases w enrolment with ⟨hid, hcallbacks⟩ | ⟨hcallbacks, hopen⟩
  · rw [hid, hcallbacks]
    exact ⟨Nat.ne_of_gt hlt, List.getElem?_append_left hlt⟩
  · rw [hcallbacks]
    refine ⟨?_, rfl⟩
    rintro rfl
    have hgate := ledger.gate
    rw [hopen] at hgate
    cases hgate

/-- A target that joins keeps the ledger of a callback that is there. -/
theorem joins (ledger : Ledger w callback key requested target arrived made) {enrolment : Enrolment}
    (h : Joins w v enrolment) :
    ∃ more, v.pending = w.pending ++ more ∧
      Ledger v callback key requested target
        (arrived ++ w.arriving more) made := by
  obtain ⟨polls, changes, hrecords, hplain, hpending⟩ := h.pending
  obtain ⟨hne, hcallbacks⟩ := ledger.choice_ne enrolment
  have hserves := ledger.serves.subscribe_other hne enrolment.key enrolment.requested polls
  have hother : ∀ d ∈ w.records.enqueuedBy (.subscribe enrolment.key
      (w.choice enrolment).callback enrolment.requested polls), d.callback ≠ callback := by
    intro d hd
    obtain ⟨found, -, rfl⟩ := Records.callback_of_mem_enqueuedBy_subscribe hd
    exact hne
  refine ⟨_, hpending, ledger.grow hpending (by rw [h.callbacks, hcallbacks]) ?_
    (Heeds.of_found fun d hd =>
      Records.found_of_mem_subscribe ledger.serves.attuned hplain hd)⟩
  rw [hrecords, ← List.append_assoc, SparseGate.after_append, SparseGate.after_of_other hother]
  exact hserves.run hplain

/-- A round that is closed keeps the ledger: its end arrives with the slot to report. -/
theorem closes (ledger : Ledger w callback key requested target arrived made) {ended : DocumentKey}
    (h : Closes w v ended) :
    ∃ more, v.pending = w.pending ++ more ∧
      Ledger v callback key requested target
        (arrived ++ w.arriving more) made := by
  have hserves := ledger.serves.finishRound ended
  have hagrees : Records.Agrees (w.records.finishRound ended) v.records :=
    ⟨h.agrees.frontier, h.agrees.registry⟩
  refine ⟨_, h.pending, ledger.grow h.pending (by rw [h.callbacks]) ?_
    (Heeds.of_rounds ledger.serves ended)⟩
  rw [SparseGate.after_append]
  exact hserves.agrees hagrees

/-- Every action keeps the ledger. -/
theorem act (ledger : Ledger w callback key requested target arrived made) (action : Action) :
    Ledger (w.act action) callback key requested target (arrived ++ w.arrivalsBy action)
      (made ++ (w.handOut? action).toList) := by
  have heased := ledger.ease action
  obtain ⟨more, hmore, hledger⟩ : ∃ more,
      (w.act action).pending = (w.eased action).pending ++ more ∧
      Ledger (w.act action) callback key requested target
        (arrived ++ (w.eased action).arriving more) (made ++ (w.handOut? action).toList) := by
    cases deed_act w action with
    | tells tells => exact heased.tells tells
    | joins enrolment joins => exact heased.joins joins
    | closes ended closes => exact heased.closes closes
  rw [arrivalsBy_eq hmore]
  exact hledger

/-- What is known of a callback stays known. -/
theorem run (ledger : Ledger w callback key requested target arrived made) (actions : List Action) :
    Ledger (w.run actions) callback key requested target (arrived ++ w.arrivals actions)
      (made ++ w.handOuts actions) := by
  induction actions generalizing w arrived made with
  | nil =>
    rw [arrivals, handOuts, List.append_nil, List.append_nil]
    exact ledger
  | cons action rest ih =>
    rw [arrivals, handOuts, ← List.append_assoc, ← List.append_assoc]
    exact ih (ledger.act action)

end Ledger

/-! ## Before the subscription -/

/-- Only callbacks that were made are registered, and only such were told anything. -/
structure Familiar (w : Watch) (arrived : List Arrival) : Prop where
  attuned : w.records.Attuned
  made : ∀ other, ∀ s ∈ w.records.registry.of other, s.callback < w.callbacks.length
  told : ∀ a ∈ arrived, a.delivery.callback < w.callbacks.length

/-- At the start no callback is there, so none is registered or told anything. -/
theorem familiar_initial (settings : Settings) (listeners : List Listener) :
    Familiar (initial settings listeners) [] where
  attuned := Records.attuned_initial _
  made _ _ h := by cases h
  told _ h := by cases h

/-- Plain changes tell only callbacks that are registered, and register none. -/
theorem lt_of_plain {r : Records} {n : Nat} (h : r.Attuned)
    (made : ∀ other, ∀ s ∈ r.registry.of other, s.callback < n) {changes : List Records.Change}
    (plain : ∀ change ∈ changes, change.isPlain = true) :
    (∀ other, ∀ s ∈ (r.run changes).registry.of other, s.callback < n) ∧
      ∀ d ∈ r.enqueuedIn changes, d.callback < n := by
  induction changes generalizing r with
  | nil => exact ⟨made, fun d hd => by cases hd⟩
  | cons change rest ih =>
    have hplain := plain change List.mem_cons_self
    have hmade : ∀ other, ∀ t ∈ (r.apply change).registry.of other, t.callback < n := by
      intro other t ht
      obtain ⟨s, hs, hc, -⟩ := Records.subscriber_of_mem_apply h hplain ht
      exact hc ▸ made other s hs
    obtain ⟨hregistered, htold⟩ := ih (Records.attuned_apply h change) hmade
      fun c hc => plain c (List.mem_cons_of_mem _ hc)
    refine ⟨hregistered, fun d hd => ?_⟩
    rcases List.mem_append.mp hd with hd | hd
    · obtain ⟨found, s, hs, rfl⟩ := Records.subscriber_of_mem_enqueuedBy h hplain hd
      exact made found.key s hs
    · exact htold d hd

namespace Familiar

variable {arrived : List Arrival}

/-- A delivery that is taken out makes no callback known that was not made. -/
theorem eased (h : Familiar w arrived) (action : Action) : Familiar (w.eased action) arrived := by
  have hlength : (w.eased action).callbacks.length = w.callbacks.length := by
    unfold Watch.eased
    split
    · rfl
    · exact List.length_modify _ _ _
  refine ⟨(agrees_eased w action).attuned h.attuned, fun other s hs => ?_, ?_⟩
  · rw [(agrees_eased w action).registry] at hs
    rw [hlength]
    exact h.made other s hs
  · rw [hlength]
    exact h.told

/-- Deliveries arrive for callbacks that were made. -/
theorem grow (h : Familiar w arrived) {more : List Delivery} (attuned : v.records.Attuned)
    (grows : w.callbacks.length ≤ v.callbacks.length)
    (made : ∀ other, ∀ s ∈ v.records.registry.of other, s.callback < v.callbacks.length)
    (told : ∀ d ∈ more, d.callback < v.callbacks.length) :
    Familiar v (arrived ++ w.arriving more) := by
  refine ⟨attuned, made, fun a ha => ?_⟩
  rcases List.mem_append.mp ha with ha | ha
  · exact Nat.lt_of_lt_of_le (h.told a ha) grows
  · obtain ⟨d, hd, rfl⟩ := List.mem_map.mp ha
    exact told d hd

/-- What tells somebody something registers nobody who was not made. -/
theorem tells (h : Familiar w arrived) (htells : Tells w calls v) :
    ∃ more, v.pending = w.pending ++ more ∧ Familiar v (arrived ++ w.arriving more) := by
  obtain ⟨changes, hrecords, hplain, hpending⟩ := htells.pending
  obtain ⟨hmade, htold⟩ := lt_of_plain h.attuned h.made hplain
  refine ⟨_, hpending, h.grow ?_ ?_ ?_ ?_⟩
  · rw [hrecords]
    exact Records.attuned_run h.attuned changes
  · exact Nat.le_of_eq (congrArg List.length htells.callbacks.symm)
  · rw [hrecords, htells.callbacks]
    exact hmade
  · rw [htells.callbacks]
    exact htold

/-- A target that joins is registered under a callback that is made by then. -/
theorem joins (h : Familiar w arrived) {enrolment : Enrolment}
    (hjoins : Joins w v enrolment) :
    ∃ more, v.pending = w.pending ++ more ∧ Familiar v (arrived ++ w.arriving more) := by
  obtain ⟨polls, changes, hrecords, hplain, hpending⟩ := hjoins.pending
  obtain ⟨hid, hgrows⟩ : (w.choice enrolment).callback < v.callbacks.length ∧
      w.callbacks.length ≤ v.callbacks.length := by
    rw [hjoins.callbacks]
    rcases choice_cases w enrolment with ⟨hid, hc⟩ | ⟨hc, hopen⟩
    · rw [hid, hc, List.length_append, List.length_singleton]
      exact ⟨Nat.lt_succ_self _, Nat.le_succ _⟩
    · rw [hc]
      exact ⟨(List.getElem?_eq_some_iff.mp hopen).1, Nat.le_refl _⟩
  have hattuned := Records.attuned_apply h.attuned (.subscribe enrolment.key
    (w.choice enrolment).callback enrolment.requested polls)
  have hregistered : ∀ other, ∀ t ∈ (w.records.apply (.subscribe enrolment.key
      (w.choice enrolment).callback enrolment.requested polls)).registry.of other,
      t.callback < v.callbacks.length := by
    intro other t ht
    rcases Records.subscriber_of_mem_subscribe ht with ⟨s, hs, hc, -⟩ | ⟨-, -, hc, -⟩
    · exact hc ▸ Nat.lt_of_lt_of_le (h.made other s hs) hgrows
    · exact hc ▸ hid
  obtain ⟨hmade, htold⟩ := lt_of_plain hattuned hregistered hplain
  refine ⟨_, hpending, h.grow ?_ hgrows (hrecords ▸ hmade) fun d hd => ?_⟩
  · rw [hrecords]
    exact Records.attuned_run hattuned changes
  · rcases List.mem_append.mp hd with hd | hd
    · obtain ⟨found, -, rfl⟩ := Records.callback_of_mem_enqueuedBy_subscribe hd
      exact hid
    · exact htold d hd

/-- A round that is closed tells only callbacks that were made. -/
theorem closes (h : Familiar w arrived) {ended : DocumentKey} (hcloses : Closes w v ended) :
    ∃ more, v.pending = w.pending ++ more ∧ Familiar v (arrived ++ w.arriving more) := by
  refine ⟨_, hcloses.pending, h.grow (hcloses.agrees.attuned h.attuned) ?_ ?_ ?_⟩
  · exact Nat.le_of_eq (congrArg List.length hcloses.callbacks.symm)
  · rw [hcloses.agrees.registry, hcloses.callbacks]
    exact h.made
  · intro d hd
    obtain ⟨s, hs, rfl⟩ := List.mem_map.mp hd
    rw [hcloses.callbacks]
    exact h.made ended s hs

/-- After every action only callbacks that were made are registered and told something. -/
theorem act (h : Familiar w arrived) (action : Action) :
    Familiar (w.act action) (arrived ++ w.arrivalsBy action) := by
  have heased := h.eased action
  obtain ⟨more, hmore, hfamiliar⟩ : ∃ more,
      (w.act action).pending = (w.eased action).pending ++ more ∧
      Familiar (w.act action) (arrived ++ (w.eased action).arriving more) := by
    cases deed_act w action with
    | tells tells => exact heased.tells tells
    | joins enrolment joins => exact heased.joins joins
    | closes ended closes => exact heased.closes closes
  rw [arrivalsBy_eq hmore]
  exact hfamiliar

/-- After every run only callbacks that were made are registered and told something. -/
theorem run (h : Familiar w arrived) (actions : List Action) :
    Familiar (w.run actions) (arrived ++ w.arrivals actions) := by
  induction actions generalizing w arrived with
  | nil =>
    rw [arrivals, List.append_nil]
    exact h
  | cons action rest ih =>
    rw [arrivals, ← List.append_assoc]
    exact ih (h.act action)

end Familiar

/-! ## The subscription -/

/-- Before anything is told to a callback, its gate is fresh and nothing was forwarded. -/
theorem after_eq_fresh {made : List HandOut}
    (h : ∀ d ∈ made.map HandOut.delivery, d.callback ≠ callback) :
    SparseGate.after callback (made.map HandOut.delivery) = .fresh ∧
      forwarded callback made = [] := by
  have hnone : (made.filter fun b => b.delivery.callback = callback) = [] :=
    List.filter_eq_nil_iff.mpr fun b hb => by simpa using h _ (List.mem_map_of_mem hb)
  constructor
  · rw [SparseGate.after, signalsTo_eq_nil h]
    rfl
  · rw [forwarded, hnone, List.flatMap_nil]

/-- A gate that no delivery has reached decides about nothing. -/
theorem complies_of_unheard {made : List HandOut}
    (h : ∀ d ∈ made.map HandOut.delivery, d.callback ≠ callback) :
    Complies callback target made := by
  intro earlier b later hsplit hc
  have hin : b ∈ made := by
    rw [hsplit]
    exact List.mem_append_right _ List.mem_cons_self
  exact absurd hc (h _ (List.mem_map_of_mem hin))

/-- A sparse subscription begins with a fresh gate that is told the slot. -/
theorem ledger_of_joins {arrived : List Arrival} {made : List HandOut}
    (familiar : Familiar w arrived)
    (fifo : made.map HandOut.delivery ++ w.pending = arrived.map Arrival.delivery)
    (hjoins : Joins w v ⟨key, requested, true, target⟩) :
    ∃ more, v.pending = w.pending ++ more ∧
      Ledger v w.callbacks.length key requested target (arrived ++ w.arriving more) made := by
  obtain ⟨polls, changes, hrecords, hplain, hpending⟩ := hjoins.pending
  change v.records = (w.records.apply (.subscribe key w.callbacks.length requested
    polls)).run changes at hrecords
  let subscribes : Records.Change := .subscribe key w.callbacks.length requested polls
  let more := w.records.enqueuedBy subscribes ++ (w.records.apply subscribes).enqueuedIn changes
  have hpending : v.pending = w.pending ++ more := hpending
  have hserves : (w.records.apply subscribes).Serves w.callbacks.length key requested
      (SparseGate.after w.callbacks.length (w.records.enqueuedBy subscribes)) :=
    Records.Serves.of_subscribe familiar.attuned
      (fun other s hs => Nat.ne_of_lt (familiar.made other s hs)) polls
  have hother : ∀ d ∈ arrived.map Arrival.delivery, d.callback ≠ w.callbacks.length := by
    intro d hd
    obtain ⟨a, ha, rfl⟩ := List.mem_map.mp hd
    exact Nat.ne_of_lt (familiar.told a ha)
  have hheeds : Heeds w.callbacks.length key requested [] (arrived ++ w.arriving more) := by
    refine Heeds.append (Heeds.of_unheard fun a ha => ?_) (Heeds.of_found fun d hd => ?_)
    · exact Nat.ne_of_lt (familiar.told a ha)
    · exact Records.found_of_mem_subscribe familiar.attuned hplain hd
  have hunheard : ∀ d ∈ made.map HandOut.delivery, d.callback ≠ w.callbacks.length :=
    fun d hd => hother d (fifo ▸ List.mem_append_left _ hd)
  obtain ⟨hfresh, hnone⟩ := after_eq_fresh hunheard
  refine ⟨more, hpending, ?_⟩
  constructor
  case fifo => rw [deliveries_append_arriving, hpending, ← List.append_assoc, fifo]
  case serves =>
    rw [deliveries_append_arriving, SparseGate.after_of_unheard hother, hrecords,
      SparseGate.after_append]
    exact hserves.run hplain
  case heeds => exact hheeds
  case gate =>
    rw [hjoins.callbacks, hfresh]
    exact List.getElem?_concat_length
  case passed =>
    rw [hfresh, hnone]
    rfl
  case complies => exact complies_of_unheard hunheard

/-- The ledger of a callback begins with its subscription. -/
theorem ledger_of_enrolment {arrived : List Arrival} {made : List HandOut}
    (familiar : Familiar w arrived)
    (fifo : made.map HandOut.delivery ++ w.pending = arrived.map Arrival.delivery)
    (held : w.held = true) {action : Action}
    (asked : w.enrolment? action = some ⟨key, requested, true, target⟩) :
    Ledger (w.act action) w.callbacks.length key requested target
      (arrived ++ w.arrivalsBy action) made := by
  obtain ⟨hjoins, hidle⟩ := joins_act held asked
  obtain ⟨more, hpending, hledger⟩ := ledger_of_joins familiar fifo hjoins
  rw [arrivalsBy_of_idle hidle hpending]
  exact hledger

/-! ## Every run -/

/-- The slot that a subscriber has to be told of when a round ends: it is above what was asked
for, and above all editions that were forwarded before. -/
def Due (requested : Edition) (before : List Edition) (slot : Option Edition) (e : Edition) :
    Prop :=
  slot = some e ∧ requested < e ∧ ∀ old ∈ before, old < e

/-- A slot is due exactly if it is to be reported and above all that was forwarded. -/
theorem due_iff {before : List Edition} {slot : Option Edition} {e : Edition} :
    Due requested before slot e ↔
      reported requested slot = some e ∧ isAbove e before.max? = true := by
  rw [isAbove_max?_iff, reported, Option.filter_eq_some_iff, decide_eq_true_eq, and_assoc]
  rfl

/-- A list is what stands before an entry, the entry, and what stands behind it. -/
theorem split_at {α : Type} {l : List α} {i : Nat} {a : α} (h : l[i]? = some a) :
    l = l.take i ++ a :: l.drop (i + 1) := by
  obtain ⟨hlt, rfl⟩ := List.getElem?_eq_some_iff.mp h
  rw [← List.drop_eq_getElem_cons hlt, List.take_append_drop]

namespace Ledger

variable {arrived : List Arrival} {made : List HandOut}

/-- The delivery that was handed out at some time arrived at the same time. -/
theorem arrival_of_handOut (ledger : Ledger w callback key requested target arrived made)
    {i : Nat} {h : HandOut} (hi : made[i]? = some h) :
    ∃ slot, arrived[i]? = some ⟨h.delivery, slot⟩ ∧
      (arrived.take i).map Arrival.delivery = (made.take i).map HandOut.delivery := by
  have hlt : i < made.length := (List.getElem?_eq_some_iff.mp hi).1
  have hlt' : i < (made.map HandOut.delivery).length := by rwa [List.length_map]
  have hdelivery : (arrived.map Arrival.delivery)[i]? = some h.delivery := by
    rw [← ledger.fifo, List.getElem?_append_left hlt', List.getElem?_map, hi]
    rfl
  rw [List.getElem?_map] at hdelivery
  obtain ⟨⟨d, slot⟩, ha, rfl⟩ := Option.map_eq_some_iff.mp hdelivery
  refine ⟨slot, ha, ?_⟩
  rw [List.map_take, ← ledger.fifo, List.take_append_of_le_length (Nat.le_of_lt hlt'),
    List.map_take]

/-- What a callback behind a gate does about a delivery. -/
theorem calls_of_handOut (ledger : Ledger w callback key requested target arrived made)
    {i : Nat} {h : HandOut} (hi : made[i]? = some h) (told : h.delivery.callback = callback)
    (returned : h.returned = true) :
    h.target = some target ∧ ∃ slot, arrived[i]? = some ⟨h.delivery, slot⟩ ∧
      (∀ found, h.delivery = .found callback found → h.calls = []) ∧
      (∀ ended, h.delivery = .round callback ended →
        ended = key ∧
        (∀ e, Due requested (forwarded callback (made.take i)) slot e →
          ∃ found : Found, found.key = key ∧ found.edition = e ∧
            h.calls = [.found found, .round key]) ∧
        ((∀ e, ¬Due requested (forwarded callback (made.take i)) slot e) →
          h.calls = [.round key])) := by
  obtain ⟨slot, ha, hsame⟩ := ledger.arrival_of_handOut hi
  obtain ⟨hpassed, htarget, hcalls⟩ := ledger.complies _ _ _ (split_at hi) told
  have hcalls := hcalls returned
  refine ⟨htarget, slot, ha, fun found hfound => ?_, fun ended hround => ?_⟩
  · rw [hcalls, hfound]
    rfl
  · obtain ⟨rfl, hkeeps⟩ := ledger.heeds _ _ _ (split_at ha) ended hround
    rw [List.nil_append, hsame] at hkeeps
    obtain ⟨hdue, hnone⟩ := hkeeps.through_round ended
    rw [hpassed] at hdue hnone
    rw [hround] at hcalls
    refine ⟨rfl, fun e he => ?_, fun hno => ?_⟩
    · obtain ⟨hreported, habove⟩ := due_iff.mp he
      obtain ⟨found, hk, he, hthrough⟩ := hdue e hreported habove
      exact ⟨found, hk, he, hcalls.trans hthrough⟩
    · refine hcalls.trans (hnone fun e hreported => ?_)
      exact Bool.eq_false_iff.mpr fun habove => hno e (due_iff.mpr ⟨hreported, habove⟩)

end Ledger

/-- In every run, whoever subscribed sparsely is told of a slot at the end of each round exactly
if the slot, as it was when the end of the round arrived, is above what was asked for and above
all that was forwarded before; then comes the end of the round, and nothing comes at any other
time. Deliveries are made in the order in which they arrive, the end of a round arrives while
its document keeps its slot, and listeners hear of nothing that is not handed out. -/
theorem sparse_exact (settings : Settings) (listeners : List Listener) (earlier : List Action)
    (subscribes : Action) (later : List Action) (key : DocumentKey) (requested : Edition)
    (target : Target) (held : ((initial settings listeners).run earlier).held = true)
    (asked : ((initial settings listeners).run earlier).enrolment? subscribes =
      some ⟨key, requested, true, target⟩) :
    let start := initial settings listeners
    let callback := (start.run earlier).callbacks.length
    let actions := earlier ++ subscribes :: later
    let arrived := start.arrivals actions
    let made := start.handOuts actions
    (∀ (i : Nat) (h : HandOut), made[i]? = some h → h.delivery.callback = callback →
      h.returned = true →
      h.target = some target ∧ ∃ slot, arrived[i]? = some ⟨h.delivery, slot⟩ ∧
        (∀ found, h.delivery = .found callback found → h.calls = []) ∧
        (∀ ended, h.delivery = .round callback ended →
          ended = key ∧
          (∀ e, Due requested (forwarded callback (made.take i)) slot e →
            ∃ found : Found, found.key = key ∧ found.edition = e ∧
              h.calls = [.found found, .round key]) ∧
          ((∀ e, ¬Due requested (forwarded callback (made.take i)) slot e) →
            h.calls = [.round key]))) ∧
    (∀ before action rest, actions = before ++ action :: rest →
      ∀ told ended slot, ⟨.round told ended, slot⟩ ∈ (start.run before).arrivalsBy action →
        ((start.run before).records.frontier ended).slot = slot ∧
        (((start.run before).act action).records.frontier ended).slot = slot) ∧
    made.map HandOut.delivery ++ (start.run actions).pending = arrived.map Arrival.delivery ∧
    (start.run actions).told = made.flatMap HandOut.told := by
  intro start callback actions arrived made
  have hfamiliar : Familiar (start.run earlier) (start.arrivals earlier) :=
    (familiar_initial settings listeners).run earlier
  have hfifo : (start.handOuts earlier).map HandOut.delivery ++ (start.run earlier).pending =
      (start.arrivals earlier).map Arrival.delivery := pending_run start earlier
  have hidle : (start.run earlier).handOut? subscribes = none := (joins_act held asked).2
  have hledger : Ledger (start.run actions) callback key requested target arrived made := by
    have hlater := (ledger_of_enrolment hfamiliar hfifo held asked).run later
    rw [List.append_assoc] at hlater
    change Ledger (start.run (earlier ++ subscribes :: later)) callback key requested target
      (start.arrivals (earlier ++ subscribes :: later))
      (start.handOuts (earlier ++ subscribes :: later))
    rw [run_append, arrivals_append, handOuts_append, handOuts, hidle]
    exact hlater
  refine ⟨fun i h hi htold hreturned => hledger.calls_of_handOut hi htold hreturned,
    fun before action rest _ told ended slot hround => ?_, pending_run start actions,
    told_run start actions⟩
  have hattuned : (start.run before).records.Attuned :=
    ((familiar_initial settings listeners).run before).attuned
  have hslot : ((start.run before).records.frontier ended).slot = slot := by
    obtain ⟨d, -, he⟩ := List.mem_map.mp hround
    obtain ⟨rfl, hslot⟩ := Arrival.mk.inj he
    exact hslot
  refine ⟨hslot, ?_⟩
  rw [frontier_of_round_arrives hattuned hround ended]
  exact hslot

/-- Someone who asks for editions above 2 of a document whose slot is 3, which then becomes 5, is
told of 5 at the end of the next round. That 5 is known good is not told, and so the round after
that ends without news. -/
theorem sparse_exact_of_two_rounds :
    let notes : DocumentKey := ⟨.uniform 7, "notes"⟩
    let settings : Settings := { Settings.standard with minFailures := 1, maxProbes := 1 }
    let start := initial settings []
    let round : List Action :=
      List.replicate 8 (.work (.poller 0)) ++ List.replicate 3 (.work .delivery)
    let earlier : List Action := [.noteSlot ⟨notes, 3⟩]
    let subscribes : Action := .subscribe notes "ann" { requested := 2, sparse := true }
    let later := .noteSlot ⟨notes, 5⟩ :: round ++
      (.noteGood ⟨notes, 5⟩ :: .elapse 3600000000000 :: round)
    let made := start.handOuts (earlier ++ subscribes :: later)
    (∃ h found, made[2]? = some h ∧ found.edition = 5 ∧
      h.calls = [.found found, .round notes]) ∧
    (∃ h, made[4]? = some h ∧ h.calls = [.round notes]) := by
  intro notes settings start round earlier subscribes later made
  obtain ⟨hexact, -⟩ := sparse_exact settings [] earlier subscribes later notes 2
    (.listener "ann") (by decide) (by decide)
  have hrounds : made.map (fun h => (h.delivery, h.returned)) =
      [(.found 0 ⟨notes, 3, false, true⟩, true), (.found 0 ⟨notes, 5, false, true⟩, true),
        (.round 0 notes, true), (.found 0 ⟨notes, 5, true, false⟩, true),
        (.round 0 notes, true)] := by decide
  have hslots : (start.arrivals (earlier ++ subscribes :: later)).map Arrival.slot =
      [some 3, some 3, some 5, some 5, some 5] := by decide
  have hforwarded : forwarded 0 (made.take 2) = [] ∧ forwarded 0 (made.take 4) = [5] := by decide
  have hround (i : Nat) (hi : (made.map fun h => (h.delivery, h.returned))[i]? =
      some (.round 0 notes, true)) :
      ∃ h slot, made[i]? = some h ∧
        ((start.arrivals (earlier ++ subscribes :: later)).map Arrival.slot)[i]? = some slot ∧
        (∀ e, Due 2 (forwarded 0 (made.take i)) slot e →
          ∃ found : Found, found.key = notes ∧ found.edition = e ∧
            h.calls = [.found found, .round notes]) ∧
        ((∀ e, ¬Due 2 (forwarded 0 (made.take i)) slot e) → h.calls = [.round notes]) := by
    rw [List.getElem?_map, Option.map_eq_some_iff] at hi
    obtain ⟨h, hmade, hh⟩ := hi
    obtain ⟨hd, hr⟩ := Prod.mk.inj hh
    have htold : h.delivery.callback = 0 := by rw [hd]; rfl
    obtain ⟨-, slot, harrived, -, hrounds⟩ := hexact i h hmade htold hr
    refine ⟨h, slot, hmade, ?_, (hrounds notes hd).2⟩
    rw [List.getElem?_map, harrived]
    rfl
  constructor
  · obtain ⟨h, slot, hmade, hslot, hdue, -⟩ := hround 2 (by rw [hrounds]; rfl)
    obtain rfl : some 5 = slot := by
      rw [hslots] at hslot
      exact Option.some.inj hslot
    have hfive : Due 2 (forwarded 0 (made.take 2)) (some 5) 5 := by
      rw [hforwarded.1]
      exact ⟨rfl, by decide, fun old hold => by cases hold⟩
    obtain ⟨found, -, he, hcalls⟩ := hdue 5 hfive
    exact ⟨h, found, hmade, he, hcalls⟩
  · obtain ⟨h, slot, hmade, hslot, -, hnone⟩ := hround 4 (by rw [hrounds]; rfl)
    obtain rfl : some 5 = slot := by
      rw [hslots] at hslot
      exact Option.some.inj hslot
    refine ⟨h, hmade, hnone fun e he => ?_⟩
    obtain ⟨hslot, -, hnewer⟩ := he
    obtain rfl : 5 = e := Option.some.inj hslot
    rw [hforwarded.2] at hnewer
    exact absurd (hnewer 5 List.mem_cons_self) (by decide)

end Watch

end EditionWatch
