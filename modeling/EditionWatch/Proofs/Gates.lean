import Mathlib.Data.List.DropRight
import Mathlib.Data.List.MinMax
import EditionWatch.Proofs.Sparse

/-!
# Gates in a row, and one gate for several documents

What a gate lets through at the end of a round was a slot when it was told of it. So the gates
behind it take it up at once and let it through with the same round: behind the first gate none
ever keeps anything, and a row of gates is as good as the first.

A gate asks of an edition how great it is, never which document it belongs to. What it lets
through is read off from all that it was told and all that it let through, and it is the law
of one document only if it is told of no other.
-/

namespace EditionWatch

/-- Whether news brings a slot: it is a new slot, or the edition is not known to be good. -/
def Found.bringsSlot (found : Found) : Bool := !found.good || found.newSlot

/-- The document that a signal is about. -/
def Signal.key : Signal → DocumentKey
  | .found news => news.key
  | .round key => key

/-- The slot that a signal brings. -/
def Signal.slot? : Signal → Option Found
  | .found news => if news.bringsSlot then some news else none
  | .round _ => none

/-- Whether a signal is news of an edition. -/
def Signal.isNews : Signal → Bool
  | .found _ => true
  | .round _ => false

namespace SparseGate

variable {gate : SparseGate} {found : Found} {signal : Signal}

theorem feedAll_singleton (gate : SparseGate) (signal : Signal) :
    gate.feedAll [signal] = gate.feed signal := by
  simp [feedAll]

/-- A gate takes what brings a slot above the one it keeps. -/
theorem takes_eq (gate : SparseGate) (found : Found) :
    gate.takes found =
      (found.bringsSlot && isAbove found.edition (gate.pending.map Found.edition)) := rfl

/-! ## Gates in a row -/

/-- What a gate keeps was brought as a slot. -/
def KeepsSlot (gate : SparseGate) : Prop :=
  ∀ found, gate.pending = some found → found.bringsSlot = true

/-- A gate keeps nothing but slots, whatever it is fed. -/
theorem KeepsSlot.feed (h : gate.KeepsSlot) (signal : Signal) :
    (gate.feed signal).gate.KeepsSlot := by
  intro kept hkept
  cases signal with
  | found found =>
    simp only [SparseGate.feed] at hkept
    split at hkept
    case isTrue htakes =>
      obtain rfl : found = kept := Option.some.inj hkept
      rw [takes_eq, Bool.and_eq_true] at htakes
      exact htakes.1
    case isFalse => exact h kept hkept
  | round key =>
    have hnone : (gate.feed (.round key)).gate.pending = none := by
      simp only [SparseGate.feed]
      split
      case h_1 hpending => exact hpending
      case h_2 => split <;> rfl
    rw [hnone] at hkept
    cases hkept

/-- A gate that keeps nothing and let the same through as the gate before it lets all through
that comes from there, and is in the same position again. -/
theorem KeepsSlot.feedAll_through (h : gate.KeepsSlot) (signal : Signal) :
    feedAll ⟨none, gate.passed⟩ (gate.feed signal).through =
      ⟨⟨none, (gate.feed signal).gate.passed⟩, (gate.feed signal).through⟩ := by
  cases signal with
  | found found =>
    have hpassed : (gate.feed (.found found)).gate.passed = gate.passed := by
      simp only [SparseGate.feed]
      split <;> rfl
    rw [hpassed]
    rfl
  | round key =>
    cases hpending : gate.pending with
    | none => simp [SparseGate.feed, feedAll, hpending]
    | some kept =>
      by_cases habove : isAbove kept.edition gate.passed = true
      · have htakes : takes ⟨none, gate.passed⟩ kept = true := by
          rw [takes_eq, h kept hpending]
          rfl
        simp [SparseGate.feed, feedAll, hpending, habove, htakes]
      · simp [SparseGate.feed, feedAll, hpending, habove]

end SparseGate

namespace GateRow

variable {gate : SparseGate}

/-- A row behind one gate: none of it keeps anything, and each let through what that gate did. -/
def behind (gate : SparseGate) (depth : Nat) : GateRow := List.replicate depth ⟨none, gate.passed⟩

/-- A row behind a gate lets everything through that the gate did, and still keeps nothing. -/
theorem feed_behind (h : gate.KeepsSlot) (signal : Signal) (depth : Nat) :
    feed (behind gate depth) (gate.feed signal).through =
      ⟨behind (gate.feed signal).gate depth, (gate.feed signal).through⟩ := by
  induction depth with
  | zero => rfl
  | succ depth ih =>
    simp only [behind, List.replicate_succ, feed] at ih ⊢
    rw [h.feedAll_through, ih]

/-- One signal: the row behind a gate lets through what the gate lets through. -/
theorem feed_cons_behind (h : gate.KeepsSlot) (signal : Signal) (depth : Nat) :
    feed (gate :: behind gate depth) [signal] =
      ⟨(gate.feed signal).gate :: behind (gate.feed signal).gate depth,
        (gate.feed signal).through⟩ := by
  rw [feed, SparseGate.feedAll_singleton, feed_behind h]

/-- What comes through a row is what comes through its first gate. -/
theorem trace_cons_behind (h : gate.KeepsSlot) (signals : List Signal) (depth : Nat) :
    trace (gate :: behind gate depth) signals = trace [gate] signals := by
  induction signals generalizing gate with
  | nil => rfl
  | cons signal rest ih =>
    have halone : feed [gate] [signal] =
        ⟨[(gate.feed signal).gate], (gate.feed signal).through⟩ := feed_cons_behind h signal 0
    rw [trace, trace, feed_cons_behind h signal depth, halone]
    exact congrArg _ (ih (h.feed signal))

/-- Gates in a row do what one of them does alone: whatever the row is told, the same comes
through it, and with the same signals. -/
theorem trace_replicate_fresh (depth : Nat) (signals : List Signal) :
    trace (List.replicate (depth + 1) .fresh) signals = trace [.fresh] signals := by
  have hfresh : SparseGate.fresh.KeepsSlot := fun _ hkept => by cases hkept
  exact trace_cons_behind hfresh signals depth

end GateRow

/-! ## One gate for several documents -/

/-- The slots that were brought since a round ended last. -/
def slotsSinceRound (told : List Signal) : List Found :=
  (told.rtakeWhile Signal.isNews).filterMap Signal.slot?

/-- The newest of some slots, the earliest of these if there are several. -/
def newestOf (slots : List Found) : Option Found := slots.argmax fun found => found.edition.toNat

/-- The slot to report when a round ends, of all that someone was told and was forwarded: the
newest one that was brought since the last round, if it is above all that was forwarded. -/
def slotDue (told given : List Signal) : Option Found :=
  (newestOf (slotsSinceRound told)).filter fun found =>
    (given.filterMap Signal.edition?).all fun old => old < found.edition

/-- What is to be forwarded of a signal: nothing at once, and at the end of a round the slot
that is due then and the end of the round. -/
def forwardedOf (told given : List Signal) : Signal → List Signal
  | .found _ => []
  | .round key => (slotDue told given).toList.map .found ++ [.round key]

/-- The signals about one document. -/
def signalsAbout (key : DocumentKey) (signals : List Signal) : List Signal :=
  signals.filter fun signal => signal.key = key

/-- No slot has come since the round that was told last. -/
theorem slotsSinceRound_round (told : List Signal) (key : DocumentKey) :
    slotsSinceRound (told ++ [.round key]) = [] := by
  rw [slotsSinceRound, List.rtakeWhile_concat_neg _ _ _ (by simp [Signal.isNews])]
  rfl

/-- Among the slots since the last round is one more if an edition was brought as a slot. -/
theorem slotsSinceRound_found (told : List Signal) (found : Found) :
    slotsSinceRound (told ++ [.found found]) =
      slotsSinceRound told ++ (if found.bringsSlot then [found] else []) := by
  rw [slotsSinceRound, List.rtakeWhile_concat_pos _ _ _ rfl, List.filterMap_append]
  congr 1
  by_cases hslot : found.bringsSlot = true <;> simp [Signal.slot?, hslot]

/-- One slot more is the newest if it is above all others. -/
theorem newestOf_concat (slots : List Found) (found : Found) :
    newestOf (slots ++ [found]) =
      if isAbove found.edition ((newestOf slots).map Found.edition) then some found
      else newestOf slots := by
  rw [newestOf, List.argmax_concat, ← newestOf]
  cases newestOf slots with
  | none => rfl
  | some kept => simp [isAbove, UInt64.lt_iff_toNat_lt]

/-- Slots since the last round have been told. -/
theorem mem_of_mem_slotsSinceRound {told : List Signal} {found : Found}
    (h : found ∈ slotsSinceRound told) : .found found ∈ told := by
  obtain ⟨signal, hsignal, hslot⟩ := List.mem_filterMap.mp h
  have htold : signal ∈ told := (List.rtakeWhile_suffix Signal.isNews told).subset hsignal
  cases signal with
  | found news =>
    simp only [Signal.slot?, Option.ite_none_right_eq_some, Option.some.injEq] at hslot
    exact hslot.2 ▸ htold
  | round key => cases hslot

/-- Whatever is forwarded of a signal is that signal, or was told before. -/
theorem mem_forwardedOf {told given : List Signal} {signal through : Signal}
    (h : through ∈ forwardedOf told given signal) : through = signal ∨ through ∈ told := by
  cases signal with
  | found news => cases h
  | round key =>
    rcases List.mem_append.mp h with hdue | hround
    · obtain ⟨found, hfound, rfl⟩ := List.mem_map.mp hdue
      have hnewest := (Option.filter_eq_some_iff.mp (Option.mem_toList.mp hfound)).1
      exact .inr (mem_of_mem_slotsSinceRound (List.argmax_mem hnewest))
    · exact .inl (List.mem_singleton.mp hround)

/-- If all signals are about one document, nothing is left out. -/
theorem signalsAbout_eq_self {key : DocumentKey} {signals : List Signal}
    (h : ∀ signal ∈ signals, signal.key = key) : signalsAbout key signals = signals :=
  List.filter_eq_self.mpr fun signal hsignal => decide_eq_true (h signal hsignal)

namespace SparseGate

variable {gate : SparseGate} {told given : List Signal}

/-- A gate keeps the newest slot since the last round, and knows the greatest edition of all
that it let through. -/
structure Reflects (gate : SparseGate) (told given : List Signal) : Prop where
  pending : gate.pending = newestOf (slotsSinceRound told)
  passed : gate.passed = (given.filterMap Signal.edition?).max?

/-- A fresh gate was told nothing and let nothing through. -/
theorem reflects_fresh : fresh.Reflects [] [] := ⟨rfl, rfl⟩

/-- What is due is what a gate keeps, if that is above what it let through. -/
theorem Reflects.slotDue_eq (h : gate.Reflects told given) :
    slotDue told given = gate.pending.filter fun found => isAbove found.edition gate.passed := by
  rw [slotDue, ← h.pending, h.passed]
  congr 1
  funext found
  rw [Bool.eq_iff_iff, isAbove_max?_iff, List.all_eq_true]
  simp only [decide_eq_true_eq]

/-- A gate lets through what the whole history says it should. -/
theorem Reflects.through_feed (h : gate.Reflects told given) (signal : Signal) :
    (gate.feed signal).through = forwardedOf told given signal := by
  cases signal with
  | found news => rfl
  | round key =>
    rw [forwardedOf, h.slotDue_eq]
    cases hpending : gate.pending with
    | none => simp [feed, hpending]
    | some kept =>
      by_cases habove : isAbove kept.edition gate.passed = true <;>
        simp [SparseGate.feed, hpending, Option.filter, habove]

/-- A gate reflects its history whatever it is fed next. -/
theorem Reflects.feed (h : gate.Reflects told given) (signal : Signal) :
    (gate.feed signal).gate.Reflects (told ++ [signal])
      (given ++ (gate.feed signal).through) := by
  constructor
  case passed => rw [List.filterMap_append, passed_feed h.passed]
  case pending =>
    cases signal with
    | found news =>
      rw [slotsSinceRound_found]
      by_cases hslot : news.bringsSlot = true
      · rw [if_pos hslot, newestOf_concat, ← h.pending]
        simp only [SparseGate.feed, takes_eq, hslot, Bool.true_and]
        split <;> rfl
      · rw [if_neg hslot, List.append_nil, ← h.pending]
        simp [SparseGate.feed, takes_eq, hslot]
    | round key =>
      rw [slotsSinceRound_round]
      simp only [SparseGate.feed]
      split
      case h_1 hpending => exact hpending
      case h_2 => split <;> rfl

/-- What comes through a gate at a signal is what the signals up to it say. -/
theorem Reflects.getElem?_trace (h : gate.Reflects told given) (signals : List Signal) (i : Nat) :
    let came := GateRow.trace [gate] signals
    came[i]? = signals[i]?.map
      (forwardedOf (told ++ signals.take i) (given ++ (came.take i).flatten)) := by
  induction signals generalizing gate told given i with
  | nil => rfl
  | cons signal rest ih =>
    have htrace : GateRow.trace [gate] (signal :: rest) =
        (gate.feed signal).through :: GateRow.trace [(gate.feed signal).gate] rest := by
      rw [GateRow.trace, GateRow.feed, feedAll_singleton]
      rfl
    rw [htrace]
    cases i with
    | zero => simp [h.through_feed]
    | succ i =>
      have hrest := ih (h.feed signal) i
      simpa using hrest

end SparseGate

/-- Gates make up no signal. -/
theorem GateRow.mem_trace_fresh {signals through : List Signal} {signal : Signal}
    (h : through ∈ GateRow.trace [.fresh] signals) (mem : signal ∈ through) :
    signal ∈ signals := by
  obtain ⟨i, hi⟩ := List.mem_iff_getElem?.mp h
  rw [SparseGate.reflects_fresh.getElem?_trace signals i, Option.map_eq_some_iff] at hi
  obtain ⟨told, htold, rfl⟩ := hi
  rcases mem_forwardedOf mem with rfl | hbefore
  · exact List.mem_of_getElem? htold
  · exact List.mem_of_mem_take hbefore

/-- Whatever a gate is told of however many documents, it forwards nothing of news at once. At
the end of a round it forwards the newest slot that was brought since a round ended last, if
that is above all editions forwarded before, and then the end of the round; and there it asks
neither which document news is about nor whose round it was. So a gate that is told of one
document only follows the rule for that document. -/
theorem GateRow.trace_fresh (signals : List Signal) :
    let came := GateRow.trace [.fresh] signals
    (∀ i, came[i]? =
      signals[i]?.map (forwardedOf (signals.take i) (came.take i).flatten)) ∧
    (∀ key, (∀ signal ∈ signals, signal.key = key) → ∀ i, came[i]? =
      signals[i]?.map (forwardedOf (signalsAbout key (signals.take i))
        (signalsAbout key (came.take i).flatten))) := by
  intro came
  have hall : ∀ i, came[i]? =
      signals[i]?.map (forwardedOf (signals.take i) (came.take i).flatten) :=
    SparseGate.reflects_fresh.getElem?_trace signals
  refine ⟨hall, fun key hkey i => ?_⟩
  have htold : signalsAbout key (signals.take i) = signals.take i :=
    signalsAbout_eq_self fun signal hsignal => hkey signal (List.mem_of_mem_take hsignal)
  have hgiven : signalsAbout key (came.take i).flatten = (came.take i).flatten := by
    refine signalsAbout_eq_self fun signal hsignal => ?_
    obtain ⟨through, hthrough, hmem⟩ := List.mem_flatten.mp hsignal
    exact hkey signal (GateRow.mem_trace_fresh (List.mem_of_mem_take hthrough) hmem)
  rw [htold, hgiven]
  exact hall i

/-- The second round of a document brings nothing, since its slot is below what the first one
brought. -/
theorem GateRow.trace_fresh_of_one_document :
    let notes : DocumentKey := ⟨.uniform 7, "notes"⟩
    let signals : List Signal := [.found ⟨notes, 5, false, true⟩, .found ⟨notes, 6, true, false⟩,
      .round notes, .found ⟨notes, 4, false, true⟩, .round notes]
    let came := GateRow.trace [.fresh] signals
    came[2]? = some [.found ⟨notes, 5, false, true⟩, .round notes] ∧
      came[4]? = some [.round notes] := by
  intro notes signals came
  have hkey : ∀ signal ∈ signals, signal.key = notes := by decide
  have hrule := (GateRow.trace_fresh signals).2 notes hkey
  exact ⟨(hrule 2).trans (by decide), (hrule 4).trans (by decide)⟩

/-- News of one document comes through with the round of another, where nothing was due of that
other one; and then it keeps back a slot of the other one that was due. -/
theorem GateRow.trace_mixes_documents :
    let notes : DocumentKey := ⟨.uniform 7, "notes"⟩
    let plans : DocumentKey := ⟨.uniform 7, "plans"⟩
    let signals : List Signal := [.found ⟨notes, 5, false, true⟩, .round plans,
      .found ⟨plans, 3, false, true⟩, .round plans]
    let came := GateRow.trace [.fresh] signals
    let rule := fun i => signals[i]?.map (forwardedOf (signalsAbout plans (signals.take i))
      (signalsAbout plans (came.take i).flatten))
    came[1]? = some [.found ⟨notes, 5, false, true⟩, .round plans] ∧
      rule 1 = some [.round plans] ∧
      came[3]? = some [.round plans] ∧
      rule 3 = some [.found ⟨plans, 3, false, true⟩, .round plans] := by
  decide

end EditionWatch
