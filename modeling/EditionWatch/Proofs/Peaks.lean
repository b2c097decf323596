import EditionWatch.Proofs.Moves
import EditionWatch.Proofs.News

/-!
# Slots are peaks

Editions are given to the records in any order and by many hands: as slots, or as known good.
The slot of a document is the greatest edition it was ever given, its known good edition the
greatest it was given as known good, and nothing else about the history matters. Whoever gives
an edition learns whether it was greater than all before it, and the tally counts how often
that was so.
-/

namespace EditionWatch

instance : Std.LawfulOrderMax Edition where
  max_le_iff a b c := by
    have hmax : max a b = if a ≤ b then b else a := rfl
    rw [hmax]
    split
    case isTrue h => exact ⟨fun hb => ⟨UInt64.le_trans h hb, hb⟩, fun hab => hab.2⟩
    case isFalse h =>
      have hle : b ≤ a := (UInt64.le_total a b).resolve_left h
      exact ⟨fun ha => ⟨ha, UInt64.le_trans hle ha⟩, fun hab => hab.1⟩
  max_eq_or a b := by
    have hmax : max a b = if a ≤ b then b else a := rfl
    rw [hmax]
    split
    case isTrue => exact .inr rfl
    case isFalse => exact .inl rfl

/-- The newest known edition after one more was given. -/
def raised (known : Option Edition) (e : Edition) : Option Edition :=
  if isAbove e known then some e else known

/-! ## The order of slots -/

theorem slot_le_refl (slot : Option Edition) : slot ≤ slot := by
  cases slot with
  | none => exact Option.none_le
  | some e => exact Option.some_le_some.mpr (UInt64.le_refl e)

theorem slot_le_trans {first second third : Option Edition} (h : first ≤ second)
    (h' : second ≤ third) : first ≤ third := by
  cases first with
  | none => exact Option.none_le
  | some a =>
    cases second with
    | none => exact absurd h Option.not_some_le_none
    | some b =>
      cases third with
      | none => exact absurd h' Option.not_some_le_none
      | some c =>
        exact Option.some_le_some.mpr
          (UInt64.le_trans (Option.some_le_some.mp h) (Option.some_le_some.mp h'))

/-- An edition above the newest known one is not below it. -/
theorem not_some_le_of_isAbove {known : Option Edition} {e : Edition} (h : isAbove e known = true) :
    ¬some e ≤ known := by
  intro hle
  cases known with
  | none => exact Option.not_some_le_none hle
  | some old =>
    exact UInt64.not_le.mpr (Frontier.lt_of_isAbove h) (Option.some_le_some.mp hle)

/-- What is above a newer edition is above an older one. -/
theorem isAbove_of_le {e : Edition} {older newer : Option Edition} (h : older ≤ newer)
    (above : isAbove e newer = true) : isAbove e older = true := by
  cases older with
  | none => rfl
  | some a =>
    cases newer with
    | none => exact absurd h Option.not_some_le_none
    | some b =>
      have hle : a ≤ b := Option.some_le_some.mp h
      exact decide_eq_true (UInt64.lt_of_le_of_lt hle (Frontier.lt_of_isAbove above))

/-- An edition that is not above the newest known one raises nothing. -/
theorem raised_of_not_isAbove {known : Option Edition} {e : Edition}
    (h : isAbove e known = false) : raised known e = known := by
  rw [raised, h]
  exact if_neg Bool.false_ne_true

/-- An edition above the newest known one takes its place. -/
theorem raised_of_isAbove {known : Option Edition} {e : Edition} (h : isAbove e known = true) :
    raised known e = some e := if_pos h

/-- To raise the newest known edition never lowers it. -/
theorem le_raised (slot : Option Edition) (e : Edition) : slot ≤ raised slot e := by
  cases slot with
  | none => exact Option.none_le
  | some old =>
    cases habove : isAbove e (some old) with
    | false =>
      rw [raised_of_not_isAbove habove]
      exact slot_le_refl (some old)
    | true =>
      rw [raised_of_isAbove habove]
      exact Option.some_le_some.mpr (UInt64.le_of_lt (Frontier.lt_of_isAbove habove))

/-- What raises the newest known edition is not above the result. -/
theorem some_le_raised (slot : Option Edition) (e : Edition) : some e ≤ raised slot e := by
  cases habove : isAbove e slot with
  | true =>
    rw [raised_of_isAbove habove]
    exact slot_le_refl (some e)
  | false =>
    rw [raised_of_not_isAbove habove]
    cases slot with
    | none => cases habove
    | some old => exact Option.some_le_some.mpr (UInt64.not_lt.mp (of_decide_eq_false habove))

/-- What is above a slot is not below it. -/
theorem le_of_isAbove {slot : Option Edition} {e : Edition} (above : isAbove e slot = true) :
    slot ≤ some e := by
  rw [← raised_of_isAbove above]
  exact le_raised slot e

/-- The greater slot stays the greater one when both are raised by the same edition. -/
theorem raised_le_raised {lower upper : Option Edition} (h : lower ≤ upper) (e : Edition) :
    raised lower e ≤ raised upper e := by
  cases habove : isAbove e lower with
  | false =>
    rw [raised_of_not_isAbove habove]
    exact slot_le_trans h (le_raised upper e)
  | true =>
    rw [raised_of_isAbove habove]
    exact some_le_raised upper e

/-! ## The greatest of a list -/

/-- An edition is above the greatest of a list if it is above all of them. -/
theorem isAbove_max?_iff {e : Edition} {given : List Edition} :
    isAbove e given.max? = true ↔ ∀ old ∈ given, old < e := by
  cases hm : given.max? with
  | none =>
    have hnil : given = [] := List.max?_eq_none_iff.mp hm
    simp [hnil, isAbove]
  | some top =>
    obtain ⟨hin, htop⟩ := List.max?_eq_some_iff.mp hm
    constructor
    · intro h old hold
      exact UInt64.lt_of_le_of_lt (htop old hold) (Frontier.lt_of_isAbove h)
    · intro h
      exact decide_eq_true (h top hin)

/-- The greatest of several editions and one more is the greatest raised by that one. -/
theorem max?_concat (given : List Edition) (e : Edition) :
    (given ++ [e]).max? = raised given.max? e := by
  cases hm : given.max? with
  | none =>
    have hnil : given = [] := List.max?_eq_none_iff.mp hm
    subst hnil
    rfl
  | some top =>
    obtain ⟨hin, htop⟩ := List.max?_eq_some_iff.mp hm
    have hraised : raised (some top) e = some (if top < e then e else top) := by
      by_cases h : top < e <;> simp [raised, isAbove, h]
    rw [hraised, List.max?_eq_some_iff]
    split
    case isTrue h =>
      refine ⟨by simp, fun old hold => ?_⟩
      rcases List.mem_append.mp hold with hold | hold
      · exact UInt64.le_of_lt (UInt64.lt_of_le_of_lt (htop old hold) h)
      · exact UInt64.le_of_eq (List.mem_singleton.mp hold)
    case isFalse h =>
      refine ⟨List.mem_append_left _ hin, fun old hold => ?_⟩
      rcases List.mem_append.mp hold with hold | hold
      · exact htop old hold
      · rw [List.mem_singleton.mp hold]
        exact UInt64.not_lt.mp h

/-- The greatest of a list does not depend on its order. -/
theorem max?_of_perm {given other : List Edition} (h : given.Perm other) :
    given.max? = other.max? := by
  cases hm : other.max? with
  | none =>
    have hnil : other = [] := List.max?_eq_none_iff.mp hm
    subst hnil
    rw [h.eq_nil]
    rfl
  | some top =>
    obtain ⟨hin, htop⟩ := List.max?_eq_some_iff.mp hm
    exact List.max?_eq_some_iff.mpr
      ⟨h.mem_iff.mpr hin, fun old hold => htop old (h.mem_iff.mp hold)⟩

/-- More editions have no smaller greatest one. -/
theorem le_max?_of_subset {given more : List Edition} (h : given ⊆ more) {top : Edition}
    (ht : given.max? = some top) : ∃ newer, more.max? = some newer ∧ top ≤ newer := by
  have hin : top ∈ more := h (List.max?_eq_some_iff.mp ht).1
  cases hm : more.max? with
  | none =>
    rw [List.max?_eq_none_iff.mp hm] at hin
    cases hin
  | some newer => exact ⟨newer, rfl, (List.max?_eq_some_iff.mp hm).2 top hin⟩

namespace Records

variable {r : Records} {key : DocumentKey}

/-! ## What is given -/

/-- The edition of a document that a change gives, be it as a slot or as known good. -/
def Change.given? (key : DocumentKey) : Change → Option Edition
  | .noteSlot _ uri => if uri.key = key then some uri.edition else none
  | .noteGood _ uri => if uri.key = key then some uri.edition else none
  | _ => none

/-- The edition of a document that a change gives as known good. -/
def Change.givenGood? (key : DocumentKey) : Change → Option Edition
  | .noteGood _ uri => if uri.key = key then some uri.edition else none
  | _ => none

/-- The editions of a document that a history gives, in order. -/
def given (key : DocumentKey) (history : List Change) : List Edition :=
  history.filterMap (Change.given? key)

/-- The editions of a document that a history gives as known good, in order. -/
def givenGood (key : DocumentKey) (history : List Change) : List Edition :=
  history.filterMap (Change.givenGood? key)

/-- What is known good is known to exist. -/
theorem givenGood_subset (key : DocumentKey) (history : List Change) :
    givenGood key history ⊆ given key history := by
  intro e he
  obtain ⟨change, hin, hgood⟩ := List.mem_filterMap.mp he
  refine List.mem_filterMap.mpr ⟨change, hin, ?_⟩
  cases change with
  | noteGood now uri => exact hgood
  | _ => cases hgood

/-- Whether a change gives an edition. -/
def Change.isUpdate : Change → Bool
  | .noteSlot _ _ => true
  | .noteGood _ _ => true
  | _ => false

/-- Only updates give editions, so all other changes can be left out. -/
theorem filterMap_updates {g : Change → Option Edition}
    (h : ∀ change, change.isUpdate = false → g change = none) (history : List Change) :
    (history.filter Change.isUpdate).filterMap g = history.filterMap g := by
  rw [List.filterMap_filter]
  refine congrArg (List.filterMap · history) (funext fun change => ?_)
  cases hu : change.isUpdate with
  | true => rfl
  | false => exact (h change hu).symm

/-- What a history gave is seen from its updates alone. -/
theorem given_updates (key : DocumentKey) (history : List Change) :
    given key (history.filter Change.isUpdate) = given key history := by
  refine filterMap_updates (fun change h => ?_) history
  cases change with
  | noteSlot now uri => cases h
  | noteGood now uri => cases h
  | _ => rfl

theorem givenGood_updates (key : DocumentKey) (history : List Change) :
    givenGood key (history.filter Change.isUpdate) = givenGood key history := by
  refine filterMap_updates (fun change h => ?_) history
  cases change with
  | noteGood now uri => cases h
  | _ => rfl

/-- What whoever gives an edition learns: which of the two newest editions it raised. -/
structure Rise where
  /-- Whether the slot rose. -/
  slot : Bool
  /-- Whether the known good edition rose. -/
  good : Bool
  deriving DecidableEq

/-- What a change raises. -/
def rise (r : Records) : Change → Rise
  | .noteSlot _ uri => ⟨((r.frontier uri.key).raiseSlot? uri.edition).isSome, false⟩
  | .noteGood _ uri =>
    match (r.frontier uri.key).raiseGood? uri.edition with
    | none => ⟨false, false⟩
    | some rise => ⟨rise.slotRose, true⟩
  | _ => ⟨false, false⟩

/-- What the changes of a history raise, one after the other. -/
def rises (r : Records) : List Change → List Rise
  | [] => []
  | change :: rest => r.rise change :: (r.apply change).rises rest

/-! ## One change -/

/-- To announce an edition raises no frontier. -/
theorem frontier_announce (r : Records) (found : Found) (key : DocumentKey) :
    (r.announce found).frontier key = r.frontier key := rfl

/-- To note a slot raises the slot of its document. -/
theorem frontier_noteSlot (r : Records) (now : Instant) (uri : EditionUri) (key : DocumentKey) :
    (r.noteSlot now uri).frontier key =
      if uri.key = key then
        ⟨raised (r.frontier key).slot uri.edition, (r.frontier key).good⟩
      else r.frontier key := by
  unfold noteSlot Frontier.raiseSlot?
  cases ha : isAbove uri.edition (r.frontier uri.key).slot with
  | false =>
    by_cases hk : uri.key = key
    · subst hk
      simp [raised, ha]
    · rw [if_neg hk]
      rfl
  | true =>
    change (r.setFrontier uri.key _).frontier key = _
    rw [frontier_setFrontier]
    split
    case isTrue hk =>
      subst hk
      simp [raised, ha]
    case isFalse => rfl

/-- An edition that is not above what is known good is not above the slot. -/
theorem raised_slot_of_sound {f : Frontier} (hf : f.Sound) {e : Edition}
    (h : isAbove e f.good = false) : isAbove e f.slot = false := by
  cases hg : f.good with
  | none =>
    rw [hg] at h
    cases h
  | some good =>
    obtain ⟨slot, hslot, hle⟩ := hf good hg
    rw [hg, isAbove, decide_eq_false_iff_not, UInt64.not_lt] at h
    rw [hslot, isAbove, decide_eq_false_iff_not, UInt64.not_lt]
    exact UInt64.le_trans h hle

/-- To note a known good edition raises both the known good edition and the slot. -/
theorem frontier_noteGood (hf : ∀ key, (r.frontier key).Sound) (now : Instant)
    (uri : EditionUri) (key : DocumentKey) :
    (r.noteGood now uri).frontier key =
      if uri.key = key then
        ⟨raised (r.frontier key).slot uri.edition, raised (r.frontier key).good uri.edition⟩
      else r.frontier key := by
  unfold noteGood Frontier.raiseGood?
  cases ha : isAbove uri.edition (r.frontier uri.key).good with
  | false =>
    by_cases hk : uri.key = key
    · subst hk
      have hs := raised_slot_of_sound (hf uri.key) ha
      simp [raised, ha, hs]
    · rw [if_neg hk]
      rfl
  | true =>
    dsimp only
    have hset (rose : Bool) (f : Frontier) (found : Found) :
        ((if rose = true then
            ((r.setFrontier uri.key f).countGood).slotRose now uri.key
          else (r.setFrontier uri.key f).countGood).announce found).frontier key =
          if uri.key = key then f else r.frontier key := by
      cases rose <;> exact frontier_setFrontier r uri.key key f
    refine (hset _ _ _).trans ?_
    split
    case isTrue hk =>
      subst hk
      simp [raised, ha]
    case isFalse => rfl

/-- Changes that give no edition leave all frontiers as they are. -/
theorem frontiers_apply_of_not_given (r : Records) {change : Change}
    (h : ∀ key, change.given? key = none) : (r.apply change).frontiers = r.frontiers := by
  cases change with
  | noteSlot now uri =>
    have hself := h uri.key
    simp [Change.given?] at hself
  | noteGood now uri =>
    have hself := h uri.key
    simp [Change.given?] at hself
  | subscribe key callback requested polls =>
    cases polls with
    | false => exact frontiers_register r key callback requested
    | true =>
      have hcover := (keepsNews_cover (r.register key callback requested) key callback).frontiers
      exact hcover.trans (frontiers_register r key callback requested)
  | resolve now key prefetch => exact (keepsNews_resolve r now key prefetch).frontiers
  | removePoller key poller cancelled =>
    exact (keepsNews_removePoller r key poller cancelled).frontiers
  | takeDelivery =>
    simp only [apply, takeDelivery?]
    cases r.queue.pop? <;> rfl
  | countVerdict verdict => cases verdict <;> rfl
  | _ => rfl

/-- An edition that may have been given raises the newest known one. -/
def raisedBy (known given : Option Edition) : Option Edition := given.elim known (raised known)

/-- What may have been given never lowers the newest known edition. -/
theorem le_raisedBy (known given : Option Edition) : known ≤ raisedBy known given := by
  cases given with
  | none => exact slot_le_refl known
  | some e => exact le_raised known e

/-- A change raises the frontier of each document by what it gives. -/
theorem frontier_apply (hf : ∀ key, (r.frontier key).Sound) (change : Change)
    (key : DocumentKey) :
    (r.apply change).frontier key =
      ⟨raisedBy (r.frontier key).slot (change.given? key),
        raisedBy (r.frontier key).good (change.givenGood? key)⟩ := by
  have hsame (hn : ∀ key, change.given? key = none)
      (hg : change.givenGood? key = none) :
      (r.apply change).frontier key =
        ⟨raisedBy (r.frontier key).slot (change.given? key),
          raisedBy (r.frontier key).good (change.givenGood? key)⟩ := by
    rw [hn key, hg]
    exact congrArg (·.of key) (frontiers_apply_of_not_given r hn)
  cases change with
  | noteSlot now uri =>
    change (r.noteSlot now uri).frontier key = _
    rw [frontier_noteSlot]
    by_cases hk : uri.key = key <;> simp [Change.given?, Change.givenGood?, raisedBy, hk]
  | noteGood now uri =>
    change (r.noteGood now uri).frontier key = _
    rw [frontier_noteGood hf]
    by_cases hk : uri.key = key <;> simp [Change.given?, Change.givenGood?, raisedBy, hk]
  | _ => exact hsame (fun _ => rfl) rfl

/-- A change counts in the tally what it raises. A violation is counted only for a poller that
says it was not cancelled. -/
theorem tally_apply (r : Records) (change : Change) :
    (r.apply change).tally.slotUpdates =
        r.tally.slotUpdates + (r.rise change).slot.toNat ∧
      (r.apply change).tally.knownGoodUpdates =
        r.tally.knownGoodUpdates + (r.rise change).good.toNat ∧
      ((∀ key poller, change ≠ .removePoller key poller false) →
        (r.apply change).tally.invariantViolations = r.tally.invariantViolations) := by
  cases change with
  | noteSlot now uri =>
    simp only [apply, noteSlot, rise]
    cases (r.frontier uri.key).raiseSlot? uri.edition <;> exact ⟨rfl, rfl, fun _ => rfl⟩
  | noteGood now uri =>
    simp only [apply, noteGood, rise]
    cases (r.frontier uri.key).raiseGood? uri.edition with
    | none => exact ⟨rfl, rfl, fun _ => rfl⟩
    | some rise =>
      cases hrose : rise.slotRose <;> simp only [hrose] <;> exact ⟨rfl, rfl, fun _ => rfl⟩
  | subscribe key callback requested polls =>
    have hregister :
        (r.register key callback requested).tally.slotUpdates = r.tally.slotUpdates ∧
        (r.register key callback requested).tally.knownGoodUpdates =
          r.tally.knownGoodUpdates ∧
        (r.register key callback requested).tally.invariantViolations =
          r.tally.invariantViolations := by
      unfold register
      dsimp only
      cases (r.enrol key callback requested).standing key <;> exact ⟨rfl, rfl, rfl⟩
    obtain ⟨hslot, hgood, hviolations⟩ := hregister
    cases polls with
    | false => exact ⟨hslot, hgood, fun _ => hviolations⟩
    | true =>
      simp only [apply, if_true, cover]
      cases (r.register key callback requested).coverage key <;>
        exact ⟨hslot, hgood, fun _ => hviolations⟩
  | resolve now key prefetch =>
    simp only [apply, resolve]
    cases r.pool.poller? key <;> cases r.cache.poller? key <;> cases prefetch <;>
      exact ⟨rfl, rfl, fun _ => rfl⟩
  | removePoller key poller cancelled =>
    simp only [apply, removePoller]
    cases cancelled with
    | true =>
      split
      · exact ⟨rfl, rfl, fun _ => rfl⟩
      · split <;> exact ⟨rfl, rfl, fun _ => rfl⟩
    | false =>
      split
      · exact ⟨rfl, rfl, fun h => absurd rfl (h key poller)⟩
      · split <;> exact ⟨rfl, rfl, fun h => absurd rfl (h key poller)⟩
  | takeDelivery =>
    simp only [apply, takeDelivery?]
    cases r.queue.pop? <;> exact ⟨rfl, rfl, fun _ => rfl⟩
  | countVerdict verdict => cases verdict <;> exact ⟨rfl, rfl, fun _ => rfl⟩
  | _ => exact ⟨rfl, rfl, fun _ => rfl⟩

/-! ## Histories -/

theorem given_append (key : DocumentKey) (earlier later : List Change) :
    given key (earlier ++ later) = given key earlier ++ given key later := List.filterMap_append

theorem givenGood_append (key : DocumentKey) (earlier later : List Change) :
    givenGood key (earlier ++ later) = givenGood key earlier ++ givenGood key later :=
  List.filterMap_append

/-- The frontier of a document is what a history gave of it. -/
def Peaks (r : Records) (history : List Change) : Prop :=
  ∀ key, r.frontier key = ⟨(given key history).max?, (givenGood key history).max?⟩

namespace Peaks

variable {history : List Change}

/-- The first frontier is that of an empty history. -/
theorem initial (capacity : Nat) : Peaks (initial capacity) [] := fun _ => rfl

/-- A frontier that is what a history gave is sound, as what is good was given as a slot, too. -/
theorem sound (h : Peaks r history) (key : DocumentKey) : (r.frontier key).Sound := by
  intro good hgood
  rw [h key] at hgood ⊢
  exact le_max?_of_subset (givenGood_subset key history) hgood

/-- The greatest of a list and perhaps one more edition. -/
theorem max?_append_toList (l : List Edition) (more : Option Edition) :
    (l ++ more.toList).max? = raisedBy l.max? more := by
  cases more with
  | none => rw [Option.toList_none, List.append_nil]; rfl
  | some e => exact max?_concat l e

/-- A change raises the frontier to what the longer history gave. -/
theorem apply (h : Peaks r history) (change : Change) :
    Peaks (r.apply change) (history ++ [change]) := by
  intro key
  have hgiven : given key [change] = (change.given? key).toList := by
    rw [given, List.filterMap_cons]
    cases change.given? key <;> rfl
  have hgood : givenGood key [change] = (change.givenGood? key).toList := by
    rw [givenGood, List.filterMap_cons]
    cases change.givenGood? key <;> rfl
  rw [frontier_apply h.sound, given_append, givenGood_append, hgiven, hgood, h key,
    max?_append_toList, max?_append_toList]

/-- A history raises the frontier to what the longer history gave. -/
theorem run (h : Peaks r history) (later : List Change) :
    Peaks (r.run later) (history ++ later) := by
  induction later generalizing r history with
  | nil =>
    rw [List.append_nil]
    exact h
  | cons change rest ih =>
    have hrest := ih (h.apply change)
    rw [List.append_assoc] at hrest
    exact hrest

/-- An update raises the slot, or the known good edition, if its edition is above all that
were given before. -/
theorem rise_iff (h : Peaks r history) (now : Instant) (uri : EditionUri) :
    ((r.rise (.noteSlot now uri)).slot = true ↔
        ∀ old ∈ given uri.key history, old < uri.edition) ∧
      ((r.rise (.noteGood now uri)).slot = true ↔
        ∀ old ∈ given uri.key history, old < uri.edition) ∧
      ((r.rise (.noteGood now uri)).good = true ↔
        ∀ old ∈ givenGood uri.key history, old < uri.edition) := by
  have hslot : (r.frontier uri.key).slot = (given uri.key history).max? := by rw [h uri.key]
  have hgood : (r.frontier uri.key).good = (givenGood uri.key history).max? := by rw [h uri.key]
  rw [← isAbove_max?_iff, ← isAbove_max?_iff, ← hslot, ← hgood]
  have hsound := raised_slot_of_sound (h.sound uri.key) (e := uri.edition)
  simp only [rise, Frontier.raiseSlot?, Frontier.raiseGood?]
  cases hg : isAbove uri.edition (r.frontier uri.key).good with
  | false => simp [hsound hg]
  | true => cases hs : isAbove uri.edition (r.frontier uri.key).slot <;> simp

end Peaks

/-- Updates are counted as often as something rose. -/
theorem updates_run (r : Records) (history : List Change) :
    (r.run history).tally.slotUpdates =
        r.tally.slotUpdates + (r.rises history).countP (·.slot) ∧
      (r.run history).tally.knownGoodUpdates =
        r.tally.knownGoodUpdates + (r.rises history).countP (·.good) := by
  induction history generalizing r with
  | nil => exact ⟨rfl, rfl⟩
  | cons change rest ih =>
    obtain ⟨hslot, hgood, -⟩ := tally_apply r change
    obtain ⟨hslots, hgoods⟩ := ih (r.apply change)
    have hcount (p : Rise → Bool) : (r.rises (change :: rest)).countP p =
        ((r.apply change).rises rest).countP p + (p (r.rise change)).toNat := by
      rw [rises, List.countP_cons]
      cases p (r.rise change) <;> rfl
    rw [run_cons, hcount, hcount]
    constructor <;> omega

end Records

namespace Watch

/-! ## Runs -/

/-- The update that an action of the owner comes down to. -/
def Action.update? (now : Instant) : Action → Option Records.Change
  | .noteSlot uri => some (.noteSlot now uri)
  | .noteGood uri => some (.noteGood now uri)
  | .noteFetched uri metadata => some (if metadata then .noteSlot now uri else .noteGood now uri)
  | _ => none

/-- A history recounts what actions do to the records, one after the other; what the owner
gives is given once, and nothing else along with it. -/
def Recounts (w : Watch) : List Action → List Records.Change → Prop
  | [], history => history = []
  | action :: rest, history =>
    ∃ earlier later, history = earlier ++ later ∧
      (w.act action).records = w.records.run earlier ∧
      (w.held = true → ∀ update, action.update? w.now = some update →
        earlier.filter Records.Change.isUpdate = [update]) ∧
      (w.act action).Recounts rest later

/-- To submit the delivery job claims the queue at most. -/
theorem records_flush (w : Watch) :
    w.flush.records = w.records ∨ w.flush.records = w.records.apply .claimQueue := by
  unfold flush submitJob
  split
  · split <;> exact .inr rfl
  · exact .inl rfl

/-- To submit the delivery job raises no frontier. -/
theorem frontier_flush (w : Watch) (key : DocumentKey) :
    w.flush.records.frontier key = w.records.frontier key := by
  rcases records_flush w with hr | hr
  · rw [hr]
  · rw [hr]
    rfl

/-- An update by the owner is one change of the records, and perhaps a job is asked for. -/
theorem records_flush_of_update (w : Watch) (update : Records.Change)
    (is : update.isUpdate = true) :
    ∃ changes, Watch.records (flush { w with records := w.records.apply update }) =
        w.records.run changes ∧ changes.filter Records.Change.isUpdate = [update] := by
  rcases records_flush { w with records := w.records.apply update } with hf | hf
  · exact ⟨[update], hf, by simp [is]⟩
  · refine ⟨[update, .claimQueue], hf, ?_⟩
    rw [List.filter_cons_of_pos is]
    rfl

/-- An update that the owner calls for is the only one of its action. -/
theorem records_act_of_update {w : Watch} (held : w.held = true) {action : Action}
    {update : Records.Change} (is : action.update? w.now = some update) :
    ∃ changes, (w.act action).records = w.records.run changes ∧
      changes.filter Records.Change.isUpdate = [update] := by
  rw [act_of_held held]
  cases action with
  | noteSlot uri =>
    cases is
    exact records_flush_of_update w (.noteSlot w.now uri) rfl
  | noteGood uri =>
    cases is
    exact records_flush_of_update w (.noteGood w.now uri) rfl
  | noteFetched uri metadata =>
    cases is
    cases metadata with
    | true => exact records_flush_of_update w (.noteSlot w.now uri) rfl
    | false => exact records_flush_of_update w (.noteGood w.now uri) rfl
  | _ => cases is

/-- Every run has a history that recounts it. -/
theorem recounts_run (w : Watch) (actions : List Action) :
    ∃ history, w.Recounts actions history ∧ (w.run actions).records = w.records.run history := by
  induction actions generalizing w with
  | nil => exact ⟨[], rfl, rfl⟩
  | cons action rest ih =>
    obtain ⟨later, hrecounts, hlater⟩ := ih (w.act action)
    have hfirst : ∃ earlier, (w.act action).records = w.records.run earlier ∧
        (w.held = true → ∀ update, action.update? w.now = some update →
          earlier.filter Records.Change.isUpdate = [update]) := by
      cases hu : action.update? w.now with
      | none =>
        obtain ⟨earlier, hearlier, -⟩ := records_run w [action]
        exact ⟨earlier, hearlier, fun _ _ he => by cases he⟩
      | some update =>
        cases hheld : w.held with
        | false =>
          obtain ⟨earlier, hearlier, -⟩ := records_run w [action]
          exact ⟨earlier, hearlier, fun he => by cases he⟩
        | true =>
          obtain ⟨earlier, hearlier, hupdates⟩ := records_act_of_update hheld hu
          exact ⟨earlier, hearlier, fun _ other he => Option.some.inj he ▸ hupdates⟩
    obtain ⟨earlier, hearlier, hupdates⟩ := hfirst
    refine ⟨earlier ++ later, ⟨earlier, later, rfl, hearlier, hupdates, hrecounts⟩, ?_⟩
    rw [run_cons, hlater, hearlier, Records.run_append]

end Watch

namespace Records

/-- After every history, the slot of a document is the greatest edition that was given of it,
its known good edition the greatest that was given as known good. Whoever gives an edition
learns exactly whether it is above all before it, and the tally counts these. So the known
good edition is never above the slot, neither ever falls, and the order of the updates does
not matter. The records of a watch have such a history, whatever happens to the watch. -/
theorem peaks_exact (capacity : Nat) (history : List Change) :
    let r := (initial capacity).run history
    (∀ key, r.frontier key = ⟨(given key history).max?, (givenGood key history).max?⟩) ∧
    (∀ now uri,
      r.raisesSlot uri = (r.rise (.noteSlot now uri)).slot ∧
      ((r.rise (.noteSlot now uri)).slot = true ↔
        ∀ old ∈ given uri.key history, old < uri.edition) ∧
      ((r.rise (.noteGood now uri)).slot = true ↔
        ∀ old ∈ given uri.key history, old < uri.edition) ∧
      ((r.rise (.noteGood now uri)).good = true ↔
        ∀ old ∈ givenGood uri.key history, old < uri.edition)) ∧
    (r.tally.slotUpdates = ((initial capacity).rises history).countP (·.slot) ∧
      r.tally.knownGoodUpdates = ((initial capacity).rises history).countP (·.good)) ∧
    (∀ key good, (r.frontier key).good = some good →
      ∃ slot, (r.frontier key).slot = some slot ∧ good ≤ slot) ∧
    (∀ later key,
      (∀ slot, (r.frontier key).slot = some slot →
        ∃ newer, ((r.run later).frontier key).slot = some newer ∧ slot ≤ newer) ∧
      (∀ good, (r.frontier key).good = some good →
        ∃ newer, ((r.run later).frontier key).good = some newer ∧ good ≤ newer)) ∧
    (∀ other, (other.filter Change.isUpdate).Perm (history.filter Change.isUpdate) →
      ∀ key, ((initial capacity).run other).frontier key = r.frontier key) ∧
    (∀ settings listeners actions, ∃ recounted,
      (Watch.initial settings listeners).Recounts actions recounted ∧
        ((Watch.initial settings listeners).run actions).records =
          (initial settings.maxTemporary.toNat).run recounted) := by
  intro r
  have hpeaks (h : List Change) : Peaks ((initial capacity).run h) h :=
    (Peaks.initial capacity).run h
  have h : Peaks r history := hpeaks history
  obtain ⟨hslots, hgoods⟩ := updates_run (initial capacity) history
  refine ⟨h, fun now uri => ⟨?_, h.rise_iff now uri⟩, ⟨?_, ?_⟩, fun key => h.sound key,
    fun later key => ?_, fun other hperm key => ?_,
    fun settings listeners actions => Watch.recounts_run _ actions⟩
  · rw [raisesSlot, rise, Frontier.raiseSlot?]
    cases isAbove uri.edition (r.frontier uri.key).slot <;> rfl
  · rw [hslots]
    exact Nat.zero_add _
  · rw [hgoods]
    exact Nat.zero_add _
  · have hlater := h.run later key
    rw [hlater, h key, given_append, givenGood_append]
    constructor
    · intro slot hslot
      exact le_max?_of_subset (List.subset_append_left _ _) hslot
    · intro good hgood
      exact le_max?_of_subset (List.subset_append_left _ _) hgood
  · have hgiven : (given key other).Perm (given key history) := by
      rw [← given_updates key other, ← given_updates key history]
      exact hperm.filterMap _
    have hgood : (givenGood key other).Perm (givenGood key history) := by
      rw [← givenGood_updates key other, ← givenGood_updates key history]
      exact hperm.filterMap _
    rw [hpeaks other key, h key, max?_of_perm hgiven, max?_of_perm hgood]

example :
    let notes : DocumentKey := ⟨.uniform 7, "notes"⟩
    (initial 4).rises
        [.noteGood 0 ⟨notes, 0⟩, .noteSlot 1 ⟨notes, 6⟩, .noteGood 2 ⟨notes, 5⟩,
          .noteGood 3 ⟨notes, 5⟩] =
      [⟨true, true⟩, ⟨true, false⟩, ⟨false, true⟩, ⟨false, false⟩] := by decide

end Records

end EditionWatch
