import EditionWatch.Proofs.Effects
import EditionWatch.Proofs.Peaks
import Mathlib.Data.List.Induction

/-!
# Stalled slots are prefetched when they are due

The mark of a document is armed by lookups and by rising slots, goes off in sweeps, and is taken
away when the poller of the document is pushed out of the cache; slots and known good editions
rise meanwhile by many hands. What a sweep sends for is due all the same: the slot has stood, and
has not been confirmed, for the whole delay. No slot is sent for twice unless its document was
looked up in between, and none that is marked and stalled is forgotten. Two facts carry this. A
mark that is armed since some time was armed then, and the slot has stood ever since; and a mark
is idle over a stalled slot only if a sweep has sent for that slot.
-/

namespace EditionWatch

namespace PrefetchMarks

variable {marks : PrefetchMarks} {key : DocumentKey}

/-- When a slot rises, the mark of its document starts anew, if there is one. -/
theorem get?_slotRose (marks : PrefetchMarks) (key other : DocumentKey) (now : Instant) :
    KeyMap.get? (marks.slotRose key now) other =
      if key = other then (marks.get? other).map fun _ => .since now else marks.get? other := by
  unfold slotRose KeyMap.contains
  by_cases hk : key = other
  · subst hk
    cases hm : marks.get? key with
    | none => simp [hm]
    | some mark => simp
  · rw [if_neg hk]
    split
    · rw [KeyMap.get?_insert, if_neg hk]
    · rfl

/-- To arm a document leaves the marks of others. -/
theorem get?_arm_of_ne {other : DocumentKey} (marks : PrefetchMarks) (h : key ≠ other)
    (frontier : Frontier) (now : Instant) :
    KeyMap.get? (marks.arm key frontier now) other = marks.get? other := by
  unfold arm
  split
  · rfl
  · rw [KeyMap.get?_insert, if_neg h]

/-- A mark stays armed when it is armed again; else it depends on the slot. -/
theorem get?_arm (marks : PrefetchMarks) (key : DocumentKey) (frontier : Frontier)
    (now : Instant) :
    (∃ start, marks.get? key = some (.since start) ∧ marks.arm key frontier now = marks) ∨
      KeyMap.get? (marks.arm key frontier now) key =
        some (if frontier.isStalled then .since now else .idle) := by
  unfold arm
  split
  case h_1 start h => exact .inl ⟨start, h, rfl⟩
  case h_2 => exact .inr (KeyMap.get?_insert_self _ _ _)

/-- A sweep settles the marks that have been armed for long enough. -/
theorem get?_settle (marks : PrefetchMarks) (now : Instant) (delay : Nat) (key : DocumentKey) :
    KeyMap.get? (marks.settle now delay) key =
      (marks.get? key).map fun mark => if isOver now delay mark then .idle else mark :=
  KeyMap.get?_mapValues marks _ key

/-- What is due: the slots that are stalled and whose mark has been armed for the delay. -/
theorem mem_due_iff (marks : PrefetchMarks) (fs : Frontiers) (now : Instant) (delay : Nat)
    (uri : EditionUri) :
    uri ∈ marks.due fs now delay ↔
      ∃ start, marks.get? uri.key = some (.since start) ∧ start + delay ≤ now ∧
        (fs.of uri.key).slot = some uri.edition ∧ isAbove uri.edition (fs.of uri.key).good := by
  unfold due
  rw [List.mem_filterMap]
  constructor
  · rintro ⟨⟨other, mark⟩, hm, h⟩
    have hget := (KeyMap.mem_entries_iff marks other mark).mp hm
    dsimp only at h
    split at h
    case isFalse => cases h
    case isTrue hdue =>
      rw [Bool.and_eq_true] at hdue
      obtain ⟨slot, hslot, rfl⟩ := Option.map_eq_some_iff.mp h
      have habove := hdue.2
      rw [Frontier.isStalled, hslot] at habove
      cases mark with
      | idle => cases hdue.1
      | since start => exact ⟨start, hget, of_decide_eq_true hdue.1, hslot, habove⟩
  · rintro ⟨start, hget, hover, hslot, habove⟩
    refine ⟨(uri.key, .since start), (KeyMap.mem_entries_iff _ _ _).mpr hget, ?_⟩
    have hover : isOver now delay (.since start) = true := decide_eq_true hover
    simp [hover, Frontier.isStalled, hslot, habove]

end PrefetchMarks

namespace Records

variable {r : Records} {key : DocumentKey} {change : Change}

/-! ## What a change does to marks -/

/-- Changes that do not tell the time leave all marks as they are. -/
theorem marks_apply_of_timeless (r : Records) (h : change.time? = none) :
    (r.apply change).marks = r.marks := by
  have hregister (key : DocumentKey) (callback : CallbackId) (requested : Edition) :
      (r.register key callback requested).marks = r.marks := by
    unfold register
    dsimp only
    cases (r.enrol key callback requested).standing key <;> rfl
  cases change with
  | subscribe key callback requested polls =>
    cases polls with
    | false => exact hregister key callback requested
    | true =>
      refine Eq.trans ?_ (hregister key callback requested)
      simp only [apply, if_true, cover]
      cases (r.register key callback requested).coverage key <;> rfl
  | removePoller key poller cancelled =>
    simp only [apply, removePoller]
    split
    · cases cancelled <;> rfl
    · split
      · cases cancelled <;> rfl
      · rfl
  | takeDelivery =>
    simp only [apply, takeDelivery?]
    cases r.queue.pop? <;> rfl
  | countVerdict verdict => cases verdict <;> rfl
  | noteSlot now uri => cases h
  | noteGood now uri => cases h
  | resolve now key prefetch => cases h
  | sweep now delay => cases h
  | _ => rfl

/-- A slot that is noted starts the mark of its document if it rises. -/
theorem marks_noteSlot (r : Records) (now : Instant) (uri : EditionUri) :
    (r.noteSlot now uri).marks =
      if isAbove uri.edition (r.frontier uri.key).slot then r.marks.slotRose uri.key now
      else r.marks := by
  unfold noteSlot Frontier.raiseSlot?
  cases isAbove uri.edition (r.frontier uri.key).slot <;> rfl

/-- An edition that is known good arms a mark only if it raises the slot as well. -/
theorem marks_noteGood (sound : (r.frontier key).Sound) (now : Instant) (e : Edition) :
    (r.noteGood now ⟨key, e⟩).marks =
      if isAbove e (r.frontier key).slot then r.marks.slotRose key now else r.marks := by
  unfold noteGood Frontier.raiseGood?
  cases hg : isAbove e (r.frontier key).good with
  | false =>
    have hs : isAbove e (r.frontier key).slot = false := raised_slot_of_sound sound hg
    rw [hs]
    rfl
  | true => cases isAbove e (r.frontier key).slot <;> rfl

/-- A lookup takes away the mark of the document whose poller it pushes out, and then it marks
the document if it is with prefetching. -/
theorem marks_resolve (r : Records) (now : Instant) (key : DocumentKey) (prefetch : Bool) :
    ∃ marks : PrefetchMarks,
      (∀ other, marks.get? other = r.marks.get? other ∨ marks.get? other = none) ∧
      (r.apply (.resolve now key prefetch)).marks =
        if prefetch then marks.arm key (r.frontier key) now else marks := by
  have hsame : ∀ other, r.marks.get? other = r.marks.get? other ∨ r.marks.get? other = none :=
    fun _ => .inl rfl
  simp only [apply, resolve]
  cases r.pool.poller? key with
  | some _ => exact ⟨r.marks, hsame, by cases prefetch <;> rfl⟩
  | none =>
    cases r.cache.poller? key with
    | some _ => exact ⟨r.marks, hsame, by cases prefetch <;> rfl⟩
    | none =>
      refine ⟨(r.makeTemporary key).marks, fun other => ?_, by cases prefetch <;> rfl⟩
      unfold makeTemporary
      dsimp only
      cases (r.cache.insert key r.pollersMade).evicted with
      | none => exact .inl rfl
      | some out =>
        rw [KeyMap.get?_erase]
        split
        · exact .inr rfl
        · exact .inl rfl

/-- After a lookup, a document has the mark that it had, or it is the one that was looked up. -/
theorem get?_marks_resolve {now : Instant} {other : DocumentKey} {prefetch : Bool}
    {mark : PrefetchMark}
    (h : (r.apply (.resolve now key prefetch)).marks.get? other = some mark) :
    r.marks.get? other = some mark ∨
      (key = other ∧ prefetch = true ∧
        mark = if (r.frontier key).isStalled then .since now else .idle) := by
  obtain ⟨marks, hkept, hmarks⟩ := marks_resolve r now key prefetch
  have hbefore (hm : marks.get? other = some mark) : r.marks.get? other = some mark := by
    rcases hkept other with hk | hk
    · rw [← hk, hm]
    · rw [hm] at hk
      cases hk
  rw [hmarks] at h
  cases prefetch with
  | false => exact .inl (hbefore h)
  | true =>
    rw [if_pos rfl] at h
    by_cases hk : key = other
    · subst hk
      rcases marks.get?_arm key (r.frontier key) now with ⟨_, -, harm⟩ | harm
      · rw [harm] at h
        exact .inl (hbefore h)
      · rw [harm] at h
        exact .inr ⟨rfl, rfl, (Option.some.inj h).symm⟩
    · rw [PrefetchMarks.get?_arm_of_ne marks hk] at h
      exact .inl (hbefore h)

/-- What a change may have done to the mark of a document that is marked after it. -/
inductive Marks (r : Records) (change : Change) (key : DocumentKey) : PrefetchMark → Prop where
  /-- The mark is as it was, and so is the slot. -/
  | keeps (mark : PrefetchMark) (before : r.marks.get? key = some mark)
      (slot : ((r.apply change).frontier key).slot = (r.frontier key).slot) :
      Marks r change key mark
  /-- The mark was armed, by a lookup with prefetching or because the slot rose. -/
  | arms (now : Instant) (time : change.time? = some now)
      (cause : change = .resolve now key true ∨
        ∃ e, ((r.apply change).frontier key).slot = some e ∧
          isAbove e (r.frontier key).slot = true) :
      Marks r change key (.since now)
  /-- The document was marked, and its slot is not stalled. -/
  | idles (same : (r.apply change).frontier key = r.frontier key)
      (unstalled : (r.frontier key).isStalled = false) : Marks r change key .idle
  /-- The mark went off in a sweep. -/
  | goesOff (now : Instant) (delay : Nat) (start : Instant) (sweep : change = .sweep now delay)
      (armed : r.marks.get? key = some (.since start)) (elapsed : start + delay ≤ now) :
      Marks r change key .idle

/-- What an edition that is given to a document does to its slot. -/
theorem slot_apply (sound : ∀ key, (r.frontier key).Sound) (change : Change) (key : DocumentKey) :
    ((r.apply change).frontier key).slot =
      raisedBy (r.frontier key).slot (change.given? key) :=
  congrArg Frontier.slot (frontier_apply sound change key)

/-- An edition that is given leaves the mark, or starts it with a slot that rose. -/
theorem marks_of_given (sound : ∀ key, (r.frontier key).Sound) {now : Instant}
    {uri : EditionUri} {mark : PrefetchMark} (time : change.time? = some now)
    (given : change.given? key = if uri.key = key then some uri.edition else none)
    (marks : (r.apply change).marks =
      if isAbove uri.edition (r.frontier uri.key).slot then r.marks.slotRose uri.key now
      else r.marks)
    (h : (r.apply change).marks.get? key = some mark) : Marks r change key mark := by
  have hslot := slot_apply sound change key
  rw [given] at hslot
  rw [marks] at h
  split at h
  case isTrue habove =>
    rw [PrefetchMarks.get?_slotRose] at h
    split at h
    case isTrue hk =>
      subst hk
      obtain ⟨_, -, rfl⟩ := Option.map_eq_some_iff.mp h
      rw [if_pos rfl] at hslot
      exact .arms now time (.inr ⟨_, hslot.trans (raised_of_isAbove habove), habove⟩)
    case isFalse hk =>
      rw [if_neg hk] at hslot
      exact .keeps mark h hslot
  case isFalse habove =>
    refine .keeps mark h (hslot.trans ?_)
    split
    case isTrue hk =>
      subst hk
      exact raised_of_not_isAbove (Bool.eq_false_iff.mpr habove)
    case isFalse => rfl

/-- There is nothing else that a change may have done to a mark. -/
theorem marks_apply (sound : ∀ key, (r.frontier key).Sound) {mark : PrefetchMark}
    (h : (r.apply change).marks.get? key = some mark) : Marks r change key mark := by
  cases change with
  | noteSlot now uri => exact marks_of_given sound rfl rfl (marks_noteSlot r now uri) h
  | noteGood now uri =>
    have hmarks := marks_noteGood (sound uri.key) now uri.edition
    exact marks_of_given sound rfl rfl hmarks h
  | resolve now other prefetch =>
    rcases get?_marks_resolve h with hbefore | ⟨rfl, rfl, rfl⟩
    · exact .keeps mark hbefore (slot_apply sound _ key)
    · split
      case isTrue => exact .arms now rfl (.inl rfl)
      case isFalse hstalled =>
        exact .idles (frontier_apply sound _ other) (Bool.eq_false_iff.mpr hstalled)
  | sweep now delay =>
    obtain ⟨old, hold, rfl⟩ :=
      Option.map_eq_some_iff.mp ((PrefetchMarks.get?_settle r.marks now delay key).symm.trans h)
    split
    case isFalse => exact .keeps old hold rfl
    case isTrue hover =>
      cases old with
      | idle => cases hover
      | since start => exact .goesOff now delay start rfl hold (of_decide_eq_true hover)
  | _ =>
    rw [marks_apply_of_timeless r rfl] at h
    exact .keeps mark h (slot_apply sound _ key)

/-- An edition is the slot of its document and has not been confirmed. -/
structure IsStalledAt (r : Records) (uri : EditionUri) : Prop where
  slot : (r.frontier uri.key).slot = some uri.edition
  unconfirmed : isAbove uri.edition (r.frontier uri.key).good = true

/-- Those editions are sent for that have stalled for long enough. -/
theorem mem_dueForPrefetch_iff (r : Records) (now : Instant) (delay : Nat) (uri : EditionUri) :
    uri ∈ r.dueForPrefetch now delay ↔
      (∃ start, r.marks.get? uri.key = some (.since start) ∧ start + delay ≤ now) ∧
        r.IsStalledAt uri := by
  refine (PrefetchMarks.mem_due_iff r.marks r.frontiers now delay uri).trans ⟨?_, ?_⟩
  · rintro ⟨start, hmark, hover, hslot, habove⟩
    exact ⟨⟨start, hmark, hover⟩, hslot, habove⟩
  · rintro ⟨⟨start, hmark, hover⟩, hslot, habove⟩
    exact ⟨start, hmark, hover, hslot, habove⟩

/-- Over a slot that is stalled and was so before, a mark becomes idle only in a sweep that sends
for the slot. -/
theorem idle_apply (sound : ∀ key, (r.frontier key).Sound) {uri : EditionUri}
    (stalled : (r.apply change).IsStalledAt uri)
    (h : (r.apply change).marks.get? uri.key = some .idle) :
    (r.marks.get? uri.key = some .idle ∧ r.IsStalledAt uri) ∨
      ∃ now delay, change = .sweep now delay ∧ uri ∈ r.dueForPrefetch now delay := by
  have hgood : isAbove uri.edition (r.frontier uri.key).good = true := by
    have habove := stalled.unconfirmed
    rw [frontier_apply sound] at habove
    exact isAbove_of_le (le_raisedBy _ _) habove
  cases marks_apply sound h with
  | keeps _ before slot => exact .inl ⟨before, slot.symm.trans stalled.slot, hgood⟩
  | idles same unstalled =>
    have hslot := stalled.slot
    rw [same] at hslot
    rw [Frontier.isStalled, hslot] at unstalled
    cases hgood.symm.trans unstalled
  | goesOff now delay start sweep armed hover =>
    subst sweep
    exact .inr ⟨now, delay, rfl,
      (mem_dueForPrefetch_iff _ _ _ _).mpr ⟨⟨start, armed, hover⟩, stalled.slot, hgood⟩⟩

/-! ## Histories that tell the time -/

/-- A change of the records with the time at which it is made. -/
structure Dated where
  /-- The time. -/
  time : Instant
  /-- The change. -/
  change : Change

/-- The records after a history that tells the time. -/
def follow (r : Records) (history : List Dated) : Records := r.run (history.map Dated.change)

/-- A longer history is followed part by part. -/
theorem follow_append (r : Records) (earlier later : List Dated) :
    r.follow (earlier ++ later) = (r.follow earlier).follow later := by
  rw [follow, List.map_append, run_append]
  rfl

/-- In a timely history time never goes back, and a change that tells the time is right. -/
structure Timely (history : List Dated) : Prop where
  ordered : history.Pairwise fun a b => a.time ≤ b.time
  told : ∀ entry ∈ history, ∀ now, entry.change.time? = some now → now = entry.time

/-- A timely history was timely before its last entry, and nothing is later than that. -/
theorem Timely.before {earlier : List Dated} {entry : Dated} (h : Timely (earlier ++ [entry])) :
    Timely earlier ∧ ∀ old ∈ earlier, old.time ≤ entry.time := by
  obtain ⟨hordered, -, hlast⟩ := List.pairwise_append.mp h.ordered
  exact ⟨⟨hordered, fun old mem => h.told old (List.mem_append_left _ mem)⟩,
    fun old mem => hlast old mem entry (List.mem_singleton_self entry)⟩

/-- Some sweep of a history sends for an edition. -/
def SendsFor (r : Records) (history : List Dated) (uri : EditionUri) : Prop :=
  ∃ before time now delay after, history = before ++ ⟨time, .sweep now delay⟩ :: after ∧
    uri ∈ (r.follow before).dueForPrefetch now delay

/-- The slot of a document has stood still in all states of a history since some time. -/
def Stands (r : Records) (history : List Dated) (key : DocumentKey) (since : Instant) : Prop :=
  ∃ early late, history = early ++ late ∧ (∀ entry ∈ early, entry.time ≤ since) ∧
    ∀ moment, moment <+: late →
      ((r.follow (early ++ moment)).frontier key).slot =
        ((r.follow history).frontier key).slot

/-- A slot stands since the last change. -/
theorem stands_of_le (r : Records) {history : List Dated} {since : Instant}
    (h : ∀ entry ∈ history, entry.time ≤ since) (key : DocumentKey) :
    r.Stands history key since := by
  refine ⟨history, [], (List.append_nil history).symm, h, fun moment hm => ?_⟩
  rw [List.prefix_nil.mp hm, List.append_nil]

/-- A slot that stood stands on after a change that leaves it alone. -/
theorem Stands.concat {history : List Dated} {since : Instant} (h : r.Stands history key since)
    {entry : Dated}
    (same : ((r.follow (history ++ [entry])).frontier key).slot =
      ((r.follow history).frontier key).slot) :
    r.Stands (history ++ [entry]) key since := by
  obtain ⟨early, late, rfl, hearly, hlate⟩ := h
  refine ⟨early, late ++ [entry], List.append_assoc _ _ _, hearly, fun moment hm => ?_⟩
  rcases List.prefix_concat_iff.mp hm with rfl | hm
  · rw [List.append_assoc]
  · rw [hlate moment hm, same]

/-- What a history sends for a longer one sends for as well. -/
theorem SendsFor.append {history : List Dated} {uri : EditionUri} (h : r.SendsFor history uri)
    (later : List Dated) : r.SendsFor (history ++ later) uri := by
  obtain ⟨before, time, now, delay, after, rfl, hm⟩ := h
  exact ⟨before, time, now, delay, after ++ later, by simp, hm⟩

/-- Frontiers are sound after every history. -/
theorem sound_follow (capacity : Nat) (history : List Dated) (key : DocumentKey) :
    (((initial capacity).follow history).frontier key).Sound :=
  ((Peaks.initial capacity).run _).sound key

/-- The last entry of a history is applied last. -/
theorem follow_concat (r : Records) (history : List Dated) (entry : Dated) :
    r.follow (history ++ [entry]) = (r.follow history).apply entry.change :=
  follow_append r history [entry]

/-- The slot of a document whose mark is armed has stood still since then. -/
theorem stands_of_armed (capacity : Nat) {history : List Dated} (timely : Timely history)
    {start : Instant}
    (armed : ((initial capacity).follow history).marks.get? key = some (.since start)) :
    (initial capacity).Stands history key start := by
  induction history using List.reverseRecOn generalizing start with
  | nil => cases armed
  | append_singleton earlier entry ih =>
    obtain ⟨hearlier, hlast⟩ := timely.before
    rw [follow_concat] at armed
    cases marks_apply (sound_follow capacity earlier) armed with
    | keeps _ before slot =>
      refine (ih hearlier before).concat ?_
      rw [follow_concat]
      exact slot
    | arms now time cause =>
      have htime : start = entry.time := timely.told entry (by simp) start time
      refine stands_of_le _ (fun old mem => ?_) key
      rw [htime]
      rcases List.mem_append.mp mem with hold | hnew
      · exact hlast old hold
      · exact Nat.le_of_eq (congrArg Dated.time (List.mem_singleton.mp hnew))

/-- A mark that is idle over a stalled slot has gone off in a sweep that sent for the slot. -/
theorem sendsFor_of_idle (capacity : Nat) {history : List Dated} {uri : EditionUri}
    (stalled : ((initial capacity).follow history).IsStalledAt uri)
    (idle : ((initial capacity).follow history).marks.get? uri.key = some .idle) :
    (initial capacity).SendsFor history uri := by
  induction history using List.reverseRecOn with
  | nil => cases idle
  | append_singleton earlier entry ih =>
    rw [follow_concat] at stalled idle
    rcases idle_apply (sound_follow capacity earlier) stalled idle with
      ⟨hidle, hstalled⟩ | ⟨now, delay, hsweep, hm⟩
    · exact (ih hstalled hidle).append [entry]
    · refine ⟨earlier, entry.time, now, delay, [], ?_, hm⟩
      rw [← hsweep]

/-- The slot of a document is at or above an edition, and above it if the mark is armed. -/
structure IsPast (r : Records) (uri : EditionUri) : Prop where
  reached : some uri.edition ≤ (r.frontier uri.key).slot
  passed : ∀ start, r.marks.get? uri.key = some (.since start) →
    (r.frontier uri.key).slot ≠ some uri.edition

/-- An edition that is past stays so until its document is looked up with prefetching. -/
theorem IsPast.apply {uri : EditionUri} (h : r.IsPast uri)
    (sound : ∀ key, (r.frontier key).Sound)
    (other : ∀ now, change ≠ .resolve now uri.key true) : (r.apply change).IsPast uri := by
  constructor
  · rw [slot_apply sound]
    exact slot_le_trans h.reached (le_raisedBy _ _)
  · intro start armed
    cases marks_apply sound armed with
    | keeps _ before slot =>
      rw [slot]
      exact h.passed start before
    | arms now time cause =>
      rcases cause with hresolve | ⟨e, hslot, habove⟩
      · exact absurd hresolve (other start)
      · rw [hslot]
        intro he
        rw [Option.some.inj he] at habove
        exact not_some_le_of_isAbove habove h.reached

/-- A sweep that sends for an edition leaves it past. -/
theorem isPast_sweep {now : Instant} {delay : Nat} {uri : EditionUri}
    (h : uri ∈ r.dueForPrefetch now delay) : (r.apply (.sweep now delay)).IsPast uri := by
  obtain ⟨⟨start, hmark, hover⟩, stalled⟩ := (mem_dueForPrefetch_iff r now delay uri).mp h
  constructor
  · change some uri.edition ≤ (r.frontier uri.key).slot
    rw [stalled.slot]
    exact slot_le_refl _
  · intro later armed
    have hidle : (r.apply (.sweep now delay)).marks.get? uri.key = some .idle := by
      refine (PrefetchMarks.get?_settle r.marks now delay uri.key).trans ?_
      rw [hmark, Option.map_some, PrefetchMarks.isOver, if_pos (decide_eq_true hover)]
    rw [hidle] at armed
    cases armed

/-- An edition that is past stays so until its document is looked up for prefetching again. -/
theorem isPast_follow (capacity : Nat) {before between : List Dated} {uri : EditionUri}
    (h : ((initial capacity).follow before).IsPast uri)
    (other : ∀ entry ∈ between, ∀ now, entry.change ≠ .resolve now uri.key true) :
    ((initial capacity).follow (before ++ between)).IsPast uri := by
  induction between using List.reverseRecOn with
  | nil =>
    rw [List.append_nil]
    exact h
  | append_singleton earlier entry ih =>
    have hearlier := ih fun old mem => other old (List.mem_append_left _ mem)
    rw [← List.append_assoc, follow_concat]
    exact hearlier.apply (sound_follow capacity _) (other entry (by simp))

end Records

namespace Watch

open Records (Dated Timely)

/-- The records of a watch have a timely history, and its sweeps keep to the prefetch delay. -/
theorem timely_run {w : Watch} (numbered : w.Numbered) (actions : List Action) :
    ∃ history : List Dated, Timely history ∧ (∀ entry ∈ history, w.now ≤ entry.time) ∧
      (∀ entry ∈ history, ∀ delay, entry.change.delay? = some delay →
        delay = w.settings.prefetchDelay.nanoseconds) ∧
      (w.run actions).records = w.records.follow history := by
  induction actions generalizing w with
  | nil =>
    have hnone (P : Dated → Prop) : ∀ entry ∈ [], P entry :=
      fun _ mem => absurd mem List.not_mem_nil
    exact ⟨[], ⟨.nil, hnone _⟩, hnone _, hnone _, rfl⟩
  | cons action rest ih =>
    obtain ⟨hnow, hsettings, changes, hadmits, hrecords⟩ := records_act numbered action
    obtain ⟨later, htimely, hafter, hdelays, hlater⟩ := ih (numbered_act numbered action)
    let first : List Dated := changes.map fun change => ⟨w.now, change⟩
    have hfirst : ∀ entry ∈ first, entry.time = w.now ∧ w.Admits entry.change := by
      intro entry mem
      obtain ⟨change, hchange, rfl⟩ := List.mem_map.mp mem
      exact ⟨rfl, hadmits change hchange⟩
    refine ⟨first ++ later, ⟨List.pairwise_append.mpr ⟨?_, htimely.ordered, ?_⟩, ?_⟩, ?_, ?_, ?_⟩
    · refine List.pairwise_of_forall_mem_list fun a ha b hb => ?_
      exact Nat.le_of_eq ((hfirst a ha).1.trans (hfirst b hb).1.symm)
    · intro a ha b hb
      rw [(hfirst a ha).1]
      exact Nat.le_trans hnow (hafter b hb)
    · intro entry mem now time
      rcases List.mem_append.mp mem with hold | hnew
      · rw [(hfirst entry hold).1]
        exact (hfirst entry hold).2.time now time
      · exact htimely.told entry hnew now time
    · intro entry mem
      rcases List.mem_append.mp mem with hold | hnew
      · exact Nat.le_of_eq (hfirst entry hold).1.symm
      · exact Nat.le_trans hnow (hafter entry hnew)
    · intro entry mem delay hdelay
      rcases List.mem_append.mp mem with hold | hnew
      · exact (hfirst entry hold).2.delay delay hdelay
      · rw [← hsettings]
        exact hdelays entry hnew delay hdelay
    · have hchanges : first.map Dated.change = changes := by
        simp [first, Function.comp_def]
      rw [run_cons, hlater, hrecords, Records.follow_append, Records.follow, Records.follow,
        Records.follow, hchanges]

end Watch

namespace Records

/-- After every timely history, in which lookups, slots, known good editions, evictions and sweeps
come in any order: what a sweep sends for is the slot, it is not confirmed, and it has stood for
the whole delay; between two sweeps that send for the same edition its document is looked up with
prefetching; and a document that is marked and stalled has its mark armed, or a sweep has sent
for its slot. The records of a watch have such a history, whatever happens to the watch. -/
theorem prefetch_exact (capacity : Nat) (history : List Dated) (timely : Timely history) :
    (∀ before time now delay after,
      history = before ++ ⟨time, .sweep now delay⟩ :: after →
        ∀ uri ∈ ((initial capacity).follow before).dueForPrefetch now delay,
          ((initial capacity).follow before).IsStalledAt uri ∧
            ∃ since, since + delay ≤ now ∧
              (initial capacity).Stands before uri.key since) ∧
    (∀ before time now delay between time' now' delay' after,
      history = before ++ ⟨time, .sweep now delay⟩ ::
        (between ++ ⟨time', .sweep now' delay'⟩ :: after) →
        ∀ uri ∈ ((initial capacity).follow before).dueForPrefetch now delay,
          uri ∈ ((initial capacity).follow
            (before ++ ⟨time, .sweep now delay⟩ :: between)).dueForPrefetch now' delay' →
            ∃ entry ∈ between, ∃ now, entry.change = .resolve now uri.key true) ∧
    (∀ uri mark, ((initial capacity).follow history).marks.get? uri.key = some mark →
      ((initial capacity).follow history).IsStalledAt uri →
        (∃ start, mark = .since start) ∨ (initial capacity).SendsFor history uri) ∧
    (∀ settings listeners actions, ∃ told, Timely told ∧
      (∀ entry ∈ told, ∀ delay, entry.change.delay? = some delay →
        delay = settings.prefetchDelay.nanoseconds) ∧
      ((Watch.initial settings listeners).run actions).records =
        (initial settings.maxTemporary.toNat).follow told) := by
  refine ⟨?_, ?_, ?_, ?_⟩
  · rintro before time now delay after rfl uri hdue
    obtain ⟨⟨start, armed, hover⟩, stalled⟩ := (mem_dueForPrefetch_iff _ now delay uri).mp hdue
    have hbefore : Timely before :=
      ⟨(List.pairwise_append.mp timely.ordered).1,
        fun entry mem => timely.told entry (List.mem_append_left _ mem)⟩
    exact ⟨stalled, start, hover, stands_of_armed capacity hbefore armed⟩
  · rintro before time now delay between time' now' delay' after - uri hdue hdue'
    refine Classical.byContradiction fun hnone => ?_
    have hother : ∀ entry ∈ between, ∀ now, entry.change ≠ .resolve now uri.key true :=
      fun entry mem now he => hnone ⟨entry, mem, now, he⟩
    let swept : List Dated := before ++ [⟨time, .sweep now delay⟩]
    have hswept : ((initial capacity).follow swept).IsPast uri := by
      rw [follow_concat]
      exact isPast_sweep hdue
    have hpast := isPast_follow capacity hswept hother
    rw [List.append_assoc, List.singleton_append] at hpast
    obtain ⟨⟨start, armed, -⟩, stalled⟩ := (mem_dueForPrefetch_iff _ now' delay' uri).mp hdue'
    exact hpast.passed start armed stalled.slot
  · intro uri mark hmark stalled
    cases mark with
    | since start => exact .inl ⟨start, rfl⟩
    | idle => exact .inr (sendsFor_of_idle capacity stalled hmark)
  · intro settings listeners actions
    obtain ⟨told, htimely, -, hdelays, hrecords⟩ :=
      Watch.timely_run (Watch.numbered_run settings listeners []) actions
    exact ⟨told, htimely, hdelays, hrecords⟩

/-- A slot that rose at the time 1 is sent for at the time 10 with a delay of 9, and again at the
time 20, because its document was looked up in between. -/
theorem prefetch_exact_of_second_lookup :
    let notes : DocumentKey := ⟨.uniform 7, "notes"⟩
    let before : List Dated := [⟨0, .resolve 0 notes true⟩, ⟨1, .noteSlot 1 ⟨notes, 3⟩⟩]
    let between : List Dated := [⟨11, .resolve 11 notes true⟩]
    let swept : List Dated := before ++ ⟨10, .sweep 10 9⟩ :: between
    Timely (swept ++ [⟨20, .sweep 20 9⟩]) ∧
      ⟨notes, 3⟩ ∈ ((initial 4).follow before).dueForPrefetch 10 9 ∧
      (∃ since, since + 9 ≤ 10 ∧ (initial 4).Stands before notes since) ∧
      ⟨notes, 3⟩ ∈ ((initial 4).follow swept).dueForPrefetch 20 9 ∧
      ∃ entry ∈ between, ∃ now, entry.change = .resolve now notes true := by
  intro notes before between swept
  have htimely : Timely (swept ++ [⟨20, .sweep 20 9⟩]) :=
    ⟨by decide, by simp [swept, before, between, Change.time?]⟩
  have hdue : ⟨notes, 3⟩ ∈ ((initial 4).follow before).dueForPrefetch 10 9 := by decide
  have hdue' : ⟨notes, 3⟩ ∈ ((initial 4).follow swept).dueForPrefetch 20 9 := by decide
  obtain ⟨hsent, hagain, -⟩ := prefetch_exact 4 _ htimely
  obtain ⟨-, hstands⟩ := hsent before 10 10 9 _ (List.append_assoc _ _ _) _ hdue
  have hlooked := hagain before 10 10 9 between 20 20 9 [] (List.append_assoc _ _ _) _ hdue hdue'
  exact ⟨htimely, hdue, hstands, hdue', hlooked⟩

end Records

end EditionWatch
