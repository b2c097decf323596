import EditionWatch.Proofs.Deliveries
import Mathlib.Data.List.Nodup

/-!
# What a registration has heard

A callback that is registered asks for the editions above one, and registering it again
leaves it at that, whatever is asked for then. Between its registration and its removal it
has therefore been told of the slot exactly when the slot is above the edition it named
first. If it names a higher one later on it is served all the same, since what is above that
is above the first one too; if it names a lower one, the slots between the two pass it by.
-/

namespace EditionWatch.Records

/-- The edition above which a registered callback asked to be told of editions. -/
def asked? (r : Records) (key : DocumentKey) (callback : CallbackId) : Option Edition :=
  ((r.registry.of key).find? fun s => s.callback = callback).map Subscriber.requested

/-- What a callback is told of a document in a history, beyond what it was told before. It
counts from its last removal. -/
def toldSince (r : Records) (key : DocumentKey) (callback : CallbackId) (told : List Found) :
    List Change → List Found
  | [] => told
  | change :: rest =>
    (r.apply change).toldSince key callback
      (if change = .unsubscribe key callback then []
        else told ++ newsFor key callback (r.enqueuedBy change)) rest

variable {r : Records} {key : DocumentKey} {callback : CallbackId} {told : List Found}

/-- Who asked for editions is a subscriber, with this request. -/
theorem mem_of_asked? {asked : Edition} (h : r.asked? key callback = some asked) :
    ∃ s ∈ r.registry.of key, s.callback = callback ∧ s.requested = asked := by
  obtain ⟨s, hs, hr⟩ := Option.map_eq_some_iff.mp h
  have hc : s.callback = callback := by simpa using List.find?_some hs
  exact ⟨s, List.mem_of_find?_eq_some hs, hc, hr⟩

/-- Exactly those asked for nothing who are not registered. -/
theorem asked?_eq_none_iff :
    r.asked? key callback = none ↔ r.registry.has key callback = false := by
  rw [asked?, Option.map_eq_none_iff, List.find?_eq_none, Registry.has, List.any_eq_false]

/-- Of each callback a document has one subscriber, so what that one asked for is what was asked. -/
theorem asked?_of_mem (h : Attuned r) {s : Subscriber} (hs : s ∈ r.registry.of key) :
    r.asked? key s.callback = some s.requested := by
  cases ha : r.asked? key s.callback with
  | none =>
    have hn := asked?_eq_none_iff.mp ha
    rw [(Registry.has_iff r.registry key s.callback).mpr ⟨s, hs, rfl⟩] at hn
    cases hn
  | some asked =>
    obtain ⟨t, ht, hc, rfl⟩ := mem_of_asked? ha
    rw [List.inj_on_of_nodup_map (h.distinct key) ht hs hc]

/-- A callback that stays registered goes on asking for what it asked for. -/
theorem asked?_of_stays (h : Attuned r) {change : Change} {asked : Edition}
    (ha : r.asked? key callback = some asked) (stays : change ≠ .unsubscribe key callback) :
    (r.apply change).asked? key callback = some asked := by
  obtain ⟨s, hs, rfl, rfl⟩ := mem_of_asked? ha
  obtain ⟨t, ht, hc, hr⟩ := mem_of_apply h hs stays
  rw [← hc, asked?_of_mem (attuned_apply h change) ht, hr]

/-- Who subscribes again is held to what they asked for first. -/
theorem asked?_subscribe (h : Attuned r) (requested : Edition) (polls : Bool) :
    (r.apply (.subscribe key callback requested polls)).asked? key callback =
      some ((r.asked? key callback).getD requested) := by
  cases ha : r.asked? key callback with
  | some asked => exact asked?_of_stays h ha Change.noConfusion
  | none =>
    obtain ⟨s, hs, rfl, rfl⟩ := mem_of_subscribe (asked?_eq_none_iff.mp ha) requested polls
    exact asked?_of_mem (attuned_apply h _) hs

/-- Who was removed asks for nothing any more. -/
theorem asked?_unsubscribe :
    (r.apply (.unsubscribe key callback)).asked? key callback = none := by
  rw [asked?_eq_none_iff]
  change (r.registry.remove key callback).has key callback = false
  rw [Registry.has_remove]
  simp

/-- A callback that is not registered is told nothing and stays so, unless it is registered. -/
theorem newsFor_of_absent (h : Attuned r) {change : Change}
    (absent : r.registry.has key callback = false)
    (spared : ∀ requested polls, change ≠ .subscribe key callback requested polls) :
    newsFor key callback (r.enqueuedBy change) = [] ∧
      (r.apply change).registry.has key callback = false := by
  cases effect h change with
  | announces found announced =>
    rw [announced.registry, Registry.has_tellAll, enqueuedBy_of_append announced.pending,
      Registry.deliveriesToAll, newsFor_flatMap]
    refine ⟨List.flatMap_eq_nil_iff.mpr fun s hs => newsFor_deliveries fun hc => ?_, absent⟩
    have hin := (Registry.has_iff r.registry key callback).mpr ⟨s, hc.2 ▸ hs, hc.1⟩
    rw [absent] at hin
    cases hin
  | quiet agrees rounds =>
    rw [agrees.registry]
    refine ⟨List.filterMap_eq_nil_iff.mpr fun d hd => ?_, absent⟩
    obtain ⟨told, ended, rfl⟩ := rounds d hd
    rfl
  | removes other removed is =>
    subst is
    have hn : r.enqueuedBy (.unsubscribe other removed) = [] :=
      enqueuedBy_of_append (List.append_nil _).symm
    refine ⟨by rw [hn]; rfl, ?_⟩
    change (r.registry.remove other removed).has key callback = false
    rw [Registry.has_remove, absent, Bool.and_false]
  | registers other registered requested polls is =>
    subst is
    have hother : ¬(registered = callback ∧ other = key) := by
      rintro ⟨rfl, rfl⟩
      exact spared requested polls rfl
    constructor
    · rw [enqueuedBy_subscribe]
      cases hst : r.standing other with
      | none => rfl
      | some found =>
        obtain ⟨rfl, -⟩ := tells_standing hst
        exact newsFor_deliveriesToOne hother
    · rw [Bool.eq_false_iff]
      intro hin
      obtain ⟨t, ht, rfl⟩ := (Registry.has_iff _ key callback).mp hin
      rcases subscriber_of_mem_subscribe ht with ⟨s, hs, hc, -⟩ | ⟨hk, -, hc, -⟩
      · rw [(Registry.has_iff r.registry key t.callback).mpr ⟨s, hs, hc⟩] at absent
        cases absent
      · exact hother ⟨hc.symm, hk.symm⟩

/-- Someone has been told nothing at or below what they asked for, and of the present view if
that is above it. -/
structure Informed (asked : Edition) (view : Option Heard) (told : List Found) : Prop where
  above : ∀ found ∈ told, asked < found.edition
  recent : ∀ heard, audible asked view = some heard → ∃ found ∈ told, found.heard = heard

/-- As long as nothing is known, nobody has to be told anything. -/
theorem informed_nil (asked : Edition) : Informed asked none [] where
  above _ hf := nomatch hf
  recent _ ha := nomatch ha

/-- The news of a change keeps someone informed. -/
theorem Informed.tiding {asked : Edition} {before now : Option Heard}
    (h : Informed asked before told) (key : DocumentKey) :
    Informed asked now (told ++ tiding key asked before now) := by
  unfold EditionWatch.tiding
  split
  case isTrue hsame =>
    rw [List.append_nil, hsame]
    exact h
  case isFalse =>
    cases ha : audible asked now with
    | none =>
      rw [List.append_nil]
      exact ⟨h.above, fun heard hh => nomatch ha.symm.trans hh⟩
    | some heard =>
      refine ⟨fun found hf => ?_, fun _ hh => ?_⟩
      · rcases List.mem_append.mp hf with hf | hf
        · exact h.above found hf
        · obtain rfl := List.mem_singleton.mp hf
          exact of_decide_eq_true (Option.filter_eq_some_iff.mp ha).2
      · obtain rfl := Option.some.inj (ha.symm.trans hh)
        exact ⟨_, List.mem_append_right _ List.mem_cons_self, rfl⟩

/-- What a callback has been told since it was last removed from a document is what it had to
be told since it was registered. -/
def Recalls (r : Records) (key : DocumentKey) (callback : CallbackId) (told : List Found) : Prop :=
  match r.asked? key callback with
  | none => told = []
  | some asked => Informed asked (r.view key) told

/-- A registered callback recalls what it had to be told. -/
theorem recalls_of_asked {asked : Edition} (ha : r.asked? key callback = some asked)
    (h : Informed asked (r.view key) told) : Recalls r key callback told := by
  rw [Recalls, ha]
  exact h

/-- What a registered callback recalls is what it had to be told. -/
theorem Recalls.informed (h : Recalls r key callback told) {asked : Edition}
    (ha : r.asked? key callback = some asked) : Informed asked (r.view key) told := by
  rw [Recalls, ha] at h
  exact h

/-- A callback that is not registered recalls nothing. -/
theorem recalls_of_absent (ha : r.asked? key callback = none) : Recalls r key callback [] := by
  rw [Recalls, ha]

/-- Registering a callback informs it of the present view. -/
theorem recalls_subscribe (h : Attuned r) (absent : r.asked? key callback = none)
    (requested : Edition) (polls : Bool) :
    Recalls (r.apply (.subscribe key callback requested polls)) key callback
      (newsFor key callback (r.enqueuedBy (.subscribe key callback requested polls))) := by
  have hasked : (r.apply (.subscribe key callback requested polls)).asked? key callback =
      some requested := by
    rw [asked?_subscribe h requested polls, absent, Option.getD_none]
  refine recalls_of_asked hasked ?_
  rw [newsFor_register h (asked?_eq_none_iff.mp absent), view_subscribe]
  exact (informed_nil requested).tiding key

/-- A callback recalls what it is told in a change, or forgets everything if it is removed. -/
theorem Recalls.apply (h : Attuned r) (recalls : Recalls r key callback told) (change : Change) :
    Recalls (r.apply change) key callback
      (if change = .unsubscribe key callback then []
        else told ++ newsFor key callback (r.enqueuedBy change)) := by
  split
  case isTrue hleave =>
    subst hleave
    exact recalls_of_absent asked?_unsubscribe
  case isFalse hstay =>
    cases ha : r.asked? key callback with
    | some asked =>
      obtain ⟨s, hs, rfl, rfl⟩ := mem_of_asked? ha
      rw [newsFor_enqueuedBy h hs]
      exact recalls_of_asked (asked?_of_stays h ha hstay) ((recalls.informed ha).tiding key)
    | none =>
      rw [Recalls, ha] at recalls
      rw [recalls, List.nil_append]
      by_cases hjoin : ∃ requested polls, change = .subscribe key callback requested polls
      · obtain ⟨requested, polls, rfl⟩ := hjoin
        exact recalls_subscribe h ha requested polls
      · obtain ⟨hnews, hafter⟩ := newsFor_of_absent h (asked?_eq_none_iff.mp ha)
          fun requested polls is => hjoin ⟨requested, polls, is⟩
        rw [hnews]
        exact recalls_of_absent (asked?_eq_none_iff.mpr hafter)

/-- A callback recalls in a history what it was told since it was removed last. -/
theorem Recalls.run (h : Attuned r) (recalls : Recalls r key callback told)
    (history : List Change) :
    Recalls (r.run history) key callback (r.toldSince key callback told history) := by
  induction history generalizing r told with
  | nil => exact recalls
  | cons change rest ih => exact ih (attuned_apply h change) (recalls.apply h change)

/-- Who is not removed is held to what they asked for. -/
theorem asked?_run (h : Attuned r) {asked : Edition} (ha : r.asked? key callback = some asked)
    {history : List Change} (stays : .unsubscribe key callback ∉ history) :
    (r.run history).asked? key callback = some asked := by
  induction history generalizing r with
  | nil => exact ha
  | cons change rest ih =>
    rw [List.mem_cons, not_or] at stays
    exact ih (attuned_apply h change) (asked?_of_stays h ha (Ne.symm stays.1)) stays.2

/-- A slot above what was asked for is heard of, good or not. -/
theorem audible_view (r : Records) (key : DocumentKey) {asked slot : Edition}
    (hs : (r.frontier key).slot = some slot) (ha : asked < slot) :
    audible asked (r.view key) = some ⟨slot, (r.frontier key).good = some slot⟩ := by
  rw [view, Frontier.view, hs, Option.map_some, audible_some, if_pos ha]

/-- In every history, a callback that subscribes and is not removed afterwards goes on asking
for the editions above the one it named when it was registered. Since then it has been told of
the slot exactly if that is above this edition, and of nothing at or below it. So it has been
told of every slot above the edition it names now, if it named no higher one at first. -/
theorem told_above_asked (capacity : Nat) (earlier later : List Change) (key : DocumentKey)
    (callback : CallbackId) (requested : Edition) (polls : Bool)
    (stays : .unsubscribe key callback ∉ later) :
    let history := earlier ++ .subscribe key callback requested polls :: later
    let r := (initial capacity).run history
    let told := (initial capacity).toldSince key callback [] history
    let asked := (((initial capacity).run earlier).asked? key callback).getD requested
    r.asked? key callback = some asked ∧
    (∀ found ∈ told, asked < found.edition) ∧
    (∀ slot, (r.frontier key).slot = some slot →
      ((∃ found ∈ told, found.edition = slot) ↔ asked < slot)) ∧
    (asked ≤ requested → ∀ slot, (r.frontier key).slot = some slot → requested < slot →
      ∃ found ∈ told, found.edition = slot) := by
  intro history r told asked
  have hi : Attuned (initial capacity) := attuned_initial capacity
  have hasked : r.asked? key callback = some asked := by
    have he : Attuned ((initial capacity).run earlier) := attuned_run hi earlier
    change ((initial capacity).run (earlier ++ _)).asked? key callback = _
    rw [run_append, run_cons]
    exact asked?_run (attuned_apply he _) (asked?_subscribe he requested polls) stays
  have hinformed : Informed asked (r.view key) told :=
    ((recalls_of_absent rfl).run hi history).informed hasked
  have htold (slot : Edition) (hs : (r.frontier key).slot = some slot) (ha : asked < slot) :
      ∃ found ∈ told, found.edition = slot := by
    obtain ⟨found, hf, hh⟩ := hinformed.recent _ (audible_view r key hs ha)
    exact ⟨found, hf, congrArg Heard.edition hh⟩
  refine ⟨hasked, hinformed.above, fun slot hs => ⟨?_, htold slot hs⟩, fun hle slot hs hr => ?_⟩
  · rintro ⟨found, hf, rfl⟩
    exact hinformed.above found hf
  · exact htold slot hs (UInt64.lt_of_le_of_lt hle hr)

/-- Someone who asked for editions above 2 and then for those above 4 is told of the slot 5
and of the slot 7. -/
theorem told_above_asked_of_second_request :
    let key : DocumentKey := ⟨.uniform 7, "notes"⟩
    let history : List Change :=
      [.subscribe key 1 2 true, .noteSlot 0 ⟨key, 5⟩, .subscribe key 1 4 false,
        .noteSlot 3 ⟨key, 7⟩]
    ∃ found ∈ (initial 4).toldSince key 1 [] history, found.edition = 7 := by
  intro key history
  have stays : .unsubscribe key 1 ∉ [Change.noteSlot 3 ⟨key, 7⟩] := by simp
  have h := told_above_asked 4 [.subscribe key 1 2 true, .noteSlot 0 ⟨key, 5⟩]
    [.noteSlot 3 ⟨key, 7⟩] key 1 4 false stays
  exact h.2.2.2 (by decide) 7 (by decide) (by decide)

/-- Someone who asked for editions above 10 and then for those above 3 is told nothing of the
slot 5, which is known by then, and nothing of the slot 8 that comes after it. -/
theorem untold_of_lower_request :
    let key : DocumentKey := ⟨.uniform 7, "notes"⟩
    let history : List Change :=
      [.subscribe key 1 10 false, .noteSlot 0 ⟨key, 5⟩, .subscribe key 1 3 false]
    let later : List Change := [.noteSlot 1 ⟨key, 8⟩]
    ((initial 4).run history).registry.has key 1 = true ∧
    (((initial 4).run history).frontier key).slot = some 5 ∧
    (((initial 4).run (history ++ later)).frontier key).slot = some 8 ∧
    (initial 4).toldSince key 1 [] (history ++ later) = [] := by
  decide

end EditionWatch.Records
