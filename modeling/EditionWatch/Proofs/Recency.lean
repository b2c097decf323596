import EditionWatch.Proofs.Stalls
import EditionWatch.Proofs.Stillness
import EditionWatch.Proofs.Turns

/-!
# Which temporary poller has to go

The temporary pollers stand in a list, in the order in which their documents were looked up last.
A lookup moves the poller of its document to the front, or puts a new one there, and then the last
one has to go if there are too many. A document that comes to be polled in the background takes
its poller along, a poller that ends takes itself out, and a shutdown takes out all, be it the
owner or a listener who stops the watch. Nothing else touches the list.

That a step touches nothing is not traced through the functions of a watch once more: without a
lookup, entries can only be taken out, and the books show how many were.
-/

namespace EditionWatch

/-- Something that the list of temporary pollers depends on. -/
inductive Use where
  /-- A document that is not polled in the background is looked up. If a poller is made for it,
  this is its number. -/
  | lookedUp (key : DocumentKey) (fresh : PollerId)
  /-- A document is to be polled in the background. -/
  | covered (key : DocumentKey)
  /-- A poller of a document ends. -/
  | exited (key : DocumentKey) (poller : PollerId)
  /-- All pollers are taken out. -/
  | cleared
  deriving DecidableEq

namespace Use

/-- The list after a use. -/
def apply (capacity : Nat) (recent : List (DocumentKey × PollerId)) :
    Use → List (DocumentKey × PollerId)
  | .lookedUp key fresh =>
    match KeyMap.find key recent with
    | some poller => (key, poller) :: KeyMap.without key recent
    | none => ((key, fresh) :: recent).take capacity
  | .covered key => KeyMap.without key recent
  | .exited key poller => recent.filter fun entry => entry ≠ (key, poller)
  | .cleared => []

/-- The list after several uses. -/
def recent (capacity : Nat) (uses : List Use) : List (DocumentKey × PollerId) :=
  uses.foldl (apply capacity) []

/-- The document that is looked up. -/
def key? : Use → Option DocumentKey
  | .lookedUp key _ => some key
  | _ => none

/-- The documents that were looked up, the latest first. -/
def lookups (uses : List Use) : List DocumentKey := (uses.filterMap key?).reverse

/-- The documents of a list were looked up, each later than those that stand behind it. -/
def InOrder (recent : List (DocumentKey × PollerId)) (lookups : List DocumentKey) : Prop :=
  (recent.map Prod.fst).Pairwise (fun a b => lookups.idxOf a < lookups.idxOf b) ∧
    ∀ entry ∈ recent, entry.1 ∈ lookups

section Order

variable {capacity : Nat} {entries rest : List (DocumentKey × PollerId)}
  {keys : List DocumentKey} {key : DocumentKey} {id : PollerId}

/-- What is left of a list in order is in order. -/
theorem InOrder.sublist (h : InOrder entries keys) (sub : rest.Sublist entries) :
    InOrder rest keys :=
  ⟨h.1.sublist (sub.map Prod.fst), fun entry hm => h.2 entry (sub.subset hm)⟩

/-- A document that is looked up comes first, if it was not in the list. -/
theorem InOrder.cons (h : InOrder entries keys) (absent : key ∉ entries.map Prod.fst)
    (id : PollerId) : InOrder ((key, id) :: entries) (key :: keys) := by
  have hother {other : DocumentKey} (hm : other ∈ entries.map Prod.fst) :
      (key :: keys).idxOf other = keys.idxOf other + 1 := by
    have hne : key ≠ other := fun he => absent (he ▸ hm)
    rw [List.idxOf_cons_ne _ hne]
  refine ⟨?_, fun entry hm => ?_⟩
  · rw [List.map_cons, List.pairwise_cons]
    refine ⟨fun other hm => ?_, h.1.imp_of_mem fun ha hb hlt => ?_⟩
    · rw [hother hm, List.idxOf_cons_self]
      exact Nat.succ_pos _
    · rw [hother ha, hother hb]
      exact Nat.succ_lt_succ hlt
  · rcases List.mem_cons.mp hm with rfl | hm
    · exact List.mem_cons_self
    · exact List.mem_cons_of_mem _ (h.2 entry hm)

/-- Every use leaves the list in the order of the lookups. -/
theorem InOrder.apply (h : InOrder entries keys) (capacity : Nat) (use : Use) :
    InOrder (use.apply capacity entries) (use.key?.toList ++ keys) := by
  cases use with
  | lookedUp key fresh =>
    rw [Use.apply]
    cases hfind : KeyMap.find key entries with
    | some poller =>
      exact (h.sublist List.filter_sublist).cons (KeyMap.not_mem_keys_without key entries) poller
    | none =>
      exact (h.cons (KeyMap.find_eq_none_iff.mp hfind) fresh).sublist (List.take_sublist _ _)
  | covered key => exact h.sublist List.filter_sublist
  | exited key poller => exact h.sublist List.filter_sublist
  | cleared => exact ⟨.nil, fun _ hm => absurd hm List.not_mem_nil⟩

/-- Every use keeps the list within its capacity. -/
theorem length_apply_le (h : entries.length ≤ capacity) (use : Use) :
    (use.apply capacity entries).length ≤ capacity := by
  cases use with
  | lookedUp key fresh =>
    rw [apply]
    cases hfind : KeyMap.find key entries with
    | some poller => exact Nat.le_trans (KeyMap.length_without_lt hfind) h
    | none => exact List.length_take_le _ _
  | covered key => exact Nat.le_trans (List.length_filter_le _ _) h
  | exited key poller => exact Nat.le_trans (List.length_filter_le _ _) h
  | cleared => exact Nat.zero_le _

/-- After several uses the list is in the order of the lookups. -/
theorem inOrder_foldl (h : InOrder entries keys) (capacity : Nat) (uses : List Use) :
    InOrder (uses.foldl (apply capacity) entries) (lookups uses ++ keys) := by
  induction uses generalizing entries keys with
  | nil => exact h
  | cons use rest ih =>
    have hrest := ih (h.apply capacity use)
    have hkeys : lookups (use :: rest) ++ keys = lookups rest ++ (use.key?.toList ++ keys) := by
      unfold lookups
      rw [List.filterMap_cons]
      cases use.key? <;> simp
    rwa [hkeys]

/-- After several uses the list is within its capacity. -/
theorem length_foldl_le (h : entries.length ≤ capacity) (uses : List Use) :
    (uses.foldl (apply capacity) entries).length ≤ capacity := by
  induction uses generalizing entries with
  | nil => exact h
  | cons use rest ih => exact ih (length_apply_le h use)

/-- The list that uses leave is in the order of their lookups. -/
theorem inOrder_recent (capacity : Nat) (uses : List Use) :
    InOrder (recent capacity uses) (lookups uses) := by
  have hnil : InOrder [] [] := ⟨.nil, fun _ hm => absurd hm List.not_mem_nil⟩
  have h := inOrder_foldl hnil capacity uses
  rwa [List.append_nil] at h

end Order

end Use

namespace Records

variable {r r' : Records} {key : DocumentKey}

/-- Whether a change is a lookup. -/
def Change.isLookup : Change → Bool
  | .resolve _ _ _ => true
  | _ => false

/-- Temporary pollers may have been taken out, but none was put in or pushed out, and those that
are left stand in the same order. -/
structure Thins (r r' : Records) : Prop where
  entries : r'.cache.byUse.entries.Sublist r.cache.byUse.entries
  capacity : r'.cache.capacity = r.cache.capacity
  created : r'.tally.temporaryCreated = r.tally.temporaryCreated
  evicted : r'.tally.temporaryEvicted = r.tally.temporaryEvicted

theorem Thins.refl (r : Records) : Thins r r := ⟨.refl _, rfl, rfl, rfl⟩

theorem Thins.trans {r'' : Records} (h : Thins r r') (h' : Thins r' r'') : Thins r r'' :=
  ⟨h'.entries.trans h.entries, h'.capacity.trans h.capacity, h'.created.trans h.created,
    h'.evicted.trans h.evicted⟩

/-- What keeps the books takes out no temporary poller. -/
theorem KeepsBooks.thins (h : KeepsBooks r r') : Thins r r' :=
  ⟨by rw [h.cache], by rw [h.cache], h.created, h.evicted⟩

/-- To cover a document may take its temporary poller out. -/
theorem thins_cover (r : Records) (key : DocumentKey) (callback : CallbackId) :
    Thins r (r.cover key callback) := by
  unfold cover
  cases r.coverage key with
  | promoted poller => exact ⟨List.filter_sublist, rfl, rfl, rfl⟩
  | _ => exact ⟨.refl _, rfl, rfl, rfl⟩

/-- A poller that ends may be taken out. -/
theorem thins_removePoller (r : Records) (key : DocumentKey) (poller : PollerId)
    (cancelled : Bool) : Thins r (r.removePoller key poller cancelled) := by
  unfold removePoller
  dsimp only
  split
  · cases cancelled <;> exact ⟨.refl _, rfl, rfl, rfl⟩
  · split
    · cases cancelled <;> exact ⟨List.filter_sublist, rfl, rfl, rfl⟩
    · exact Thins.refl r

/-- Without a lookup, a change of the records can only take temporary pollers out. -/
theorem thins_apply (r : Records) {change : Change} (other : change.isLookup = false) :
    Thins r (r.apply change) := by
  cases hcalm : change.isCalm with
  | true => exact (keepsBooks_apply r change hcalm).thins
  | false =>
    cases change with
    | subscribe key callback requested polls =>
      cases polls with
      | false => cases hcalm
      | true =>
        exact (keepsBooks_register r key callback requested).thins.trans
          (thins_cover _ key callback)
    | removePoller key poller cancelled => exact thins_removePoller r key poller cancelled
    | removePollers => exact ⟨List.nil_sublist _, rfl, rfl, rfl⟩
    | forgetPollers => exact ⟨List.nil_sublist _, rfl, rfl, rfl⟩
    | countProbe => exact ⟨.refl _, rfl, rfl, rfl⟩
    | countVerdict verdict => cases verdict <;> exact ⟨.refl _, rfl, rfl, rfl⟩
    | countRound => exact ⟨.refl _, rfl, rfl, rfl⟩
    | resolve now key prefetch => cases other
    | _ => cases hcalm

/-- Without a lookup, a history can only take temporary pollers out. -/
theorem thins_run (r : Records) {history : List Change}
    (other : ∀ change ∈ history, change.isLookup = false) : Thins r (r.run history) := by
  induction history generalizing r with
  | nil => exact Thins.refl r
  | cons change rest ih =>
    exact (thins_apply r (other change List.mem_cons_self)).trans
      (ih _ fun later hm => other later (List.mem_cons_of_mem change hm))

/-- If none is missing, all temporary pollers stand where they stood. -/
theorem Thins.entries_eq (h : Thins r r') (even : r'.missing = r.missing) :
    r'.cache.byUse.entries = r.cache.byUse.entries := by
  refine h.entries.eq_of_length ?_
  have hcreated := h.created
  have hevicted := h.evicted
  unfold missing KeyMap.size at even
  omega

/-- A document that is to be polled in the background has no temporary poller any more. -/
theorem entries_cover (apart : ∀ id, r.pool.poller? key = some id → r.cache.poller? key = none)
    (callback : CallbackId) :
    (r.cover key callback).cache.byUse.entries = KeyMap.without key r.cache.byUse.entries := by
  have habsent (hnone : r.cache.poller? key = none) :
      KeyMap.without key r.cache.byUse.entries = r.cache.byUse.entries :=
    KeyMap.without_of_not_mem (KeyMap.find_eq_none_iff.mp hnone)
  unfold cover coverage
  cases hpool : r.pool.poller? key with
  | some id => exact (habsent (apart id hpool)).symm
  | none =>
    cases hcache : r.cache.poller? key with
    | some id => rfl
    | none => exact (habsent hcache).symm

/-- A poller that takes itself out leaves the cache if it is there. -/
theorem entries_removePoller
    (apart : ∀ id, r.pool.poller? key = some id → r.cache.poller? key = none) (id : PollerId)
    (cancelled : Bool) :
    (r.removePoller key id cancelled).cache.byUse.entries =
      r.cache.byUse.entries.filter fun entry => entry ≠ (key, id) := by
  have habsent (hother : r.cache.poller? key ≠ some id) :
      r.cache.byUse.entries.filter (fun entry => entry ≠ (key, id)) = r.cache.byUse.entries := by
    refine List.filter_eq_self.mpr fun entry hm => ?_
    have hne : entry ≠ (key, id) := by
      rintro rfl
      exact hother (KeyMap.find_of_mem r.cache.byUse.distinct hm)
    simpa using hne
  unfold removePoller
  dsimp only
  split
  case isTrue hpool =>
    have hnone := apart id hpool
    cases cancelled <;> exact (habsent (by rw [hnone]; exact nofun)).symm
  case isFalse =>
    split
    case isFalse hother => exact (habsent hother).symm
    case isTrue hcache =>
      have hone : KeyMap.without key r.cache.byUse.entries =
          r.cache.byUse.entries.filter fun entry => entry ≠ (key, id) := by
        refine List.filter_congr fun entry hm => ?_
        have hiff : entry.1 = key ↔ entry = (key, id) := by
          refine ⟨fun he => ?_, fun he => by rw [he]⟩
          have hget : r.cache.byUse.get? entry.1 = some entry.2 :=
            (KeyMap.mem_entries_iff _ _ _).mp hm
          rw [he] at hget
          rw [← he, ← Option.some.inj (hget.symm.trans hcache)]
        simp [hiff]
      cases cancelled <;> exact hone

/-- A new temporary poller comes to the front, and the last one goes if there are too many. -/
theorem entries_insert (absent : r.cache.poller? key = none)
    (bounded : r.cache.byUse.size ≤ r.cache.capacity) (positive : 0 < r.cache.capacity)
    (id : PollerId) :
    (r.cache.insert key id).cache.byUse.entries =
      ((key, id) :: r.cache.byUse.entries).take r.cache.capacity := by
  have hnew : key ∉ r.cache.byUse.entries.map Prod.fst := KeyMap.find_eq_none_iff.mp absent
  unfold KeyMap.size at bounded
  unfold LookupCache.insert
  split
  case isTrue hroom =>
    have hfront : KeyMap.without key r.cache.byUse.entries = r.cache.byUse.entries :=
      KeyMap.without_of_not_mem hnew
    rw [List.take_of_length_le (by rw [List.length_cons]; exact hroom)]
    exact congrArg ((key, id) :: ·) hfront
  case isFalse hfull =>
    have hsize : r.cache.byUse.entries.length = r.cache.capacity :=
      Nat.le_antisymm bounded (Nat.not_lt.mp hfull)
    have hfront : KeyMap.without key r.cache.byUse.entries.dropLast =
        r.cache.byUse.entries.dropLast :=
      KeyMap.without_of_not_mem fun hm =>
        hnew (((List.dropLast_sublist _).map Prod.fst).subset hm)
    obtain ⟨room, hroom⟩ := Nat.exists_eq_add_of_lt positive
    rw [Nat.zero_add] at hroom
    rw [hroom, List.take_succ_cons]
    rw [hroom] at hsize
    have hlast : r.cache.byUse.entries.dropLast = r.cache.byUse.entries.take room := by
      rw [List.dropLast_eq_take, hsize, Nat.add_sub_cancel]
    exact congrArg ((key, id) :: ·) (hfront.trans hlast)

/-- A lookup moves the temporary poller of its document to the front, or puts a new one there. -/
theorem entries_resolve (now : Instant) (key : DocumentKey) (prefetch : Bool)
    (bounded : r.cache.byUse.size ≤ r.cache.capacity) (positive : 0 < r.cache.capacity) :
    (r.resolve now key prefetch).cache.byUse.entries =
      if r.pool.poller? key = none then
        (Use.lookedUp key r.pollersMade).apply r.cache.capacity r.cache.byUse.entries
      else r.cache.byUse.entries := by
  have hmarks (r : Records) :
      (if prefetch then { r with marks := r.marks.arm key (r.frontier key) now } else r).cache =
        r.cache := by
    split <;> rfl
  unfold resolve
  dsimp only
  rw [hmarks]
  cases hpool : r.pool.poller? key with
  | some id => rfl
  | none =>
    rw [if_pos rfl, Use.apply]
    cases hcache : r.cache.poller? key with
    | some id =>
      have hfind : KeyMap.find key r.cache.byUse.entries = some id := hcache
      rw [hfind]
      dsimp only
      rw [LookupCache.touch, hcache]
      rfl
    | none =>
      have hfind : KeyMap.find key r.cache.byUse.entries = none := hcache
      rw [hfind]
      exact entries_insert hcache bounded positive r.pollersMade

/-- A lookup does not change how many temporary pollers there may be. -/
theorem capacity_resolve (now : Instant) (key : DocumentKey) (prefetch : Bool) :
    (r.resolve now key prefetch).cache.capacity = r.cache.capacity := by
  have htouch : (r.cache.touch key).capacity = r.cache.capacity := by
    unfold LookupCache.touch
    cases r.cache.poller? key <;> rfl
  have hinsert : (r.cache.insert key r.pollersMade).cache.capacity = r.cache.capacity := by
    unfold LookupCache.insert
    split <;> rfl
  unfold resolve
  cases r.pool.poller? key with
  | some id => cases prefetch <;> rfl
  | none =>
    cases r.cache.poller? key with
    | some id => cases prefetch <;> exact htouch
    | none => cases prefetch <;> exact hinsert

/-! ## What a lookup pushes out -/

/-- The temporary poller that a lookup of a document pushes out of the cache, with its own
document. -/
def pushesOut (r : Records) (key : DocumentKey) : Option (DocumentKey × PollerId) :=
  match r.lookup key with
  | .hinted _ => none
  | .started poller _ => (r.cache.insert key poller).evicted

/-- A lookup of a document pushes this temporary poller out of the cache, and no other. -/
structure Evicts (key : DocumentKey) (out : Option (DocumentKey × PollerId)) (r r' : Records) :
    Prop where
  /-- One is pushed out if the document has no poller and there is no room for one more. -/
  needed : out.isSome = true ↔ r.pool.poller? key = none ∧ r.cache.poller? key = none ∧
    r.cache.byUse.entries.length = r.cache.capacity
  /-- It is the last one of the list. -/
  last : ∀ entry ∈ out, r.cache.byUse.entries.getLast? = some entry
  /-- It is counted. -/
  counted : r'.tally.temporaryEvicted = r.tally.temporaryEvicted + out.toList.length
  /-- It leaves the cache, all others stay. -/
  stays : ∀ entry ∈ r.cache.byUse.entries, entry ∈ r'.cache.byUse.entries ↔ out ≠ some entry
  /-- Its document loses its mark, all others stay as they are. -/
  marks : ∀ other, other ≠ key → r'.marks.get? other =
    if out.map Prod.fst = some other then none else r.marks.get? other
  /-- The document that is looked up does not lose its mark. -/
  own : r.marks.get? key ≠ none → r'.marks.get? key ≠ none

/-- To mark the document that is looked up does nothing else. -/
theorem Evicts.arm {out : Option (DocumentKey × PollerId)} (h : Evicts key out r r')
    (frontier : Frontier) (now : Instant) :
    Evicts key out r { r' with marks := r'.marks.arm key frontier now } where
  needed := h.needed
  last := h.last
  counted := h.counted
  stays := h.stays
  marks other hother :=
    (PrefetchMarks.get?_arm_of_ne r'.marks (Ne.symm hother) frontier now).trans
      (h.marks other hother)
  own _ := by
    dsimp only
    rcases PrefetchMarks.get?_arm r'.marks key frontier now with ⟨start, hmark, harm⟩ | harm
    · rw [harm, hmark]
      exact Option.some_ne_none _
    · rw [harm]
      exact Option.some_ne_none _

/-- A lookup that is served by a poller that is there pushes none out. -/
theorem Evicts.nothing {id : PollerId}
    (present : r.pool.poller? key = some id ∨ r.cache.poller? key = some id)
    (counted : r'.tally.temporaryEvicted = r.tally.temporaryEvicted)
    (cache : ∀ other, r'.cache.poller? other = r.cache.poller? other)
    (marks : r'.marks = r.marks) : Evicts key none r r' where
  needed := by
    refine ⟨nofun, fun ⟨hpool, hcache, _⟩ => ?_⟩
    rcases present with h | h
    · exact absurd (hpool.symm.trans h) nofun
    · exact absurd (hcache.symm.trans h) nofun
  last _ hout := by cases hout
  counted := by rw [counted]; rfl
  stays entry hin := by
    have hafter : r'.cache.poller? entry.1 = some entry.2 :=
      (cache entry.1).trans ((KeyMap.mem_entries_iff _ _ _).mp hin)
    exact ⟨fun _ => nofun, fun _ => (KeyMap.mem_entries_iff _ _ _).mpr hafter⟩
  marks other _ := by rw [marks]; rfl
  own h := by rwa [marks]

/-- A new temporary poller pushes out the last one of a full cache. -/
theorem evicts_makeTemporary (pool : r.pool.poller? key = none)
    (cache : r.cache.poller? key = none) (bounded : r.cache.byUse.size ≤ r.cache.capacity)
    (positive : 0 < r.cache.capacity) :
    Evicts key (r.cache.insert key r.pollersMade).evicted r (r.makeTemporary key) where
  needed := by
    unfold KeyMap.size at bounded
    rw [and_iff_right pool, and_iff_right cache]
    unfold LookupCache.insert
    split
    case isTrue hroom => exact ⟨nofun, fun hfull => absurd hfull (Nat.ne_of_lt hroom)⟩
    case isFalse hfull =>
      have hsize : r.cache.byUse.entries.length = r.cache.capacity :=
        Nat.le_antisymm bounded (Nat.not_lt.mp hfull)
      refine iff_of_true ?_ hsize
      have hsome : r.cache.byUse.entries ≠ [] := List.ne_nil_of_length_pos (hsize ▸ positive)
      exact List.getLast?_isSome.mpr hsome
  last entry hout := by
    unfold LookupCache.insert at hout
    split at hout
    · cases hout
    · exact hout
  counted := rfl
  stays entry hin := by
    have hentry : r.cache.poller? entry.1 = some entry.2 := (KeyMap.mem_entries_iff _ _ _).mp hin
    have hother : key ≠ entry.1 := fun he => by
      rw [← he, cache] at hentry
      cases hentry
    have hafter : entry ∈ (r.makeTemporary key).cache.byUse.entries ↔
        (r.cache.insert key r.pollersMade).cache.poller? entry.1 = some entry.2 :=
      KeyMap.mem_entries_iff _ _ _
    rw [hafter, LookupCache.poller?_insert, if_neg hother, hentry]
    cases hout : (r.cache.insert key r.pollersMade).evicted with
    | none => exact ⟨fun _ => nofun, fun _ => rfl⟩
    | some out =>
      have hgone : r.cache.poller? out.1 = some out.2 := LookupCache.poller?_of_evicted hout
      have hsame : out = entry ↔ out.1 = entry.1 := by
        refine ⟨fun he => by rw [he], fun he => Prod.ext he ?_⟩
        rw [he, hentry] at hgone
        exact (Option.some.inj hgone).symm
      by_cases he : out.1 = entry.1 <;> simp [hsame, he]
  marks other hother := by
    unfold makeTemporary
    dsimp only
    cases (r.cache.insert key r.pollersMade).evicted with
    | none => rfl
    | some out => simp [KeyMap.get?_erase]
  own h := by
    unfold makeTemporary
    dsimp only
    cases hout : (r.cache.insert key r.pollersMade).evicted with
    | none => exact h
    | some out =>
      have hother : out.1 ≠ key := fun he => by
        have hgone : r.cache.poller? out.1 = some out.2 := LookupCache.poller?_of_evicted hout
        rw [he, cache] at hgone
        cases hgone
      rwa [KeyMap.get?_erase, if_neg hother]

/-- A lookup pushes out whom it says, and no other. -/
theorem evicts_resolve (now : Instant) (key : DocumentKey) (prefetch : Bool)
    (bounded : r.cache.byUse.size ≤ r.cache.capacity) (positive : 0 < r.cache.capacity) :
    Evicts key (r.pushesOut key) r (r.resolve now key prefetch) := by
  have harm (r' : Records) (h : Evicts key (r.pushesOut key) r r') :
      Evicts key (r.pushesOut key) r
        (if prefetch then { r' with marks := r'.marks.arm key (r'.frontier key) now } else r') := by
    cases prefetch
    · exact h
    · exact h.arm _ now
  refine harm _ ?_
  unfold pushesOut lookup
  cases hpool : r.pool.poller? key with
  | some id => exact .nothing (.inl hpool) rfl (fun _ => rfl) rfl
  | none =>
    cases hcache : r.cache.poller? key with
    | some id =>
      exact .nothing (.inr hcache) rfl (fun other => LookupCache.poller?_touch _ key other) rfl
    | none => exact evicts_makeTemporary hpool hcache bounded positive

end Records

/-- Whether all temporary pollers are taken out. -/
def Incident.isClearance : Incident → Bool
  | .clearance _ => true
  | _ => false

namespace Watch

variable {u v w : Watch} {key : DocumentKey} {id : PollerId} {p : Poller}

/-! ## The uses of an action -/

/-- What an action means for the list of temporary pollers, if the owner may call the watch and
someone holds it afterwards. -/
def usesIn (w : Watch) : Action → List Use
  | .resolve uri _ _ =>
    if w.records.pool.poller? uri.key = none then [.lookedUp uri.key w.records.pollersMade] else []
  | .subscribe key _ options => if options.persistent || !options.polls then [] else [.covered key]
  | .subscribeContent key _ _ options =>
    if options.persistent || !options.polls then [] else [.covered key]
  | .work (.poller id) =>
    match w.pollers[id]? with
    | none => []
    | some p => if w.retires id p then [.exited p.key id] else []
  | .work .delivery =>
    if (w.incidentsOfTurn .delivery).any Incident.isClearance then [.cleared] else []
  | .shutdown => [.cleared]
  | _ => []

/-- What an action means for the list of temporary pollers. They are all given up when nobody
holds the watch any more. -/
def uses (w : Watch) (action : Action) : List Use :=
  if action.isCall && !w.held then []
  else if (w.act action).isAlive then w.usesIn action
  else [.cleared]

/-- What several actions mean for the list of temporary pollers, in order. -/
def usesOf (w : Watch) : List Action → List Use
  | [] => []
  | action :: rest => w.uses action ++ (w.act action).usesOf rest

/-- The temporary pollers with their documents, in the order of the cache. -/
def temporary (w : Watch) : List (DocumentKey × PollerId) := w.records.cache.byUse.entries

/-! ## Actions without a use -/

/-- Whether an action is a lookup. -/
def Action.isLookup : Action → Bool
  | .resolve _ _ _ => true
  | _ => false

/-- Only a lookup looks something up. -/
theorem not_looksUp_of_interests {action : Action} (other : action.isLookup = false)
    (key : DocumentKey) : .looksUp key ∉ w.interests action := by
  unfold interests
  split
  case isTrue => exact List.not_mem_nil
  case isFalse =>
    intro hm
    cases action with
    | work job =>
      cases job with
      | delivery =>
        unfold meaning at hm
        dsimp only at hm
        split at hm
        · obtain ⟨_, _, he⟩ := ends_of_mem_farewellsOfNext hm
          cases he
        · exact List.not_mem_nil hm
      | _ => exact List.not_mem_nil hm
    | subscribe key' name options =>
      unfold meaning at hm
      dsimp only at hm
      split at hm
      · exact List.not_mem_nil hm
      · obtain ⟨_, _, he⟩ := begins_of_mem_interestOf hm
        cases he
    | subscribeContent key' name quiet options =>
      unfold meaning at hm
      dsimp only at hm
      split at hm
      · exact List.not_mem_nil hm
      · obtain ⟨_, _, he⟩ := begins_of_mem_interestOf hm
        cases he
    | unsubscribe subscription => exact absurd (List.mem_singleton.mp hm) nofun
    | unsubscribeContent subscription => exact absurd (List.mem_singleton.mp hm) nofun
    | resolve uri prefetch name => cases other
    | _ => exact List.not_mem_nil hm

/-- As long as nothing is looked up, temporary pollers can only be taken out. -/
theorem thins_of_leads {story : List Interest} (leads : Leads false w story v)
    (other : ∀ key, .looksUp key ∉ story) : Records.Thins w.records v.records := by
  obtain ⟨changes, hsteps, hstory⟩ := leads
  have hrecords : v.records = w.records.run changes := hsteps.records_eq
  rw [hrecords]
  refine Records.thins_run _ fun change hm => ?_
  cases change with
  | resolve now key prefetch =>
    have hin : .looksUp key ∈ changes.filterMap Records.Change.interest? :=
      List.mem_filterMap.mpr ⟨_, hm, rfl⟩
    rw [hstory] at hin
    exact absurd hin (other key)
  | _ => rfl

/-- Without a lookup, temporary pollers can only be taken out. -/
theorem thins_act {action : Action} (other : action.isLookup = false) :
    Records.Thins w.records (w.act action).records :=
  thins_of_leads (leads_act_anyhow w action) (not_looksUp_of_interests other)

/-- What is done while a target is told something can only take temporary pollers out. -/
theorem thins_callAll (w : Watch) (target : Target) (signals : List Signal) :
    Records.Thins w.records (w.callAll target signals).watch.records :=
  thins_of_leads (leads_callAll w target signals) fun key hin => by
    obtain ⟨_, _, he⟩ := ends_of_mem_leavings hin
    cases he

/-- Without a lookup and if no temporary poller is lost, all stand where they stood. -/
theorem temporary_of_undeparted (numbered : w.Numbered) (founded : w.Founded) {action : Action}
    (other : action.isLookup = false)
    (alive : (w.act action).isAlive = true)
    (undeparted : Incident.total Incident.departed (w.incidents action) = 0) :
    (w.act action).temporary = w.temporary := by
  refine (thins_act other).entries_eq ?_
  have hmissing := (explains_act numbered founded action).missing alive
  rw [undeparted] at hmissing
  exact hmissing.trans (Int.add_zero _)

theorem departed_heardBy (w : Watch) (p : Poller) :
    Incident.total Incident.departed (w.heardBy p) = 0 := lost_heardBy w p _ fun _ _ _ => rfl

theorem departed_dropped (flight? : Option Flight) :
    Incident.total Incident.departed (dropped flight?) = 0 := total_dropped _ (fun _ => rfl) flight?

theorem departed_incidentsOfErrand (w : Watch) (id : Nat) :
    Incident.total Incident.departed (w.incidentsOfErrand id) = 0 := by
  unfold incidentsOfErrand
  split
  · rfl
  · dsimp only
    split
    · rfl
    · split
      · exact departed_dropped _
      · rfl

/-- No temporary poller is lost in the turn of a job, unless it is the last turn of a poller or a
listener stops the watch. -/
theorem departed_incidentsOfTurn {job : Job} (idle : w.usesIn (.work job) = []) :
    Incident.total Incident.departed (w.incidentsOfTurn job) = 0 := by
  cases job with
  | sweeper => rfl
  | delivery =>
    refine Incident.total_eq_zero fun d hd => ?_
    have hstays : d.isClearance = false := by
      refine Bool.eq_false_iff.mpr fun hclears => ?_
      unfold usesIn at idle
      rw [if_pos (List.any_eq_true.mpr ⟨d, hd, hclears⟩)] at idle
      cases idle
    unfold incidentsOfTurn at hd
    dsimp only at hd
    split at hd
    · obtain ⟨uri, fetched, rfl⟩ | ⟨pollers, rfl⟩ := cases_of_mem_sayingsOfNext hd
      · rfl
      · cases hstays
    · cases hd
  | poller id =>
    unfold incidentsOfTurn incidentsOfPoller
    dsimp only
    cases hfound : w.pollers[id]? with
    | none => rfl
    | some p =>
      unfold usesIn at idle
      dsimp only
      cases hretires : w.retires id p with
      | true => simp [hfound, hretires] at idle
      | false =>
        rw [if_neg Bool.false_ne_true]
        exact departed_heardBy w p
  | errand id => exact departed_incidentsOfErrand w id

/-- No temporary poller is lost in an action, unless a document comes to be polled in the
background, or it is the last turn of a poller, or everything is stopped. -/
theorem departed_incidentsIn {action : Action}
    (idle : w.usesIn action = []) :
    Incident.total Incident.departed (w.incidentsIn action) = 0 := by
  have hpromotions (key : DocumentKey) (options : SubscribeOptions)
      (h : (if options.persistent || !options.polls then [] else [Use.covered key]) = []) :
      (if options.persistent then [] else w.promotions key options.polls) = [] := by
    cases hpersistent : options.persistent with
    | true => rfl
    | false =>
      cases hpolls : options.polls with
      | false => rfl
      | true => simp [hpersistent, hpolls] at h
  cases action with
  | work job => exact departed_incidentsOfTurn idle
  | crash job => cases job <;> first | exact departed_dropped _ | rfl
  | dropProbe =>
    refine Incident.total_eq_zero fun d hd => ?_
    obtain ⟨errand, -, hdrop⟩ := List.mem_flatMap.mp hd
    obtain ⟨flight, -, rfl⟩ := List.mem_map.mp hdrop
    rfl
  | subscribe key name options =>
    unfold incidentsIn
    dsimp only
    rw [hpromotions key options idle]
    rfl
  | subscribeContent key name quiet options =>
    unfold incidentsIn
    dsimp only
    rw [hpromotions key options idle]
    rfl
  | probe uri good => exact departed_incidentsOfErrand _ _
  | shutdown => cases idle
  | _ => rfl

/-! ## Actions with a use -/

/-- To cover a document changes the cache as its records say. -/
theorem cache_cover (w : Watch) (key : DocumentKey) (callback : CallbackId)
    (requested : Edition) :
    (w.cover key callback requested).records.cache = (w.records.cover key callback).cache := by
  unfold cover
  dsimp only
  cases w.records.coverage key with
  | started poller =>
    dsimp only
    rw [records_submitPoller, cache_flush]
  | _ => exact cache_flush _

/-- A document that a target is subscribed to with background polling leaves the cache. -/
theorem temporary_subscribeTarget (sound : w.roster.Sound) (key : DocumentKey) (target : Target)
    {options : SubscribeOptions} (polls : options.polls = true) :
    (w.subscribeTarget key target options).watch.temporary = KeyMap.without key w.temporary := by
  let choice := w.callbackFor target options.sparse
  have hchosen : choice.watch.records = w.records :=
    congrArg Roster.records (roster_callbackFor w target options.sparse)
  obtain ⟨hpool, hcache, -⟩ :=
    Records.keepsPollers_register w.records key choice.callback options.requested
  have hattach : (w.subscribeTarget key target options).watch.records.cache =
      ((w.records.register key choice.callback options.requested).cover key
        choice.callback).cache := by
    rw [← hchosen]
    change (choice.watch.attach key choice.callback options).records.cache = _
    unfold attach
    dsimp only
    rw [if_pos polls]
    exact cache_cover _ key choice.callback options.requested
  have happart (id : PollerId)
      (h : (w.records.register key choice.callback options.requested).pool.poller? key = some id) :
      (w.records.register key choice.callback options.requested).cache.poller? key = none := by
    rw [hpool] at h
    rw [hcache]
    exact sound.apart key id h
  unfold temporary
  rw [hattach, Records.entries_cover happart, hcache]

/-- What is told of a watch with a background subscription more. -/
theorem temporary_subscribe (sound : w.roster.Sound) (key : DocumentKey) (name : String)
    {options : SubscribeOptions} (transient : options.persistent = false)
    (polls : options.polls = true) :
    (w.perform (.subscribe key name options)).temporary = KeyMap.without key w.temporary := by
  have hadded : (w.addListener name).roster = w.roster := roster_addListener w name
  have htarget := temporary_subscribeTarget (hadded ▸ sound) key (.listener name) polls
  have hsame : (w.addListener name).temporary = w.temporary :=
    congrArg (fun s : Roster => s.records.cache.byUse.entries) hadded
  rw [hsame] at htarget
  simp only [perform, subscribe, transient, Bool.false_eq_true, if_false]
  exact htarget

/-- What is told of a watch with a background subscription to content more. -/
theorem temporary_subscribeContent (sound : w.roster.Sound) (key : DocumentKey) (name : String)
    (quiet : Bool) {options : SubscribeOptions} (transient : options.persistent = false)
    (polls : options.polls = true) :
    (w.perform (.subscribeContent key name quiet options)).temporary =
      KeyMap.without key w.temporary := by
  have hpolls : SubscribeOptions.polls
      { options with sparse := options.sparse || options.background } = true := by
    unfold SubscribeOptions.polls at polls ⊢
    cases hb : options.background <;> simp_all
  let roomier : Watch := { w with feeds := w.feeds ++ [ContentFeed.fresh name quiet] }
  have htarget := temporary_subscribeTarget (w := roomier) sound key (.feed w.feeds.length) hpolls
  simp only [perform, subscribeContent, transient, Bool.false_eq_true, if_false]
  exact htarget

/-- A shutdown leaves no temporary poller. -/
theorem temporary_shutdown (w : Watch) : w.shutdown.temporary = [] := by
  unfold temporary shutdown
  dsimp only
  rw [cancelPollers_eq]
  rfl

/-- A listener that stops the watch takes all temporary pollers out. -/
theorem temporary_callListener {name : String} {signal : Signal}
    (stops : (w.saying name signal).any Incident.isClearance = true) :
    (w.callListener name signal).watch.temporary = [] := by
  cases signal with
  | round key => cases stops
  | found found =>
    have hlistener : (w.log (.found name found)).listener? name = w.listener? name := rfl
    have halive : (w.log (.found name found)).isAlive = w.isAlive := rfl
    unfold saying at stops
    unfold callListener
    dsimp only at stops ⊢
    rw [hlistener]
    cases hl : w.listener? name with
    | none => simp [hl] at stops
    | some l =>
      simp only [hl] at stops
      dsimp only
      split at stops
      · cases stops
      case isFalse hacts =>
        rw [Bool.or_eq_true, not_or, Bool.not_eq_true, Bool.not_eq_true', Bool.not_eq_false]
          at hacts
        rw [if_neg (Bool.eq_false_iff.mp hacts.1), react, halive, if_pos hacts.2]
        cases hreaction : l.reaction with
        | none => simp [hreaction] at stops
        | some reaction =>
          simp only [hreaction] at stops
          cases reaction with
          | announceNext limit => dsimp only at stops; split at stops <;> cases stops
          | stop => exact temporary_shutdown _
          | _ => cases stops

/-- Once a listener of a target has stopped the watch, no temporary poller comes back with what
the target is told afterwards. -/
theorem temporary_callAll {target : Target} {signals : List Signal}
    (stops : (w.sayings target signals).any Incident.isClearance = true) :
    (w.callAll target signals).watch.temporary = [] := by
  induction signals generalizing w with
  | nil => cases stops
  | cons signal rest ih =>
    unfold sayings at stops
    unfold callAll
    dsimp only at stops ⊢
    rw [List.any_append, Bool.or_eq_true] at stops
    have hlater (now : (w.callTarget target signal).watch.temporary = []) :
        ((w.callTarget target signal).watch.callAll target rest).watch.temporary = [] := by
      have hthins := (thins_callAll (w.callTarget target signal).watch target rest).entries
      have hempty : (w.callTarget target signal).watch.records.cache.byUse.entries = [] := now
      rw [hempty] at hthins
      exact List.sublist_nil.mp hthins
    rcases stops with hfirst | hrest
    · have hnow : (w.callTarget target signal).watch.temporary = [] := by
        cases target with
        | listener name => exact temporary_callListener hfirst
        | feed id => cases hfirst
      split
      · exact hlater hnow
      · exact hnow
    · split at hrest
      case isTrue hreturned => rw [if_pos hreturned]; exact ih hrest
      · cases hrest

/-- A delivery over which a listener stops the watch leaves no temporary poller. -/
theorem temporary_takeTurn
    (stops : (w.incidentsOfTurn .delivery).any Incident.isClearance = true) :
    (w.takeTurn .delivery).temporary = [] := by
  unfold incidentsOfTurn sayingsOfNext at stops
  unfold takeTurn deliverNext
  dsimp only at stops ⊢
  split at stops
  case isFalse => cases stops
  case isTrue hjob =>
    rw [if_pos hjob]
    cases htaken : w.takeDelivery? with
    | none => rw [htaken] at stops; cases stops
    | some taken =>
      obtain ⟨d, v⟩ := taken
      rw [htaken] at stops
      have hdelivered : (v.deliver d).watch.temporary = [] := by
        rw [deliver_eq]
        unfold sayingsOf at stops
        cases hcallback : v.callbacks[d.callback]? with
        | none => simp [hcallback] at stops
        | some callback =>
          simp only [hcallback] at stops
          exact temporary_callAll stops
      unfold settleCall
      dsimp only
      split <;> exact hdelivered

/-- The last turn of a poller ends it, whatever it did in it before. -/
theorem records_of_retires (found : w.pollers[id]? = some p) (last : w.retires id p = true)
    (alive : w.isAlive = true) :
    ∃ cancelled, (w.stepPoller id).watch.records = w.records.removePoller p.key id cancelled := by
  have hends (v : Watch) (hv : v.records = w.records) (halive : v.isAlive = true)
      (cancelled : Bool) :
      (v.endPoller id p.key cancelled).watch.records =
        w.records.removePoller p.key id cancelled := by
    rcases records_endPoller v id p.key cancelled with hr | ⟨hr, hgone | hother⟩
    · rw [hr, hv]
    · rw [halive] at hgone
      cases hgone
    · rw [hr, hv]
      rw [hv] at hother
      exact (Records.removePoller_of_not_indexes hother cancelled).symm
  unfold retires at last
  unfold stepPoller
  rw [found]
  dsimp only
  cases hstage : p.stage with
  | submitted evicted =>
    rw [hstage] at last
    dsimp only at last ⊢
    rw [cancelPollers_eq, if_pos]
    · exact ⟨true, hends _ (by rfl) (by exact alive) true⟩
    · exact last
  | waiting round flight =>
    rw [hstage] at last
    dsimp only at last ⊢
    rw [if_pos last]
    exact ⟨true, hends w rfl alive true⟩
  | resting wake =>
    rw [hstage] at last
    dsimp only at last ⊢
    cases hcancelled : w.isCancelled p with
    | true => exact ⟨true, hends w rfl alive true⟩
    | false =>
      rw [hcancelled, Bool.false_or, Bool.and_eq_true, Bool.not_eq_true'] at last
      rw [last.1, last.2]
      exact ⟨false, hends w rfl alive false⟩
  | rounding round => rw [hstage] at last; cases last
  | ended => rw [hstage] at last; cases last

/-- A lookup moves the temporary poller of its document to the front or puts a new one there,
unless the document is polled in the background. -/
theorem records_perform_resolve (w : Watch) (uri : EditionUri) (prefetch : Bool) (name : String) :
    (w.perform (.resolve uri prefetch name)).records =
      w.records.resolve w.now uri.key prefetch := by
  unfold perform resolve
  dsimp only
  cases w.records.lookup uri.key with
  | hinted poller => rfl
  | started poller evicted => exact records_submitPoller _ _ _

/-! ## What an action leaves of the list -/

/-- Nothing is left in the cache when nobody holds the watch any more. -/
theorem temporary_of_dead (sound : w.roster.Sound) (dead : w.isAlive = false) :
    w.temporary = [] := by
  refine List.eq_nil_of_length_eq_zero (KeyMap.size_eq_zero_of_get? fun key => ?_)
  rw [Option.eq_none_iff_forall_ne_some]
  exact fun id hstored => (sound.gone dead).2 key id (.inr hstored)

/-- The temporary pollers after an action are those that its uses leave. -/
theorem temporary_act (sound : w.roster.Sound) (numbered : w.Numbered) (founded : w.Founded)
    (bounded : w.temporary.length ≤ w.records.cache.capacity)
    (positive : 0 < w.records.cache.capacity) (action : Action) :
    (w.act action).temporary =
      (w.uses action).foldl (Use.apply w.records.cache.capacity) w.temporary := by
  unfold uses
  by_cases hignored : (action.isCall && !w.held) = true
  · rw [if_pos hignored, act, if_pos hignored]
    rfl
  rw [if_neg hignored]
  have hact : w.act action = w.perform action := if_neg hignored
  by_cases halive : (w.act action).isAlive = true
  case neg =>
    rw [if_neg halive]
    exact temporary_of_dead (sound_act sound action) (Bool.not_eq_true _ ▸ halive)
  rw [if_pos halive]
  have hidle (other : action.isLookup = false)
      (idle : w.usesIn action = []) :
      (w.act action).temporary =
        (w.usesIn action).foldl (Use.apply w.records.cache.capacity) w.temporary := by
    rw [idle]
    refine temporary_of_undeparted numbered founded other halive ?_
    rw [incidents, if_neg hignored]
    exact departed_incidentsIn idle
  cases action with
  | resolve uri prefetch name =>
    rw [hact, temporary, records_perform_resolve, Records.entries_resolve _ _ _ bounded positive,
      usesIn]
    split <;> rfl
  | subscribe key name options =>
    by_cases hpolls : (options.persistent || !options.polls) = true
    · exact hidle rfl (if_pos hpolls)
    · rw [hact, usesIn, if_neg hpolls]
      rw [Bool.or_eq_true_iff, not_or, Bool.not_eq_true, Bool.not_eq_true', Bool.not_eq_false]
        at hpolls
      exact temporary_subscribe sound key name hpolls.1 hpolls.2
  | subscribeContent key name quiet options =>
    by_cases hpolls : (options.persistent || !options.polls) = true
    · exact hidle rfl (if_pos hpolls)
    · rw [hact, usesIn, if_neg hpolls]
      rw [Bool.or_eq_true_iff, not_or, Bool.not_eq_true, Bool.not_eq_true', Bool.not_eq_false]
        at hpolls
      exact temporary_subscribeContent sound key name quiet hpolls.1 hpolls.2
  | shutdown => rw [hact]; exact temporary_shutdown w
  | work job =>
    cases job with
    | poller id =>
      cases hfound : w.pollers[id]? with
      | none => exact hidle rfl (by simp only [usesIn, hfound])
      | some p =>
        cases hlast : w.retires id p with
        | false => exact hidle rfl (by simp [usesIn, hfound, hlast])
        | true =>
          have hwatch := (explains_act numbered founded (.work (.poller id))).alive halive
          obtain ⟨cancelled, hrecords⟩ := records_of_retires hfound hlast hwatch
          have huses : w.usesIn (.work (.poller id)) = [.exited p.key id] := by
            simp [usesIn, hfound, hlast]
          have hstep : (w.act (.work (.poller id))).records =
              w.records.removePoller p.key id cancelled := by rw [hact]; exact hrecords
          rw [huses, temporary, hstep]
          exact Records.entries_removePoller (sound.apart p.key) id cancelled
    | delivery =>
      cases hstops : (w.incidentsOfTurn .delivery).any Incident.isClearance with
      | false => exact hidle rfl (by rw [usesIn, hstops, if_neg Bool.false_ne_true])
      | true =>
        rw [usesIn, hstops, if_pos rfl, hact]
        exact temporary_takeTurn hstops
    | _ => exact hidle rfl rfl
  | _ => exact hidle rfl rfl

/-- The cache never changes its size. -/
theorem capacity_act (w : Watch) (action : Action) :
    (w.act action).records.cache.capacity = w.records.cache.capacity := by
  cases action with
  | resolve uri prefetch name =>
    unfold act
    split
    · rfl
    · rw [records_perform_resolve, Records.capacity_resolve]
  | _ => exact (thins_act rfl).capacity

/-- The temporary pollers after a run are those that the uses in it leave. -/
theorem temporary_run (sound : w.roster.Sound) (numbered : w.Numbered) (founded : w.Founded)
    (bounded : w.temporary.length ≤ w.records.cache.capacity)
    (positive : 0 < w.records.cache.capacity) (actions : List Action) :
    (w.run actions).temporary =
      (w.usesOf actions).foldl (Use.apply w.records.cache.capacity) w.temporary := by
  induction actions generalizing w with
  | nil => rfl
  | cons action rest ih =>
    have hact := temporary_act sound numbered founded bounded positive action
    have hcapacity := capacity_act w action
    have hbounded : (w.act action).temporary.length ≤ (w.act action).records.cache.capacity := by
      rw [hact, hcapacity]
      exact Use.length_foldl_le bounded _
    have hrest := ih (sound_act sound action) (numbered_act numbered action)
      ((explains_act numbered founded action).founded founded) hbounded (hcapacity ▸ positive)
    rw [run_cons, hrest, hact, hcapacity, usesOf, List.foldl_append]

/-- No run changes how much room the cache has. -/
theorem capacity_run (w : Watch) (actions : List Action) :
    (w.run actions).records.cache.capacity = w.records.cache.capacity := by
  induction actions generalizing w with
  | nil => rfl
  | cons action rest ih => exact (ih _).trans (capacity_act w action)

/-! ## What becomes of a poller that is pushed out -/

/-- A lookup sends a hint to a poller that is there, or adds one that is not cancelled and that
lists the one that is pushed out, if the executor takes it. -/
theorem pollers_perform_resolve (w : Watch) (uri : EditionUri) (prefetch : Bool)
    (name : String) :
    (∃ id, w.records.pushesOut uri.key = none ∧
      (w.perform (.resolve uri prefetch name)).pollers =
        w.pollers.modify id (·.send (.hint uri.edition))) ∨
    ∃ p : Poller, p.cancelled = false ∧
      (∀ id, id ∈ p.evicted ↔
        w.takes .poller = true ∧ (w.records.pushesOut uri.key).map Prod.snd = some id) ∧
      (w.perform (.resolve uri prefetch name)).pollers = w.pollers ++ [p] := by
  have hstarted {poller : PollerId} {evicted : Option PollerId}
      (h : w.records.lookup uri.key = .started poller evicted) :
      (w.records.cache.insert uri.key poller).evicted.map Prod.snd = evicted := by
    unfold Records.lookup at h
    split at h
    · cases h
    · split at h
      · cases h
      · cases h
        rfl
  unfold perform resolve Records.pushesOut
  dsimp only
  cases hlookup : w.records.lookup uri.key with
  | hinted poller => exact .inl ⟨poller, rfl, rfl⟩
  | started poller evicted =>
    dsimp only
    rw [hstarted hlookup]
    let made : Poller := .create w.settings uri.key uri.edition .once
    cases htakes : w.takes .poller with
    | true =>
      refine .inr ⟨{ made with stage := .submitted evicted.toList }, rfl, fun id => ?_, ?_⟩
      · rw [and_iff_right rfl]
        exact Option.mem_toList
      · exact congrArg Watch.pollers (if_pos htakes)
    | false =>
      refine .inr ⟨{ made with stage := .ended }, rfl, fun id => ?_, ?_⟩
      · exact iff_of_false List.not_mem_nil nofun
      · exact congrArg Watch.pollers (if_neg (by exact Bool.eq_false_iff.mp htakes))

/-- A lookup lists the poller that it pushes out with the one that takes its place, if the
executor takes that one. -/
theorem listed_perform_resolve (w : Watch) (uri : EditionUri) (prefetch : Bool) (name : String)
    (id : PollerId) :
    (w.perform (.resolve uri prefetch name)).roster.Listed id ↔ w.roster.Listed id ∨
      w.takes .poller = true ∧ (w.records.pushesOut uri.key).map Prod.snd = some id := by
  rcases pollers_perform_resolve w uri prefetch name with
    ⟨other, hnone, hpollers⟩ | ⟨p, -, hevicted, hpollers⟩
  · have hsame : (w.perform (.resolve uri prefetch name)).roster.Listed id ↔
        w.roster.Listed id := by
      refine exists_congr fun j => ?_
      change (∃ q, (w.perform (.resolve uri prefetch name)).pollers[j]? = some q ∧ _) ↔
        ∃ q, w.pollers[j]? = some q ∧ _
      rw [hpollers, List.getElem?_modify]
      cases w.pollers[j]? with
      | none => simp
      | some q => by_cases ho : other = j <;> simp [ho, Poller.send, Poller.evicted]
    rw [hsame, hnone]
    simp
  · have hlisted (v : Watch) : v.roster.Listed id ↔ ∃ q ∈ v.pollers, id ∈ q.evicted := by
      constructor
      · rintro ⟨j, q, hq, hin⟩
        exact ⟨q, List.mem_of_getElem? hq, hin⟩
      · rintro ⟨q, hq, hin⟩
        obtain ⟨j, hj⟩ := List.mem_iff_getElem?.mp hq
        exact ⟨j, q, hj, hin⟩
    rw [hlisted, hlisted, hpollers, ← hevicted id]
    simp [or_and_right, exists_or]

/-- A lookup cancels no poller. -/
theorem cancelled_perform_resolve (w : Watch) (uri : EditionUri) (prefetch : Bool) (name : String)
    (id : PollerId) :
    ((w.perform (.resolve uri prefetch name)).pollers[id]?).any Poller.cancelled =
      (w.pollers[id]?).any Poller.cancelled := by
  rcases pollers_perform_resolve w uri prefetch name with
    ⟨other, -, hpollers⟩ | ⟨p, hlive, -, hpollers⟩
  · rw [hpollers, List.getElem?_modify]
    cases w.pollers[id]? with
    | none => rfl
    | some q => by_cases ho : other = id <;> simp [ho, Poller.send]
  · rw [hpollers]
    by_cases hid : id < w.pollers.length
    · rw [List.getElem?_append_left hid]
    · have hafter : w.pollers.length ≤ id := Nat.not_lt.mp hid
      rw [List.getElem?_append_right hafter, List.getElem?_eq_none hafter]
      cases id - w.pollers.length <;> simp [hlive]

/-- The temporary pollers are those that the uses of a run leave, in the order in which their
documents were looked up last, and there are never more than there is room for. A lookup pushes one
of them out if its document has no poller and the cache is full, and then it is the last one: it is
listed for cancellation with the new poller, and its document loses its mark. -/
theorem temporary_exact (settings : Settings) (listeners : List Listener)
    (actions : List Action) :
    let start := initial settings listeners
    let w := start.run actions
    let capacity := max settings.maxTemporary.toNat 1
    w.records.cache.capacity = capacity ∧
      w.temporary = Use.recent capacity (start.usesOf actions) ∧
      w.temporary.length ≤ capacity ∧
      Use.InOrder w.temporary (Use.lookups (start.usesOf actions)) ∧
      (∀ entry ∈ w.temporary, w.records.pool.poller? entry.1 = none) ∧
      ∀ uri prefetch name, w.held = true →
        let v := w.act (.resolve uri prefetch name)
        ∃ out, Records.Evicts uri.key out w.records v.records ∧
          (∀ id, v.roster.Listed id ↔ w.roster.Listed id ∨
            w.takes .poller = true ∧ out.map Prod.snd = some id) ∧
          ∀ id : PollerId,
            (v.pollers[id]?).any Poller.cancelled = (w.pollers[id]?).any Poller.cancelled := by
  intro start w capacity
  have hsound : w.roster.Sound := sound_run settings listeners actions
  have hcapacity : w.records.cache.capacity = capacity := capacity_run start actions
  have hpositive : 0 < capacity := Nat.lt_of_lt_of_le Nat.one_pos (Nat.le_max_right _ _)
  have htemporary : w.temporary = Use.recent capacity (start.usesOf actions) :=
    temporary_run (sound_initial settings listeners) (numbered_initial settings listeners)
      (founded_initial settings listeners) (Nat.zero_le _) hpositive actions
  have hbounded : w.temporary.length ≤ capacity := by
    rw [htemporary]
    exact Use.length_foldl_le (Nat.zero_le _) _
  refine ⟨hcapacity, htemporary, hbounded, ?_, fun entry hin => ?_,
    fun uri prefetch name hheld => ?_⟩
  · rw [htemporary]
    exact Use.inOrder_recent _ _
  · cases hpool : w.records.pool.poller? entry.1 with
    | none => rfl
    | some id =>
      have hcached : w.records.cache.poller? entry.1 = some entry.2 :=
        (KeyMap.mem_entries_iff _ _ _).mp hin
      exact absurd ((hsound.apart _ _ hpool).symm.trans hcached) nofun
  · rw [act_of_held hheld]
    refine ⟨w.records.pushesOut uri.key, ?_, listed_perform_resolve w uri prefetch name,
      cancelled_perform_resolve w uri prefetch name⟩
    rw [records_perform_resolve]
    exact Records.evicts_resolve _ _ _ (hcapacity ▸ hbounded) (hcapacity ▸ hpositive)

/-- There is room for two temporary pollers. The document that was looked up first is looked up
again, and the other one comes to be polled in the background; a lookup of it is not counted any
more. So the first one is the last of the list after a third document was looked up, and has to go
for a fourth one; its mark goes with it. -/
theorem temporary_exact_of_full_cache :
    let document (name : String) : DocumentKey := ⟨.uniform 7, name⟩
    let settings : Settings := { Settings.standard with maxTemporary := 2 }
    let actions : List Action :=
      [.resolve ⟨document "ants", 0⟩ true "first", .resolve ⟨document "bees", 0⟩ true "second",
        .resolve ⟨document "ants", 3⟩ false "third",
        .subscribe (document "bees") "ann" { background := true },
        .resolve ⟨document "cats", 0⟩ true "fourth", .resolve ⟨document "bees", 5⟩ false "fifth"]
    let w := (initial settings []).run actions
    let v := w.act (.resolve ⟨document "dogs", 0⟩ false "sixth")
    (w.held = true ∧ w.temporary = [(document "cats", 2), (document "ants", 0)] ∧
      w.records.marks.get? (document "ants") = some .idle) ∧
    v.records.tally.temporaryEvicted = 1 ∧
      (document "ants", 0) ∉ v.temporary ∧ (document "cats", 2) ∈ v.temporary ∧
      v.records.marks.get? (document "ants") = none ∧
      (∀ id, v.roster.Listed id ↔ w.roster.Listed id ∨ id = 0) := by
  intro document settings actions
  dsimp only
  obtain ⟨-, -, -, -, -, hlookup⟩ := temporary_exact settings [] actions
  have hbefore : ((initial settings []).run actions).held = true ∧
      ((initial settings []).run actions).temporary =
        [(document "cats", 2), (document "ants", 0)] ∧
      ((initial settings []).run actions).records.marks.get? (document "ants") = some .idle := by
    decide
  obtain ⟨out, hevicts, hlisted, -⟩ := hlookup ⟨document "dogs", 0⟩ false "sixth" hbefore.1
  have hfull : ((initial settings []).run actions).records.pool.poller? (document "dogs") = none ∧
      ((initial settings []).run actions).records.cache.poller? (document "dogs") = none ∧
      ((initial settings []).run actions).records.cache.byUse.entries.length =
        ((initial settings []).run actions).records.cache.capacity := by decide
  have hout : out = some (document "ants", 0) := by
    obtain ⟨entry, hentry⟩ := Option.isSome_iff_exists.mp (hevicts.needed.mpr hfull)
    have hlast : ((initial settings []).run actions).temporary.getLast? = some entry :=
      hevicts.last entry hentry
    rw [hbefore.2.1] at hlast
    rw [hentry, ← hlast]
    rfl
  subst hout
  have hgone : (document "ants", 0) ∈ ((initial settings []).run actions).temporary ∧
      (document "cats", 2) ∈ ((initial settings []).run actions).temporary := by
    rw [hbefore.2.1]
    decide
  have hnone : ((initial settings []).run actions).records.tally.temporaryEvicted = 0 := by decide
  refine ⟨hbefore, by rw [hevicts.counted, hnone]; rfl,
    fun hin => (hevicts.stays _ hgone.1).mp hin rfl,
    (hevicts.stays _ hgone.2).mpr (by decide), ?_, fun id => ?_⟩
  · exact (hevicts.marks _ (by decide)).trans (if_pos rfl)
  · have htakes : ((initial settings []).run actions).takes .poller = true := by decide
    rw [hlisted id, htakes]
    simp [eq_comm]

end Watch

end EditionWatch
