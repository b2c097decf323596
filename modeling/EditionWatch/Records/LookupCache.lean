import EditionWatch.Records.PollerPool

/-!
# Temporary pollers

Lookups keep their pollers in a cache of bounded size, in the order of their last use. A
poller that does not fit any more pushes out the one that was not used for longest.
-/

namespace EditionWatch

/-- The temporary pollers by document. -/
structure LookupCache where
  /-- How many pollers are kept at most. -/
  capacity : Nat
  /-- The pollers, most recently used first. -/
  byUse : KeyMap DocumentKey PollerId
  deriving DecidableEq

namespace LookupCache

/-- The empty cache for so many pollers; it holds one even if zero are asked for. -/
def ofCapacity (n : Nat) : LookupCache := ⟨max n 1, .empty⟩

/-- The poller of a document. -/
def poller? (cache : LookupCache) (key : DocumentKey) : Option PollerId := cache.byUse.get? key

/-- Forgets the poller of a document. -/
def erase (cache : LookupCache) (key : DocumentKey) : LookupCache :=
  { cache with byUse := cache.byUse.erase key }

/-- Forgets all pollers. -/
def clear (cache : LookupCache) : LookupCache := { cache with byUse := .empty }

/-- Marks the poller of a document as used just now. -/
def touch (cache : LookupCache) (key : DocumentKey) : LookupCache :=
  match cache.poller? key with
  | none => cache
  | some poller => { cache with byUse := cache.byUse.pushFront key poller }

/-- A cache with a new poller in it, and what had to go. -/
structure Insertion where
  /-- The cache with the new poller. -/
  cache : LookupCache
  /-- The document and poller that were pushed out. -/
  evicted : Option (DocumentKey × PollerId)

/-- Puts in the poller of a document that has none; the last entry of a full cache goes. -/
def insert (cache : LookupCache) (key : DocumentKey) (poller : PollerId) : Insertion :=
  if cache.byUse.size < cache.capacity then
    ⟨{ cache with byUse := cache.byUse.pushFront key poller }, none⟩
  else
    ⟨{ cache with byUse := cache.byUse.dropLast.pushFront key poller }, cache.byUse.last?⟩

/-- All pollers of the cache. -/
def pollers (cache : LookupCache) : List PollerId := cache.byUse.values

/-- A document that was erased has no poller. -/
theorem poller?_erase (cache : LookupCache) (key other : DocumentKey) :
    (cache.erase key).poller? other = if key = other then none else cache.poller? other :=
  KeyMap.get?_erase cache.byUse key other

/-- Use changes only the order of the pollers. -/
@[simp] theorem poller?_touch (cache : LookupCache) (key other : DocumentKey) :
    (cache.touch key).poller? other = cache.poller? other := by
  unfold touch
  cases h : cache.poller? key with
  | none => rfl
  | some poller =>
    dsimp only
    rw [poller?, KeyMap.get?_pushFront]
    split
    case isTrue hk => rw [← hk, h]
    case isFalse => rfl

/-- What is pushed out was in the cache. -/
theorem poller?_of_evicted {cache : LookupCache} {key old : DocumentKey}
    {poller evicted : PollerId} (h : (cache.insert key poller).evicted = some (old, evicted)) :
    cache.poller? old = some evicted := by
  unfold insert at h
  split at h
  · cases h
  · exact KeyMap.get?_of_last? h

/-- A new poller leaves all others where they are, but for the one that is pushed out. -/
theorem poller?_insert (cache : LookupCache) (key other : DocumentKey) (poller : PollerId) :
    (cache.insert key poller).cache.poller? other =
      if key = other then some poller
      else if (cache.insert key poller).evicted.map Prod.fst = some other then none
      else cache.poller? other := by
  unfold insert
  split
  case isTrue =>
    rw [poller?, KeyMap.get?_pushFront]
    simp [poller?]
  case isFalse =>
    dsimp only
    rw [poller?, KeyMap.get?_pushFront]
    split
    case isTrue => rfl
    case isFalse =>
      cases h : cache.byUse.last? with
      | none =>
        have he : cache.byUse.entries = [] := List.getLast?_eq_none_iff.mp h
        simp [poller?, KeyMap.get?, KeyMap.dropLast, he]
      | some entry =>
        obtain ⟨old, evicted⟩ := entry
        rw [KeyMap.get?_dropLast h]
        simp [poller?]

/-- Use changes nothing about the number of pollers. -/
theorem size_touch (cache : LookupCache) (key : DocumentKey) :
    (cache.touch key).byUse.size = cache.byUse.size := by
  unfold touch
  cases h : cache.poller? key with
  | none => rfl
  | some poller =>
    have hsome : cache.byUse.get? key ≠ none := by
      rw [show cache.byUse.get? key = some poller from h]
      exact Option.some_ne_none poller
    exact (KeyMap.size_pushFront _ _ _).trans (by rw [if_neg hsome, Nat.add_zero])

/-- There is one poller more after a new one was put in, but for the one that was pushed out. -/
theorem size_insert {cache : LookupCache} {key : DocumentKey} (h : cache.poller? key = none)
    (poller : PollerId) :
    (cache.insert key poller).cache.byUse.size +
      (cache.insert key poller).evicted.toList.length = cache.byUse.size + 1 := by
  rw [poller?] at h
  unfold insert
  split
  case isTrue =>
    have hfront := KeyMap.size_pushFront cache.byUse key poller
    rw [if_pos h] at hfront
    exact hfront
  case isFalse =>
    have hgone : cache.byUse.dropLast.get? key = none := by
      cases hlast : cache.byUse.last? with
      | none =>
        have hnil : cache.byUse.entries = [] := List.getLast?_eq_none_iff.mp hlast
        simp [KeyMap.get?, KeyMap.dropLast, hnil, KeyMap.find]
      | some entry =>
        obtain ⟨old, evicted⟩ := entry
        rw [KeyMap.get?_dropLast hlast]
        split
        · rfl
        · exact h
    have hfront := KeyMap.size_pushFront cache.byUse.dropLast key poller
    rw [if_pos hgone] at hfront
    have hdrop := KeyMap.size_dropLast cache.byUse
    dsimp only
    omega

/-- The pollers of a cache are those of its documents. -/
theorem mem_pollers_iff (cache : LookupCache) (poller : PollerId) :
    poller ∈ cache.pollers ↔ ∃ key, cache.poller? key = some poller :=
  KeyMap.mem_values_iff cache.byUse poller

end LookupCache

end EditionWatch
