import EditionWatch.Records.Registry

/-!
# Background pollers

A document has a background poller for as long as some callback is subscribed to it with
background polling.
-/

namespace EditionWatch

/-- The identity of a poller. -/
abbrev PollerId := Nat

/-- A background poller and those for whom it polls. -/
structure PoolEntry where
  /-- The poller. -/
  poller : PollerId
  /-- The callbacks with background polling, in the order of their coming. -/
  subscribers : List CallbackId
  deriving DecidableEq

/-- The background pollers of all documents that have one. -/
abbrev PollerPool := KeyMap DocumentKey PoolEntry

namespace PollerPool

/-- The background poller of a document. -/
def poller? (pool : PollerPool) (key : DocumentKey) : Option PollerId :=
  (pool.get? key).map PoolEntry.poller

/-- The callbacks for which a document is polled in the background. -/
def subscribers (pool : PollerPool) (key : DocumentKey) : List CallbackId :=
  ((pool.get? key).map PoolEntry.subscribers).getD []

/-- Gives a document a poller, for nobody yet. -/
def start (pool : PollerPool) (key : DocumentKey) (poller : PollerId) : PollerPool :=
  pool.insert key ⟨poller, []⟩

/-- Adds a callback to those for whom a document is polled. -/
def join (pool : PollerPool) (key : DocumentKey) (callback : CallbackId) : PollerPool :=
  match pool.get? key with
  | none => pool
  | some entry =>
    if callback ∈ entry.subscribers then pool
    else pool.insert key { entry with subscribers := entry.subscribers ++ [callback] }

/-- The pool without a callback, and the poller that is of no use without it. -/
structure Departure where
  /-- The pool that is left. -/
  pool : PollerPool
  /-- The poller that nobody needs any more. -/
  idle : Option PollerId

/-- Removes a callback from those for whom a document is polled. -/
def leave (pool : PollerPool) (key : DocumentKey) (callback : CallbackId) : Departure :=
  match pool.get? key with
  | none => ⟨pool, none⟩
  | some entry =>
    let left := entry.subscribers.filter (· ≠ callback)
    if left.isEmpty then ⟨pool.erase key, some entry.poller⟩
    else ⟨pool.insert key { entry with subscribers := left }, none⟩

/-- All pollers of the pool. -/
def pollers (pool : PollerPool) : List PollerId := pool.values.map PoolEntry.poller

/-- A poller that was started is that of its document. -/
theorem poller?_start (pool : PollerPool) (key other : DocumentKey) (poller : PollerId) :
    (pool.start key poller).poller? other =
      if key = other then some poller else pool.poller? other := by
  rw [poller?, start, KeyMap.get?_insert]
  split <;> rfl

/-- A document that was erased has no poller. -/
theorem poller?_erase (pool : PollerPool) (key other : DocumentKey) :
    PollerPool.poller? (pool.erase key) other =
      if key = other then none else pool.poller? other := by
  rw [poller?, KeyMap.get?_erase]
  split <;> rfl

/-- Joining leaves every document its poller. -/
@[simp] theorem poller?_join (pool : PollerPool) (key other : DocumentKey)
    (callback : CallbackId) : (pool.join key callback).poller? other = pool.poller? other := by
  unfold join
  cases h : pool.get? key with
  | none => rfl
  | some entry =>
    dsimp only
    split
    · rfl
    · rw [poller?, KeyMap.get?_insert]
      split
      case isTrue hk => rw [poller?, ← hk, h]; rfl
      case isFalse => rfl

/-- The poller that nobody needs any more was that of the document. -/
theorem poller?_of_idle {pool : PollerPool} {key : DocumentKey} {callback : CallbackId}
    {poller : PollerId} (h : (pool.leave key callback).idle = some poller) :
    pool.poller? key = some poller := by
  unfold leave at h
  cases hg : pool.get? key with
  | none => rw [hg] at h; cases h
  | some entry =>
    rw [hg] at h
    dsimp only at h
    split at h
    · rw [poller?, hg]
      exact h
    · cases h

/-- Leaving takes the poller from a document if nobody needs it any more. -/
theorem poller?_leave (pool : PollerPool) (key other : DocumentKey) (callback : CallbackId) :
    (pool.leave key callback).pool.poller? other =
      if key = other ∧ (pool.leave key callback).idle.isSome then none
      else pool.poller? other := by
  unfold leave
  cases h : pool.get? key with
  | none => simp
  | some entry =>
    dsimp only
    split
    · simp [poller?_erase]
    · rw [poller?, KeyMap.get?_insert]
      split
      case isTrue hk => simp [poller?, ← hk, h]
      case isFalse hk => simp [hk, poller?]

/-- The subscribers of a document are those of its entry. -/
theorem subscribers_of_get? {pool : PollerPool} {key : DocumentKey} {entry : PoolEntry}
    (h : pool.get? key = some entry) : pool.subscribers key = entry.subscribers := by
  rw [subscribers, h]
  rfl

/-- A document without a poller is polled for nobody. -/
theorem subscribers_of_poller? {pool : PollerPool} {key : DocumentKey}
    (h : pool.poller? key = none) : pool.subscribers key = [] := by
  rw [subscribers, Option.map_eq_none_iff.mp h]
  rfl

/-- A poller that was started has no subscribers yet. -/
theorem subscribers_start (pool : PollerPool) (key other : DocumentKey) (poller : PollerId) :
    (pool.start key poller).subscribers other =
      if key = other then [] else pool.subscribers other := by
  rw [subscribers, start, KeyMap.get?_insert]
  split <;> rfl

/-- A document that was erased has no subscribers. -/
theorem subscribers_erase (pool : PollerPool) (key other : DocumentKey) :
    PollerPool.subscribers (pool.erase key) other =
      if key = other then [] else pool.subscribers other := by
  rw [subscribers, KeyMap.get?_erase]
  split <;> rfl

/-- A callback joins those for whom a document is polled, if it is polled at all. -/
theorem subscribers_join {pool : PollerPool} {key : DocumentKey} (h : pool.poller? key ≠ none)
    (other : DocumentKey) (callback : CallbackId) :
    (pool.join key callback).subscribers other =
      if key = other ∧ callback ∉ pool.subscribers other then
        pool.subscribers other ++ [callback]
      else pool.subscribers other := by
  unfold join
  cases hg : pool.get? key with
  | none => exact absurd (Option.map_eq_none_iff.mpr hg) h
  | some entry =>
    have hs : pool.subscribers key = entry.subscribers := subscribers_of_get? hg
    dsimp only
    by_cases hk : key = other
    · subst hk
      rw [hs]
      split
      case isTrue hin => simp [hin, hs]
      case isFalse hin => simp [hin, subscribers]
    · split
      case isTrue => simp [hk]
      case isFalse => simp [hk, subscribers, KeyMap.get?_insert]

/-- Who leaves a document is not among its subscribers any more. -/
theorem subscribers_leave (pool : PollerPool) (key other : DocumentKey) (callback : CallbackId) :
    (pool.leave key callback).pool.subscribers other =
      if key = other then (pool.subscribers other).filter (· ≠ callback)
      else pool.subscribers other := by
  unfold leave
  cases hg : pool.get? key with
  | none =>
    have hn : pool.subscribers key = [] :=
      subscribers_of_poller? (Option.map_eq_none_iff.mpr hg)
    dsimp only
    split
    case isTrue hk => rw [← hk, hn]; rfl
    case isFalse => rfl
  | some entry =>
    have hs : pool.subscribers key = entry.subscribers := subscribers_of_get? hg
    dsimp only
    split
    case isTrue he =>
      rw [subscribers_erase]
      split
      case isTrue hk => rw [← hk, hs, List.isEmpty_iff.mp he]
      case isFalse => rfl
    case isFalse =>
      rw [subscribers, KeyMap.get?_insert]
      split
      case isTrue hk => rw [← hk, hs]; rfl
      case isFalse => rfl

/-- Every document that has a background poller is polled for someone. -/
def Staffed (pool : PollerPool) : Prop :=
  ∀ key entry, pool.get? key = some entry → entry.subscribers ≠ []

/-- Whoever joins makes up for a poller that is there for nobody yet. -/
theorem staffed_join {pool : PollerPool} {key : DocumentKey}
    (h : ∀ other entry, other ≠ key → pool.get? other = some entry → entry.subscribers ≠ [])
    (callback : CallbackId) : (pool.join key callback).Staffed := by
  intro other entry he
  unfold join at he
  cases hg : pool.get? key with
  | none =>
    rw [hg] at he
    refine h other entry (fun hk => ?_) he
    rw [hk, hg] at he
    cases he
  | some present =>
    rw [hg] at he
    dsimp only at he
    split at he
    case isTrue hin =>
      by_cases hk : other = key
      · rw [hk, hg, Option.some.injEq] at he
        rw [← he]
        exact List.ne_nil_of_mem hin
      · exact h other entry hk he
    case isFalse =>
      rw [KeyMap.get?_insert] at he
      split at he
      case isTrue =>
        cases he
        exact List.append_ne_nil_of_right_ne_nil _ (List.cons_ne_nil callback [])
      case isFalse hk => exact h other entry (fun hk' => hk hk'.symm) he

/-- To erase a document leaves no poller without subscribers. -/
theorem staffed_erase {pool : PollerPool} (h : pool.Staffed) (key : DocumentKey) :
    Staffed (pool.erase key) := by
  intro other entry he
  rw [KeyMap.get?_erase] at he
  split at he
  · cases he
  · exact h other entry he

/-- Whoever leaves takes along a poller that is there for nobody else. -/
theorem staffed_leave {pool : PollerPool} (h : pool.Staffed) (key : DocumentKey)
    (callback : CallbackId) : (pool.leave key callback).pool.Staffed := by
  unfold leave
  cases hg : pool.get? key with
  | none => exact h
  | some present =>
    dsimp only
    split
    case isTrue => exact staffed_erase h key
    case isFalse hleft =>
      intro other entry he
      rw [KeyMap.get?_insert] at he
      split at he
      case isTrue =>
        cases he
        exact fun hn => hleft (List.isEmpty_iff.mpr hn)
      case isFalse => exact h other entry he

/-- The pollers of a pool are those of its documents. -/
theorem mem_pollers_iff (pool : PollerPool) (poller : PollerId) :
    poller ∈ pool.pollers ↔ ∃ key, pool.poller? key = some poller := by
  simp only [pollers, List.mem_map, KeyMap.mem_values_iff, poller?, Option.map_eq_some_iff]
  constructor
  · rintro ⟨entry, ⟨key, hk⟩, he⟩
    exact ⟨key, entry, hk, he⟩
  · rintro ⟨key, entry, hk, he⟩
    exact ⟨entry, ⟨key, hk⟩, he⟩

end PollerPool

end EditionWatch
