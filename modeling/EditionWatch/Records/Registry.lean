import EditionWatch.Records.Frontier

/-!
# Subscribers

Each document has its subscribers in the order of their registration. A subscriber hears of
an edition above the one it asked for if that is newer than what it heard last, or if the
edition it heard last has become known good. A callback registers at most once per document.
-/

namespace EditionWatch

/-- The identity of a callback. -/
abbrev CallbackId := Nat

/-- The news that an edition of a document was found. -/
structure Found where
  /-- The document. -/
  key : DocumentKey
  /-- The edition. -/
  edition : Edition
  /-- Whether its content was fetched. -/
  good : Bool
  /-- Whether it is a new slot as well. -/
  newSlot : Bool
  deriving DecidableEq

/-- The edition that a found one has as its URI. -/
def Found.uri (found : Found) : EditionUri := ⟨found.key, found.edition⟩

/-- What a subscriber heard last. -/
structure Heard where
  /-- The edition. -/
  edition : Edition
  /-- Whether it was known good. -/
  good : Bool
  deriving DecidableEq

/-- A registered callback. -/
structure Subscriber where
  /-- The callback. -/
  callback : CallbackId
  /-- Only editions above this one are of interest. -/
  requested : Edition
  /-- What it heard last. -/
  heard : Option Heard
  deriving DecidableEq

/-- A call that a callback is due. -/
inductive Delivery where
  /-- An edition was found. -/
  | found (callback : CallbackId) (found : Found)
  /-- A polling round of the document is over. -/
  | round (callback : CallbackId) (key : DocumentKey)
  deriving DecidableEq

namespace Subscriber

/-- Whether an edition is news to someone who heard `heard` last. -/
def isNews (found : Found) : Option Heard → Bool
  | none => true
  | some heard =>
    heard.edition < found.edition
      || (found.edition = heard.edition && found.good && !heard.good)

/-- Whether a subscriber wants to hear of an edition. -/
def wants (s : Subscriber) (found : Found) : Bool :=
  s.requested < found.edition && isNews found s.heard

/-- The subscriber after it was told of an edition, if it wanted to hear of it. -/
def tell (s : Subscriber) (found : Found) : Subscriber :=
  if s.wants found then { s with heard := some ⟨found.edition, found.good⟩ } else s

/-- The deliveries by which a subscriber is told of an edition: one, or none. -/
def deliveries (s : Subscriber) (found : Found) : List Delivery :=
  if s.wants found then [.found s.callback found] else []

@[simp] theorem callback_tell (s : Subscriber) (found : Found) :
    (s.tell found).callback = s.callback := by
  unfold tell
  split <;> rfl

@[simp] theorem requested_tell (s : Subscriber) (found : Found) :
    (s.tell found).requested = s.requested := by
  unfold tell
  split <;> rfl

end Subscriber

/-- The subscribers of all documents that have some. -/
abbrev Registry := KeyMap DocumentKey (List Subscriber)

namespace Registry

/-- The subscribers of one document. -/
def of (r : Registry) (key : DocumentKey) : List Subscriber := (r.get? key).getD []

/-- Puts the subscribers of a document into place; an empty list is not kept. -/
def put (r : Registry) (key : DocumentKey) (subscribers : List Subscriber) : Registry :=
  if subscribers.isEmpty then r.erase key else r.insert key subscribers

/-- Whether a callback is registered for a document. -/
def has (r : Registry) (key : DocumentKey) (callback : CallbackId) : Bool :=
  (r.of key).any fun s => s.callback = callback

/-- Registers a callback; one that is registered already keeps its registration. -/
def add (r : Registry) (key : DocumentKey) (callback : CallbackId) (requested : Edition) :
    Registry :=
  if r.has key callback then r else r.put key (r.of key ++ [⟨callback, requested, none⟩])

/-- Removes a callback from a document. -/
def remove (r : Registry) (key : DocumentKey) (callback : CallbackId) : Registry :=
  if r.has key callback then
    r.put key ((r.of key).filter fun s => s.callback ≠ callback)
  else r

/-- Tells every subscriber of the document of an edition. -/
def tellAll (r : Registry) (found : Found) : Registry :=
  r.put found.key ((r.of found.key).map (·.tell found))

/-- The deliveries by which every subscriber is told, in the order of registration. -/
def deliveriesToAll (r : Registry) (found : Found) : List Delivery :=
  (r.of found.key).flatMap (·.deliveries found)

/-- Tells one callback of an edition. -/
def tellOne (r : Registry) (callback : CallbackId) (found : Found) : Registry :=
  r.put found.key
    ((r.of found.key).map fun s => if s.callback = callback then s.tell found else s)

/-- The deliveries by which one callback is told. -/
def deliveriesToOne (r : Registry) (callback : CallbackId) (found : Found) : List Delivery :=
  (r.of found.key).flatMap fun s => if s.callback = callback then s.deliveries found else []

/-- The deliveries by which every subscriber learns that a round is over. -/
def roundDeliveries (r : Registry) (key : DocumentKey) : List Delivery :=
  (r.of key).map fun s => .round s.callback key

/-- The number of registrations. -/
def count (r : Registry) : Nat := r.values.flatten.length

/-- To put subscribers of a document changes no other document. -/
theorem of_put (r : Registry) (key other : DocumentKey) (subscribers : List Subscriber) :
    (r.put key subscribers).of other = if key = other then subscribers else r.of other := by
  unfold put
  split
  case isTrue h =>
    rw [of, KeyMap.get?_erase, List.isEmpty_iff.mp h]
    split <;> rfl
  case isFalse h =>
    rw [of, KeyMap.get?_insert]
    split <;> rfl

/-- The count goes by the subscribers that are put and those that were there. -/
theorem count_put (r : Registry) (key : DocumentKey) (subscribers : List Subscriber) :
    (r.put key subscribers).count + (r.of key).length = r.count + subscribers.length := by
  unfold put
  split
  case isTrue h =>
    rw [List.isEmpty_iff.mp h]
    exact KeyMap.length_flatten_erase r key
  case isFalse h => exact KeyMap.length_flatten_insert r key subscribers

/-- Subscribers that are changed in their place stay as many. -/
theorem count_put_map (r : Registry) (key : DocumentKey) (change : Subscriber → Subscriber) :
    (r.put key ((r.of key).map change)).count = r.count := by
  have hput := count_put r key ((r.of key).map change)
  rw [List.length_map] at hput
  exact Nat.add_right_cancel hput

/-- A callback is registered exactly if a subscriber has it. -/
theorem has_iff (r : Registry) (key : DocumentKey) (callback : CallbackId) :
    r.has key callback = true ↔ ∃ s ∈ r.of key, s.callback = callback := by
  simp [has]

/-- Who is registered depends on the callbacks of the subscribers only. -/
theorem has_congr {r r' : Registry} {key : DocumentKey}
    (h : (r'.of key).map Subscriber.callback = (r.of key).map Subscriber.callback)
    (callback : CallbackId) : r'.has key callback = r.has key callback := by
  have hany (subscribers : List Subscriber) :
      (subscribers.any fun s => s.callback = callback) =
        (subscribers.map Subscriber.callback).any fun c => c = callback := by
    rw [List.any_map]
    rfl
  rw [has, has, hany, hany, h]

/-- A callback is added at the end, unless it was registered. -/
theorem of_add (r : Registry) (key other : DocumentKey) (callback : CallbackId)
    (requested : Edition) :
    (r.add key callback requested).of other =
      if key = other ∧ r.has key callback = false then r.of key ++ [⟨callback, requested, none⟩]
      else r.of other := by
  unfold add
  cases h : r.has key callback with
  | true => simp
  | false =>
    rw [if_neg Bool.false_ne_true, of_put]
    simp

/-- To add a callback counts one more, unless it was registered. -/
theorem count_add (r : Registry) (key : DocumentKey) (callback : CallbackId)
    (requested : Edition) :
    (r.add key callback requested).count = r.count + if r.has key callback then 0 else 1 := by
  unfold add
  cases r.has key callback with
  | true => rfl
  | false =>
    have hput := count_put r key (r.of key ++ [⟨callback, requested, none⟩])
    rw [List.length_append, List.length_singleton] at hput
    simp only [Bool.false_eq_true, if_false]
    omega

/-- A callback is removed from its document only. -/
theorem of_remove (r : Registry) (key other : DocumentKey) (callback : CallbackId) :
    (r.remove key callback).of other =
      if key = other then (r.of key).filter fun s => s.callback ≠ callback else r.of other := by
  unfold remove
  cases h : r.has key callback with
  | true => rw [if_pos rfl, of_put]
  | false =>
    rw [if_neg Bool.false_ne_true]
    split
    case isTrue hk =>
      subst hk
      refine (List.filter_eq_self.mpr fun s hs => ?_).symm
      have hn : ¬ ∃ s ∈ r.of key, s.callback = callback := by
        rw [← has_iff, h]
        exact Bool.false_ne_true
      simpa using fun he => hn ⟨s, hs, he⟩
    case isFalse => rfl

/-- To remove a callback counts one less, if it was registered. -/
theorem count_remove {r : Registry} {key : DocumentKey}
    (distinct : ((r.of key).map Subscriber.callback).Nodup) (callback : CallbackId) :
    (r.remove key callback).count + (if r.has key callback then 1 else 0) = r.count := by
  have hfilter {subscribers : List Subscriber}
      (distinct : (subscribers.map Subscriber.callback).Nodup)
      (hin : (subscribers.any fun s => s.callback = callback) = true) :
      (subscribers.filter fun s => s.callback ≠ callback).length + 1 = subscribers.length := by
    induction subscribers with
    | nil => cases hin
    | cons s rest ih =>
      rw [List.map_cons, List.nodup_cons] at distinct
      by_cases hs : s.callback = callback
      · have hrest : (rest.filter fun s => s.callback ≠ callback) = rest := by
          refine List.filter_eq_self.mpr fun t ht => ?_
          have hne : t.callback ≠ callback := fun he =>
            distinct.1 (hs.trans he.symm ▸ List.mem_map_of_mem ht)
          simpa using hne
        rw [List.filter_cons, if_neg (by simp [hs]), hrest, List.length_cons]
      · have hany : (rest.any fun s => s.callback = callback) = true := by simpa [hs] using hin
        simpa [hs] using ih distinct.2 hany
  unfold remove
  cases h : r.has key callback with
  | false => rfl
  | true =>
    have hput := count_put r key ((r.of key).filter fun s => s.callback ≠ callback)
    have hlength := hfilter distinct h
    simp only [if_true]
    omega

/-- An edition is told to all subscribers of its document. -/
theorem of_tellAll (r : Registry) (found : Found) (key : DocumentKey) :
    (r.tellAll found).of key =
      if found.key = key then (r.of found.key).map (·.tell found) else r.of key :=
  of_put r found.key key _

/-- An edition is told to one subscriber of its document. -/
theorem of_tellOne (r : Registry) (callback : CallbackId) (found : Found) (key : DocumentKey) :
    (r.tellOne callback found).of key =
      if found.key = key then
        (r.of found.key).map fun s => if s.callback = callback then s.tell found else s
      else r.of key :=
  of_put r found.key key _

/-- Whoever is told something, the callbacks are the same. -/
@[simp] theorem callbacks_tellAll (r : Registry) (found : Found) (key : DocumentKey) :
    ((r.tellAll found).of key).map Subscriber.callback = (r.of key).map Subscriber.callback := by
  rw [of_tellAll]
  split
  case isTrue h => subst h; simp
  case isFalse => rfl

@[simp] theorem callbacks_tellOne (r : Registry) (callback : CallbackId) (found : Found)
    (key : DocumentKey) :
    ((r.tellOne callback found).of key).map Subscriber.callback =
      (r.of key).map Subscriber.callback := by
  rw [of_tellOne]
  split
  case isTrue h =>
    subst h
    rw [List.map_map]
    refine List.map_congr_left fun s _ => ?_
    by_cases hc : s.callback = callback <;> simp [hc]
  case isFalse => rfl

@[simp] theorem has_tellAll (r : Registry) (found : Found) (key : DocumentKey)
    (callback : CallbackId) : (r.tellAll found).has key callback = r.has key callback :=
  has_congr (callbacks_tellAll r found key) callback

@[simp] theorem has_tellOne (r : Registry) (told : CallbackId) (found : Found)
    (key : DocumentKey) (callback : CallbackId) :
    (r.tellOne told found).has key callback = r.has key callback :=
  has_congr (callbacks_tellOne r told found key) callback

/-- A callback that was added is registered, and those that were before are. -/
theorem has_add (r : Registry) (key other : DocumentKey) (callback registered : CallbackId)
    (requested : Edition) :
    (r.add key registered requested).has other callback =
      (decide (key = other ∧ registered = callback) || r.has other callback) := by
  rw [Bool.eq_iff_iff, Bool.or_eq_true, has_iff, has_iff, of_add]
  cases h : r.has key registered with
  | true =>
    have hin := (has_iff r key registered).mp h
    simp only [Bool.true_eq_false, and_false, if_false, decide_eq_true_eq]
    refine ⟨.inr, ?_⟩
    rintro (⟨rfl, rfl⟩ | h)
    · exact hin
    · exact h
  | false =>
    by_cases hk : key = other
    · subst hk
      simp [or_and_right, exists_or, or_comm]
    · simp [hk]

/-- A callback that was removed is not registered, but all others that were before are. -/
theorem has_remove (r : Registry) (key other : DocumentKey) (callback removed : CallbackId) :
    (r.remove key removed).has other callback =
      (!decide (key = other ∧ removed = callback) && r.has other callback) := by
  rw [Bool.eq_iff_iff, Bool.and_eq_true, has_iff, has_iff, of_remove]
  by_cases hk : key = other
  · subst hk
    simp only [if_true, List.mem_filter, true_and]
    constructor
    · rintro ⟨s, ⟨hs, hr⟩, rfl⟩
      have hne : removed ≠ s.callback := Ne.symm (of_decide_eq_true hr)
      exact ⟨by simpa using hne, s, hs, rfl⟩
    · rintro ⟨hr, s, hs, rfl⟩
      have hne : ¬removed = s.callback := by simpa using hr
      exact ⟨s, ⟨hs, decide_eq_true (Ne.symm hne)⟩, rfl⟩
  · simp [hk]

end Registry

end EditionWatch
