/-!
# Finite maps as lists of pairs

A map is a list of keys with their values, each key at most once. What is stored under a key
depends on the latest operation on that key alone; the order of the pairs is the order in
which the keys were first put in, unless an operation says otherwise.
-/

namespace EditionWatch

/-- A finite map, as the list of its pairs. -/
structure KeyMap (κ : Type) (α : Type) where
  /-- The pairs in their order. -/
  entries : List (κ × α)
  /-- No key comes twice. -/
  distinct : (entries.map Prod.fst).Nodup
  deriving DecidableEq

namespace KeyMap

variable {κ α β : Type} [DecidableEq κ]

/-- The value of the first pair with a key. -/
def find (key : κ) : List (κ × α) → Option α
  | [] => none
  | (k, a) :: rest => if k = key then some a else find key rest

/-- Replaces the value of the first pair with a key, or appends a pair. -/
def store (key : κ) (value : α) : List (κ × α) → List (κ × α)
  | [] => [(key, value)]
  | (k, a) :: rest => if k = key then (key, value) :: rest else (k, a) :: store key value rest

/-- The pairs with other keys. -/
def without (key : κ) (entries : List (κ × α)) : List (κ × α) :=
  entries.filter fun entry => entry.1 ≠ key

/-- A key that is stored is the only one that may be new. -/
theorem mem_keys_store {key other : κ} {value : α} {entries : List (κ × α)}
    (h : other ∈ (store key value entries).map Prod.fst) :
    other = key ∨ other ∈ entries.map Prod.fst := by
  induction entries with
  | nil => simpa [store] using h
  | cons entry rest ih =>
    obtain ⟨k, a⟩ := entry
    by_cases hk : k = key
    · simp only [store, hk, if_true, List.map_cons, List.mem_cons] at h ⊢
      rcases h with h | h
      · exact .inl h
      · exact .inr (.inr h)
    · simp only [store, hk, if_false, List.map_cons, List.mem_cons] at h ⊢
      rcases h with h | h
      · exact .inr (.inl h)
      · exact (ih h).imp_right .inr

/-- To store a value leaves every key once. -/
theorem nodup_keys_store {entries : List (κ × α)} (h : (entries.map Prod.fst).Nodup) (key : κ)
    (value : α) : ((store key value entries).map Prod.fst).Nodup := by
  induction entries with
  | nil => simp [store]
  | cons entry rest ih =>
    obtain ⟨k, a⟩ := entry
    rw [List.map_cons, List.nodup_cons] at h
    by_cases hk : k = key
    · subst hk
      simpa [store] using h
    · simp only [store, hk, if_false, List.map_cons, List.nodup_cons]
      refine ⟨fun hm => ?_, ih h.2⟩
      rcases mem_keys_store hm with he | hm
      · exact hk he
      · exact h.1 hm

/-- To leave out a key leaves every key once. -/
theorem nodup_keys_without {entries : List (κ × α)} (h : (entries.map Prod.fst).Nodup)
    (key : κ) : ((without key entries).map Prod.fst).Nodup :=
  h.sublist (List.filter_sublist.map Prod.fst)

/-- A key that is left out is not there any more. -/
theorem not_mem_keys_without (key : κ) (entries : List (κ × α)) :
    key ∉ (without key entries).map Prod.fst := by
  intro h
  obtain ⟨entry, hm, he⟩ := List.mem_map.mp h
  simp [without, he] at hm

/-- The map without keys. -/
def empty : KeyMap κ α := ⟨[], List.nodup_nil⟩

instance : Inhabited (KeyMap κ α) := ⟨empty⟩

/-- The value stored under a key. -/
def get? (m : KeyMap κ α) (key : κ) : Option α := find key m.entries

/-- Stores a value under a key. -/
def insert (m : KeyMap κ α) (key : κ) (value : α) : KeyMap κ α :=
  ⟨store key value m.entries, nodup_keys_store m.distinct key value⟩

/-- Forgets a key. -/
def erase (m : KeyMap κ α) (key : κ) : KeyMap κ α :=
  ⟨without key m.entries, nodup_keys_without m.distinct key⟩

/-- Stores a value under a key, which becomes the first one. -/
def pushFront (m : KeyMap κ α) (key : κ) (value : α) : KeyMap κ α :=
  ⟨(key, value) :: without key m.entries,
    List.nodup_cons.mpr
      ⟨not_mem_keys_without key m.entries, nodup_keys_without m.distinct key⟩⟩

/-- The last key with its value. -/
def last? (m : KeyMap κ α) : Option (κ × α) := m.entries.getLast?

/-- Forgets the last key. -/
def dropLast (m : KeyMap κ α) : KeyMap κ α :=
  ⟨m.entries.dropLast, m.distinct.sublist (m.entries.dropLast_sublist.map Prod.fst)⟩

/-- Changes all values. -/
def mapValues (m : KeyMap κ α) (f : α → β) : KeyMap κ β :=
  ⟨m.entries.map fun entry => (entry.1, f entry.2), by
    simpa [Function.comp_def] using m.distinct⟩

/-- The number of keys. -/
def size (m : KeyMap κ α) : Nat := m.entries.length

/-- The stored values. -/
def values (m : KeyMap κ α) : List α := m.entries.map Prod.snd

/-- Whether a key has a value. -/
def contains (m : KeyMap κ α) (key : κ) : Bool := (m.get? key).isSome

/-- A value that is stored is found under its key, and nothing else changes. -/
theorem find_store (key other : κ) (value : α) (entries : List (κ × α)) :
    find other (store key value entries) =
      if key = other then some value else find other entries := by
  induction entries with
  | nil => rfl
  | cons entry rest ih =>
    obtain ⟨k, a⟩ := entry
    by_cases hk : k = key
    · subst hk
      by_cases ho : k = other <;> simp [store, find, ho]
    · by_cases ho : k = other
      · have hne : key ≠ other := fun h => hk (ho.trans h.symm)
        simp [store, find, ho, hne, Ne.symm hne]
      · simp [store, find, hk, ho, ih]

/-- Under a key that is left out nothing is found, and nothing else changes. -/
theorem find_without (key other : κ) (entries : List (κ × α)) :
    find other (without key entries) = if key = other then none else find other entries := by
  induction entries with
  | nil => simp [find, without]
  | cons entry rest ih =>
    obtain ⟨k, a⟩ := entry
    by_cases hk : k = key
    · subst hk
      by_cases ho : k = other <;> simp_all [find, without]
    · by_cases ho : k = other
      · have hne : key ≠ other := fun h => hk (ho.trans h.symm)
        simp [without, List.filter, find, ho, hne, Ne.symm hne]
      · simp_all [find, without]

/-- What is found is among the entries. -/
theorem mem_of_find {key : κ} {value : α} {entries : List (κ × α)}
    (h : find key entries = some value) : (key, value) ∈ entries := by
  induction entries with
  | nil => cases h
  | cons entry rest ih =>
    obtain ⟨k, a⟩ := entry
    by_cases hk : k = key
    · simp only [find, hk, if_true, Option.some.injEq] at h
      simp [hk, h]
    · rw [find, if_neg hk] at h
      exact List.mem_cons_of_mem _ (ih h)

/-- If every key is there once, each entry is found under its key. -/
theorem find_of_mem {key : κ} {value : α} {entries : List (κ × α)}
    (hd : (entries.map Prod.fst).Nodup) (h : (key, value) ∈ entries) :
    find key entries = some value := by
  induction entries with
  | nil => cases h
  | cons entry rest ih =>
    obtain ⟨k, a⟩ := entry
    rw [List.map_cons, List.nodup_cons] at hd
    rcases List.mem_cons.mp h with he | hm
    · cases he
      simp [find]
    · have hne : k ≠ key := fun he => hd.1 (List.mem_map.mpr ⟨_, hm, he.symm⟩)
      rw [find, if_neg hne]
      exact ih hd.2 hm

/-- Nothing is found under a key exactly if it is not there. -/
theorem find_eq_none_iff {key : κ} {entries : List (κ × α)} :
    find key entries = none ↔ key ∉ entries.map Prod.fst := by
  induction entries with
  | nil => simp [find]
  | cons entry rest ih =>
    obtain ⟨k, a⟩ := entry
    by_cases hk : k = key
    · simp [find, hk]
    · rw [find, if_neg hk, ih, List.map_cons, List.mem_cons, not_or]
      exact ⟨fun h => ⟨Ne.symm hk, h⟩, And.right⟩

/-- A key that is there makes a difference when it is left out. -/
theorem length_without_lt {key : κ} {value : α} {entries : List (κ × α)}
    (h : find key entries = some value) : (without key entries).length < entries.length :=
  List.length_filter_lt_length_iff_exists.mpr ⟨(key, value), mem_of_find h, by simp⟩

/-- The entries of a map are what it holds under its keys. -/
theorem mem_entries_iff (m : KeyMap κ α) (key : κ) (value : α) :
    (key, value) ∈ m.entries ↔ m.get? key = some value :=
  ⟨find_of_mem m.distinct, mem_of_find⟩

/-- The values of a map are what it holds under some key. -/
theorem mem_values_iff (m : KeyMap κ α) (value : α) :
    value ∈ m.values ↔ ∃ key, m.get? key = some value := by
  simp only [values, List.mem_map, Prod.exists, exists_eq_right, mem_entries_iff]

@[simp] theorem get?_empty (key : κ) : (empty : KeyMap κ α).get? key = none := rfl

/-- To store what is stored already changes nothing. -/
theorem store_of_find {key : κ} {value : α} {entries : List (κ × α)}
    (h : find key entries = some value) : store key value entries = entries := by
  induction entries with
  | nil => cases h
  | cons entry rest ih =>
    obtain ⟨k, a⟩ := entry
    by_cases hk : k = key
    · simp only [find, hk, if_true, Option.some.injEq] at h
      simp [store, hk, h]
    · rw [find, if_neg hk] at h
      rw [store, if_neg hk, ih h]

/-- What is stored under a new key is put behind the rest. -/
theorem store_of_not_mem {key : κ} {entries : List (κ × α)} (h : key ∉ entries.map Prod.fst)
    (value : α) : store key value entries = entries ++ [(key, value)] := by
  induction entries with
  | nil => rfl
  | cons entry rest ih =>
    obtain ⟨k, a⟩ := entry
    rw [List.map_cons, List.mem_cons, not_or] at h
    rw [store, if_neg (Ne.symm h.1), ih h.2, List.cons_append]

/-- To insert what is there changes nothing. -/
theorem insert_of_get? {m : KeyMap κ α} {key : κ} {value : α} (h : m.get? key = some value) :
    m.insert key value = m := by
  simp only [insert, store_of_find h]

/-- A map holds a value under the key it was inserted under. -/
theorem get?_insert (m : KeyMap κ α) (key other : κ) (value : α) :
    (m.insert key value).get? other = if key = other then some value else m.get? other :=
  find_store key other value m.entries

/-- A map holds nothing under a key that was erased. -/
theorem get?_erase (m : KeyMap κ α) (key other : κ) :
    (m.erase key).get? other = if key = other then none else m.get? other :=
  find_without key other m.entries

/-- A map holds a value under the key it was put in front with. -/
theorem get?_pushFront (m : KeyMap κ α) (key other : κ) (value : α) :
    (m.pushFront key value).get? other = if key = other then some value else m.get? other := by
  have h := find_without key other m.entries
  by_cases hk : key = other
  · simp [get?, pushFront, find, hk]
  · simpa [get?, pushFront, find, hk] using h

/-- What is found in two lists is found in the first, or else in the second. -/
theorem find_append (key : κ) (front back : List (κ × α)) :
    find key (front ++ back) = (find key front).or (find key back) := by
  induction front with
  | nil => rfl
  | cons entry rest ih =>
    obtain ⟨k, a⟩ := entry
    by_cases hk : k = key <;> simp [find, hk, ih]

omit [DecidableEq κ] in
/-- The last entry stands behind all others. -/
theorem entries_eq_of_last? {m : KeyMap κ α} {entry : κ × α} (h : m.last? = some entry) :
    m.entries = m.dropLast.entries ++ [entry] := by
  obtain ⟨front, he⟩ := List.getLast?_eq_some_iff.mp h
  simp [dropLast, he]

/-- The last entry is held under its key. -/
theorem get?_of_last? {m : KeyMap κ α} {key : κ} {value : α} (h : m.last? = some (key, value)) :
    m.get? key = some value :=
  (mem_entries_iff m key value).mp (List.mem_of_getLast? h)

/-- Forgetting the last key leaves all others as they are. -/
theorem get?_dropLast {m : KeyMap κ α} {key : κ} {value : α} (h : m.last? = some (key, value))
    (other : κ) : m.dropLast.get? other = if key = other then none else m.get? other := by
  have he := entries_eq_of_last? h
  by_cases hk : key = other
  · subst hk
    rw [if_pos rfl]
    cases hf : m.dropLast.get? key with
    | none => rfl
    | some a =>
      have hm : key ∈ m.dropLast.entries.map Prod.fst :=
        List.mem_map.mpr ⟨_, (mem_entries_iff _ _ _).mpr hf, rfl⟩
      have hd := m.distinct
      rw [he, List.map_append, List.nodup_append] at hd
      exact absurd rfl (hd.2.2 key hm key (by simp))
  · rw [if_neg hk, get?, get?, he, find_append]
    simp [find, hk]

@[simp] theorem get?_insert_self (m : KeyMap κ α) (key : κ) (value : α) :
    (m.insert key value).get? key = some value := by
  simp [get?_insert]

@[simp] theorem get?_erase_self (m : KeyMap κ α) (key : κ) : (m.erase key).get? key = none := by
  simp [get?_erase]

/-- A function of the values may be applied before or after a search. -/
theorem find_map (f : α → β) (key : κ) (entries : List (κ × α)) :
    find key (entries.map fun entry => (entry.1, f entry.2)) = (find key entries).map f := by
  induction entries with
  | nil => rfl
  | cons entry rest ih =>
    obtain ⟨k, a⟩ := entry
    by_cases hk : k = key <;> simp [find, hk, ih]

/-- A map whose values are changed holds the changed values. -/
theorem get?_mapValues (m : KeyMap κ α) (f : α → β) (key : κ) :
    (m.mapValues f).get? key = (m.get? key).map f := find_map f key m.entries

/-- A key that is stored anew makes the map larger. -/
theorem size_insert (m : KeyMap κ α) (key : κ) (value : α) :
    (m.insert key value).size = m.size + if m.get? key = none then 1 else 0 := by
  have hstore (entries : List (κ × α)) : (store key value entries).length =
      entries.length + if find key entries = none then 1 else 0 := by
    induction entries with
    | nil => rfl
    | cons entry rest ih =>
      obtain ⟨k, a⟩ := entry
      by_cases hk : k = key
      · simp [store, find, hk]
      · simp only [store, find, hk, if_false, List.length_cons, ih]
        omega
  exact hstore m.entries

/-- A key is left out entry by entry. -/
theorem without_cons (key k : κ) (a : α) (rest : List (κ × α)) :
    without key ((k, a) :: rest) =
      if k = key then without key rest else (k, a) :: without key rest := by
  by_cases hk : k = key <;> simp [without, hk]

/-- To leave out a key that is not there changes nothing. -/
theorem without_of_not_mem {key : κ} {entries : List (κ × α)}
    (h : key ∉ entries.map Prod.fst) : without key entries = entries := by
  refine List.filter_eq_self.mpr fun entry hm => ?_
  have hne : entry.1 ≠ key := fun he => h (he ▸ List.mem_map_of_mem hm)
  simpa using hne

/-- A key that is forgotten makes the map smaller. -/
theorem size_erase {m : KeyMap κ α} {key : κ} (h : m.get? key ≠ none) :
    (m.erase key).size + 1 = m.size := by
  have hwithout {entries : List (κ × α)} (distinct : (entries.map Prod.fst).Nodup)
      (hin : find key entries ≠ none) : (without key entries).length + 1 = entries.length := by
    induction entries with
    | nil => exact absurd rfl hin
    | cons entry rest ih =>
      obtain ⟨k, a⟩ := entry
      rw [List.map_cons, List.nodup_cons] at distinct
      rw [without_cons, List.length_cons]
      by_cases hk : k = key
      · rw [if_pos hk, without_of_not_mem (hk ▸ distinct.1)]
      · rw [find, if_neg hk] at hin
        rw [if_neg hk, List.length_cons, ih distinct.2 hin]
  exact hwithout m.distinct h

/-- A key that is not there makes no difference when it is forgotten. -/
theorem size_erase_of_get? {m : KeyMap κ α} {key : κ} (h : m.get? key = none) :
    (m.erase key).size = m.size := by
  refine congrArg List.length (without_of_not_mem fun hm => ?_)
  obtain ⟨⟨k, a⟩, hin, rfl⟩ := List.mem_map.mp hm
  rw [(mem_entries_iff m k a).mp hin] at h
  cases h

/-- A key that is put to the front makes the map larger if it is new. -/
theorem size_pushFront (m : KeyMap κ α) (key : κ) (value : α) :
    (m.pushFront key value).size = m.size + if m.get? key = none then 1 else 0 := by
  have hfront : (m.pushFront key value).size = (m.erase key).size + 1 := rfl
  rw [hfront]
  split
  case isTrue h => rw [size_erase_of_get? h]
  case isFalse h => rw [size_erase h, Nat.add_zero]

omit [DecidableEq κ] in
/-- Forgetting the last key, if there is one, makes the map smaller. -/
theorem size_dropLast (m : KeyMap κ α) : m.dropLast.size + m.last?.toList.length = m.size := by
  cases h : m.last? with
  | none =>
    have hnil : m.entries = [] := List.getLast?_eq_none_iff.mp h
    simp [size, dropLast, hnil]
  | some entry =>
    have hlength := congrArg List.length (entries_eq_of_last? h)
    rw [List.length_append] at hlength
    exact hlength.symm

/-- Where the values are lists, a list that is stored takes the place of the one before. -/
theorem length_flatten_insert (m : KeyMap κ (List β)) (key : κ) (value : List β) :
    (m.insert key value).values.flatten.length + ((m.get? key).getD []).length =
      m.values.flatten.length + value.length := by
  have hstore (entries : List (κ × List β)) :
      ((store key value entries).map Prod.snd).flatten.length +
          ((find key entries).getD []).length =
        (entries.map Prod.snd).flatten.length + value.length := by
    induction entries with
    | nil => simp [store, find]
    | cons entry rest ih =>
      obtain ⟨k, a⟩ := entry
      by_cases hk : k = key
      · simp only [store, find, hk, if_true, List.map_cons, List.flatten_cons, List.length_append,
          Option.getD_some]
        omega
      · simp only [store, find, hk, if_false, List.map_cons, List.flatten_cons, List.length_append]
        omega
  exact hstore m.entries

/-- To erase a list of values takes as many values from all of them. -/
theorem length_flatten_erase (m : KeyMap κ (List β)) (key : κ) :
    (m.erase key).values.flatten.length + ((m.get? key).getD []).length =
      m.values.flatten.length := by
  have hwithout {entries : List (κ × List β)} (distinct : (entries.map Prod.fst).Nodup) :
      ((without key entries).map Prod.snd).flatten.length + ((find key entries).getD []).length =
        (entries.map Prod.snd).flatten.length := by
    induction entries with
    | nil => rfl
    | cons entry rest ih =>
      obtain ⟨k, a⟩ := entry
      rw [List.map_cons, List.nodup_cons] at distinct
      rw [without_cons]
      by_cases hk : k = key
      · rw [if_pos hk, without_of_not_mem (hk ▸ distinct.1), find, if_pos hk]
        simp only [List.map_cons, List.flatten_cons, List.length_append, Option.getD_some]
        omega
      · have hrest := ih distinct.2
        rw [if_neg hk, find, if_neg hk]
        simp only [List.map_cons, List.flatten_cons, List.length_append]
        omega
  exact hwithout m.distinct

/-- A map without keys has size zero. -/
theorem size_eq_zero_of_get? {m : KeyMap κ α} (h : ∀ key, m.get? key = none) : m.size = 0 := by
  refine List.length_eq_zero_iff.mpr (List.eq_nil_iff_forall_not_mem.mpr fun entry hm => ?_)
  have hget := (mem_entries_iff m entry.1 entry.2).mp hm
  rw [h entry.1] at hget
  cases hget

end KeyMap

end EditionWatch
