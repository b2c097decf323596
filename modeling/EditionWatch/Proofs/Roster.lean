import EditionWatch.Records.Change
import EditionWatch.Watch.Action

/-!
# What can happen to pollers

Seen from its pollers, a watch is its records, the pollers themselves, and the words whether
everything was stopped and whether someone still holds the watch. Only a few kinds of steps
change this: they are listed here once, and each action of the watch is a sequence of them. A
poller is stored if its document has it in the background pool or in the cache; one that was
pushed out of the cache is listed for cancellation with the poller that took its place.
-/

namespace EditionWatch

/-- A watch as far as its pollers are concerned. -/
structure Roster where
  /-- What the watch knows. -/
  records : Records
  /-- All pollers ever made, by number. -/
  pollers : List Poller
  /-- Whether all work has been cancelled. -/
  stopped : Bool
  /-- Whether someone holds the watch. -/
  alive : Bool
  /-- Whether the executor takes pollers. -/
  accepts : Bool

/-- The part of a watch that matters to its pollers. -/
def Watch.roster (w : Watch) : Roster :=
  ⟨w.records, w.pollers, w.stopped, w.isAlive, w.takes .poller⟩

namespace Roster

/-- A poller is stored for a document. -/
def Stores (s : Roster) (key : DocumentKey) (id : PollerId) : Prop :=
  s.records.pool.poller? key = some id ∨ s.records.cache.poller? key = some id

/-- A poller is neither stored nor listed for cancellation. -/
def Unreferred (s : Roster) (id : PollerId) : Prop :=
  (∀ key, ¬s.Stores key id) ∧ ∀ p ∈ s.pollers, id ∉ p.evicted

/-- The pollers after some of them were cancelled. -/
def cancelAll (ids : List PollerId) (pollers : List Poller) : List Poller :=
  ids.foldl (fun pollers id => pollers.modify id Poller.cancel) pollers

/-- The roster after a change of the records. -/
def change (s : Roster) (change : Records.Change) : Roster :=
  { s with records := s.records.apply change }

/-- The roster with a poller in place of the one of its number. -/
def overwrite (s : Roster) (id : PollerId) (p : Poller) : Roster :=
  { s with pollers := s.pollers.set id p }

/-- The roster with one more poller. -/
def add (s : Roster) (p : Poller) : Roster := { s with pollers := s.pollers ++ [p] }

/-- The roster after some pollers were cancelled. -/
def cancel (s : Roster) (ids : List PollerId) : Roster :=
  { s with pollers := cancelAll ids s.pollers }

/-- A poller that was just made for a document, to cancel others when it begins. It is over at
once if the executor does not take it. -/
structure Fresh (accepts : Bool) (key : DocumentKey) (evicted : List PollerId) (p : Poller) :
    Prop where
  key : p.key = key
  cancelled : p.cancelled = false
  stage : p.stage = .submitted evicted ∨ (accepts = false ∧ p.stage = .ended)

/-- A fresh poller lists for cancellation only whom it pushes out. -/
theorem Fresh.mem_of_mem_evicted {accepts : Bool} {key : DocumentKey} {evicted : List PollerId}
    {p : Poller} (h : Fresh accepts key evicted p) {id : PollerId} (hid : id ∈ p.evicted) :
    id ∈ evicted := by
  rw [Poller.evicted] at hid
  rcases h.stage with hs | ⟨-, hs⟩
  · rw [hs] at hid
    exact hid
  · rw [hs] at hid
    cases hid

/-- One step of the pollers, with the changes of the records that it makes. In a smooth run the
executor takes all pollers, and no poller ends in the midst of its work while the watch is
held. -/
inductive Step (smooth : Bool) : Roster → List Records.Change → Roster → Prop where
  /-- The records change in a way that has nothing to do with pollers. -/
  | record (s : Roster) (change : Records.Change) (spares : change.sparesPollers = true) :
      Step smooth s [change] (s.change change)
  /-- A poller goes on with its work. -/
  | turn (s : Roster) (id : PollerId) (p next : Poller) (found : s.pollers[id]? = some p)
      (before : p.isUnderway = true) (after : next.isUnderway = true) (key : next.key = p.key)
      (cancelled : next.cancelled = p.cancelled) :
      Step smooth s [] (s.overwrite id next)
  /-- A poller is sent a command. -/
  | send (s : Roster) (id : PollerId) (command : Poller.Command) :
      Step smooth s [] { s with pollers := s.pollers.modify id (·.send command) }
  /-- A poller begins; it cancels those listed with it. -/
  | begins (s : Roster) (id : PollerId) (p : Poller) (evicted : List PollerId)
      (found : s.pollers[id]? = some p) (stage : p.stage = .submitted evicted) :
      Step smooth s [] ((s.overwrite id { p with stage := .resting none }).cancel evicted)
  /-- A poller that is not stored, or finds the watch gone, ends. -/
  | ends (s : Roster) (id : PollerId) (p : Poller) (found : s.pollers[id]? = some p)
      (underway : p.isUnderway = true)
      (unstored : s.alive = false ∨ s.records.indexes p.key id = false) :
      Step smooth s [] (s.overwrite id p.finish)
  /-- A poller that is cancelled, or that nobody refers to, ends and takes itself out of the
  records. Only one that nobody refers to says that it was not cancelled. -/
  | quits (s : Roster) (id : PollerId) (p : Poller) (cancelled : Bool)
      (found : s.pollers[id]? = some p) (underway : p.isUnderway = true)
      (free : p.cancelled = true ∨ s.stopped = true ∨ s.Unreferred id)
      (honest : cancelled = true ∨ s.Unreferred id) :
      Step smooth s [.removePoller p.key id cancelled]
        ((s.change (.removePoller p.key id cancelled)).overwrite id
          { p.finish with cancelled := true })
  /-- A poller ends in the midst of its work. -/
  | collapses (s : Roster) (id : PollerId) (p : Poller) (found : s.pollers[id]? = some p)
      (underway : p.isUnderway = true) (cause : smooth = false ∨ s.alive = false) :
      Step smooth s [] (s.overwrite id p.finish)
  /-- The executor begins or ceases to take pollers. -/
  | refuses (s : Roster) (accepts : Bool) (cause : smooth = false ∨ accepts = true) :
      Step smooth s [] { s with accepts := accepts }
  /-- Nobody holds the watch any more. -/
  | stops (s : Roster) :
      Step smooth s [.forgetPollers]
        { s.change .forgetPollers with stopped := true, alive := false }
  /-- All pollers are taken out of the records and cancelled. -/
  | shutsDown (s : Roster) :
      Step smooth s [.removePollers]
        { (s.change .removePollers).cancel s.records.pollers with stopped := true }
  /-- A callback is subscribed to a document that has a poller. -/
  | joins (s : Roster) (key : DocumentKey) (callback : CallbackId) (requested : Edition)
      (present : ∃ id, s.Stores key id) :
      Step smooth s [.subscribe key callback requested true]
        (s.change (.subscribe key callback requested true))
  /-- A callback is subscribed to a document that gets a poller for it. -/
  | starts (s : Roster) (key : DocumentKey) (callback : CallbackId) (requested : Edition)
      (p : Poller) (alive : s.alive = true) (absent : ∀ id, ¬s.Stores key id)
      (fresh : Fresh s.accepts key [] p) :
      Step smooth s [.subscribe key callback requested true]
        ((s.change (.subscribe key callback requested true)).add p)
  /-- A callback is removed; the poller that nobody needs any more is cancelled. -/
  | leaves (s : Roster) (key : DocumentKey) (callback : CallbackId) :
      Step smooth s [.unsubscribe key callback]
        ((s.change (.unsubscribe key callback)).cancel
          (s.records.idleWithout key callback).toList)
  /-- A document is looked up that has a poller. -/
  | hints (s : Roster) (now : Instant) (key : DocumentKey) (prefetch : Bool)
      (present : ∃ id, s.records.lookup key = .hinted id) :
      Step smooth s [.resolve now key prefetch] (s.change (.resolve now key prefetch))
  /-- A document is looked up that gets a poller for it. -/
  | looksUp (s : Roster) (now : Instant) (key : DocumentKey) (prefetch : Bool) (p : Poller)
      (alive : s.alive = true) (absent : ∀ id, ¬s.Stores key id)
      (fresh :
        Fresh s.accepts key
          ((s.records.cache.insert key s.records.pollersMade).evicted.map Prod.snd).toList p) :
      Step smooth s [.resolve now key prefetch]
        ((s.change (.resolve now key prefetch)).add p)

/-- Several steps, with the changes of the records that they make in order. -/
inductive Steps (smooth : Bool) : Roster → List Records.Change → Roster → Prop where
  | refl (s : Roster) : Steps smooth s [] s
  | tail {s t u : Roster} {earlier later : List Records.Change} (steps : Steps smooth s earlier t)
      (step : Step smooth t later u) : Steps smooth s (earlier ++ later) u

theorem Step.steps {smooth : Bool} {s t : Roster} {changes : List Records.Change}
    (h : Step smooth s changes t) : Steps smooth s changes t :=
  .tail (.refl s) h

theorem Steps.trans {smooth : Bool} {s t u : Roster} {earlier later : List Records.Change}
    (h : Steps smooth s earlier t) (h' : Steps smooth t later u) :
    Steps smooth s (earlier ++ later) u := by
  induction h' with
  | refl => rw [List.append_nil]; exact h
  | tail _ step ih =>
    rw [← List.append_assoc]
    exact .tail ih step

/-- The records follow the changes. -/
theorem Step.records_eq {smooth : Bool} {s t : Roster} {changes : List Records.Change}
    (h : Step smooth s changes t) : t.records = s.records.run changes := by
  cases h <;> rfl

/-- Steps reach the records by their changes. -/
theorem Steps.records_eq {smooth : Bool} {s t : Roster} {changes : List Records.Change}
    (h : Steps smooth s changes t) : t.records = s.records.run changes := by
  induction h with
  | refl => rfl
  | tail _ step ih => rw [Records.run_append, ← ih, step.records_eq]

/-- What stands in a list with one more element stood there before or is that element. -/
theorem getElem?_concat_cases {α : Type} {l : List α} {a b : α} {i : Nat}
    (h : (l ++ [a])[i]? = some b) : l[i]? = some b ∨ (i = l.length ∧ b = a) := by
  rw [List.getElem?_append] at h
  split at h
  case isTrue => exact .inl h
  case isFalse hlt =>
    obtain ⟨hz, he⟩ := List.getElem?_eq_some_iff.mp h
    have hzero : i - l.length = 0 := by
      rw [List.length_singleton] at hz
      omega
    simp only [hzero, List.getElem_cons_zero] at he
    exact .inr ⟨by omega, he.symm⟩

/-- What stands in a list after one place was overwritten. -/
theorem getElem?_set_cases {α : Type} {l : List α} {a b : α} {i j : Nat}
    (h : (l.set i a)[j]? = some b) : (j = i ∧ b = a) ∨ (j ≠ i ∧ l[j]? = some b) := by
  by_cases hj : i = j
  · subst hj
    rw [List.getElem?_set_self'] at h
    obtain ⟨_, -, rfl⟩ := Option.map_eq_some_iff.mp h
    exact .inl ⟨rfl, rfl⟩
  · rw [List.getElem?_set_ne hj] at h
    exact .inr ⟨fun he => hj he.symm, h⟩

/-- Of several pollers those are cancelled that are named. -/
theorem getElem?_cancelAll (ids : List PollerId) (pollers : List Poller) (id : PollerId) :
    (cancelAll ids pollers)[id]? =
      (pollers[id]?).map fun p => if id ∈ ids then p.cancel else p := by
  induction ids generalizing pollers with
  | nil => simp [cancelAll]
  | cons other rest ih =>
    rw [cancelAll, List.foldl_cons]
    change (cancelAll rest (pollers.modify other Poller.cancel))[id]? = _
    rw [ih, List.getElem?_modify]
    cases pollers[id]? with
    | none => simp
    | some p =>
      by_cases ho : other = id
      · subst ho
        by_cases hr : other ∈ rest <;> simp [hr, Poller.cancel]
      · have hne : id ≠ other := fun h => ho h.symm
        by_cases hr : id ∈ rest <;> simp [hr, ho, hne]

@[simp] theorem length_cancelAll (ids : List PollerId) (pollers : List Poller) :
    (cancelAll ids pollers).length = pollers.length := by
  induction ids generalizing pollers with
  | nil => rfl
  | cons other rest ih =>
    rw [cancelAll, List.foldl_cons]
    exact (ih (pollers.modify other Poller.cancel)).trans (List.length_modify _ _ _)

/-! ## What holds in every state -/

/-- Every poller is stored for its own document, in one place, and is not cancelled as long as
not everything is. A poller that is listed for cancellation is stored nowhere, and listed with
one other poller only. -/
structure Sound (s : Roster) : Prop where
  /-- Pollers are numbered as they are made. -/
  numbered : s.records.pollersMade = s.pollers.length
  /-- Nothing goes on after the watch was given up, and no poller is stored any more. -/
  gone : s.alive = false → s.stopped = true ∧ ∀ key id, ¬s.Stores key id
  /-- No document has a poller in the pool and one in the cache. -/
  apart : ∀ key id, s.records.pool.poller? key = some id → s.records.cache.poller? key = none
  /-- A stored poller is one for the document, and not cancelled. -/
  own : ∀ key id, s.Stores key id →
    ∃ p, s.pollers[id]? = some p ∧ p.key = key ∧ (s.stopped = false → p.cancelled = false)
  /-- A listed poller was made before and is not stored. -/
  listed : ∀ (id : PollerId) (p : Poller), s.pollers[id]? = some p → ∀ e ∈ p.evicted,
    e < s.pollers.length ∧ ∀ key, ¬s.Stores key e
  /-- A poller is listed only once. -/
  once : ∀ (i j : PollerId) (p q : Poller), s.pollers[i]? = some p → s.pollers[j]? = some q →
    ∀ e ∈ p.evicted, e ∈ q.evicted → i = j

/-- No poller was made from one state to the other, stored anew, or listed anew, and none that
is still stored was cancelled by itself. -/
structure Settles (s t : Roster) : Prop where
  made : t.records.pollersMade = s.records.pollersMade
  length : t.pollers.length = s.pollers.length
  alive : t.alive = s.alive ∨ (t.stopped = true ∧ ∀ key id, ¬t.Stores key id)
  stopped : s.stopped = true → t.stopped = true
  apart : ∀ key id, t.records.pool.poller? key = some id → t.records.cache.poller? key = none
  stores : ∀ key id, t.Stores key id → s.Stores key id
  pollers : ∀ (id : PollerId) (q : Poller), t.pollers[id]? = some q →
    ∃ p, s.pollers[id]? = some p ∧ q.key = p.key ∧ (∀ e ∈ q.evicted, e ∈ p.evicted) ∧
      (q.cancelled = true →
        p.cancelled = true ∨ t.stopped = true ∨ ∀ key, ¬t.Stores key id)

/-- One poller was made and stored, perhaps in place of others that are listed with it. -/
structure Grows (s t : Roster) (key : DocumentKey) (p : Poller) : Prop where
  made : t.records.pollersMade = s.records.pollersMade + 1
  pollers : t.pollers = s.pollers ++ [p]
  own : p.key = key
  cancelled : p.cancelled = false
  stopped : t.stopped = s.stopped
  alive : t.alive = true
  apart : ∀ k id, t.records.pool.poller? k = some id → t.records.cache.poller? k = none
  stores : ∀ k id, t.Stores k id → s.Stores k id ∨ (k = key ∧ id = s.pollers.length)
  evicted : ∀ e ∈ p.evicted, (∃ k, s.Stores k e) ∧ ∀ k, ¬t.Stores k e

namespace Sound

variable {s t : Roster}

/-- As long as not everything was stopped, someone holds the watch. -/
theorem alive_of_running (h : Sound s) (running : s.stopped = false) : s.alive = true := by
  rw [← Bool.not_eq_false]
  intro hgone
  rw [(h.gone hgone).1] at running
  cases running

/-- A poller that is stored was made before. -/
theorem lt_of_stores (h : Sound s) {key : DocumentKey} {id : PollerId} (hs : s.Stores key id) :
    id < s.pollers.length := by
  obtain ⟨p, hp, -⟩ := h.own key id hs
  exact (List.getElem?_eq_some_iff.mp hp).1

/-- A poller is stored for one document only. -/
theorem key_unique (h : Sound s) {key other : DocumentKey} {id : PollerId}
    (hs : s.Stores key id) (ho : s.Stores other id) : other = key := by
  obtain ⟨p, hp, hk, -⟩ := h.own key id hs
  obtain ⟨q, hq, ho, -⟩ := h.own other id ho
  rw [hp, Option.some.injEq] at hq
  rw [← ho, ← hk, hq]

/-- A document has one poller at most. -/
theorem stores_unique (h : Sound s) {key : DocumentKey} {id other : PollerId}
    (hs : s.Stores key id) (ho : s.Stores key other) : id = other := by
  rcases hs with hs | hs <;> rcases ho with ho | ho
  · exact Option.some.inj (hs.symm.trans ho)
  · rw [h.apart key id hs] at ho
    cases ho
  · rw [h.apart key other ho] at hs
    cases hs
  · exact Option.some.inj (hs.symm.trans ho)

/-- What settles a roster leaves it sound. -/
theorem of_settles (h : Sound s) (hs : Settles s t) : Sound t where
  numbered := by rw [hs.made, hs.length, h.numbered]
  gone ha := by
    rcases hs.alive with he | hn
    · rw [he] at ha
      obtain ⟨hst, hn⟩ := h.gone ha
      exact ⟨hs.stopped hst, fun key id hid => hn key id (hs.stores key id hid)⟩
    · exact hn
  apart := hs.apart
  own key id hst := by
    obtain ⟨p, hp, hk, hc⟩ := h.own key id (hs.stores key id hst)
    have hlt : id < t.pollers.length := by
      rw [hs.length]
      exact (List.getElem?_eq_some_iff.mp hp).1
    obtain ⟨p', hp', hkey, -, hcancel⟩ := hs.pollers id t.pollers[id] (List.getElem?_eq_getElem hlt)
    rw [hp, Option.some.injEq] at hp'
    subst hp'
    refine ⟨_, List.getElem?_eq_getElem hlt, hkey.trans hk, fun hstop => ?_⟩
    rw [Bool.eq_false_iff]
    intro hq
    rcases hcancel hq with hp | ht | hn
    · have hrun : s.stopped = false := by
        rw [Bool.eq_false_iff]
        intro hss
        rw [hs.stopped hss] at hstop
        cases hstop
      rw [hc hrun] at hp
      cases hp
    · rw [ht] at hstop
      cases hstop
    · exact hn key hst
  listed id q hq e he := by
    obtain ⟨p, hp, -, hev, -⟩ := hs.pollers id q hq
    obtain ⟨hlt, hn⟩ := h.listed id p hp e (hev e he)
    exact ⟨hs.length ▸ hlt, fun key hst => hn key (hs.stores key e hst)⟩
  once i j p q hp hq e he he' := by
    obtain ⟨p₀, hp₀, -, hev, -⟩ := hs.pollers i p hp
    obtain ⟨q₀, hq₀, -, hev', -⟩ := hs.pollers j q hq
    exact h.once i j p₀ q₀ hp₀ hq₀ e (hev e he) (hev' e he')

/-- A roster that grows by a fresh poller is sound. -/
theorem of_grows (h : Sound s) {key : DocumentKey} {p : Poller} (hg : Grows s t key p) :
    Sound t := by
  have hold {id : PollerId} {q : Poller} (hq : t.pollers[id]? = some q) :
      s.pollers[id]? = some q ∨ (id = s.pollers.length ∧ q = p) :=
    getElem?_concat_cases (hg.pollers ▸ hq)
  have hlength : t.pollers.length = s.pollers.length + 1 := by rw [hg.pollers]; simp
  have hkept {id : PollerId} {q : Poller} (hq : s.pollers[id]? = some q) :
      t.pollers[id]? = some q := by
    rw [hg.pollers]
    exact List.getElem?_append_left (List.getElem?_eq_some_iff.mp hq).1 ▸ hq
  refine ⟨?_, ?_, hg.apart, fun k id hst => ?_, fun id q hq e he => ?_, ?_⟩
  · rw [hg.made, hlength, h.numbered]
  · intro ha
    rw [hg.alive] at ha
    cases ha
  · rcases hg.stores k id hst with hst | ⟨rfl, rfl⟩
    · obtain ⟨q, hq, hk, hc⟩ := h.own k id hst
      exact ⟨q, hkept hq, hk, hg.stopped ▸ hc⟩
    · exact ⟨p, by rw [hg.pollers]; simp, hg.own, fun _ => hg.cancelled⟩
  · rcases hold hq with hq | ⟨rfl, rfl⟩
    · obtain ⟨hlt, hn⟩ := h.listed id q hq e he
      refine ⟨hlength ▸ Nat.lt_succ_of_lt hlt, fun k hst => ?_⟩
      rcases hg.stores k e hst with hst | ⟨-, rfl⟩
      · exact hn k hst
      · exact absurd hlt (Nat.lt_irrefl _)
    · obtain ⟨⟨k, hk⟩, hn⟩ := hg.evicted e he
      exact ⟨hlength ▸ Nat.lt_succ_of_lt (h.lt_of_stores hk), hn⟩
  · intro i j q q' hq hq' e he he'
    rcases hold hq with hq | ⟨rfl, rfl⟩ <;> rcases hold hq' with hq' | ⟨rfl, rfl⟩
    · exact h.once i j q q' hq hq' e he he'
    · obtain ⟨⟨k, hk⟩, -⟩ := hg.evicted e he'
      exact absurd hk ((h.listed i q hq e he).2 k)
    · obtain ⟨⟨k, hk⟩, -⟩ := hg.evicted e he
      exact absurd hk ((h.listed j q' hq' e he').2 k)
    · rfl

/-- Steps that leave the places of all pollers alone. -/
theorem settles_of_keepsPollers (h : Sound s) (hr : Records.KeepsPollers s.records t.records)
    (hl : t.pollers.length = s.pollers.length) (hs : t.stopped = s.stopped)
    (ha : t.alive = s.alive)
    (hp : ∀ (id : PollerId) (q : Poller), t.pollers[id]? = some q →
      ∃ p, s.pollers[id]? = some p ∧ q.key = p.key ∧ (∀ e ∈ q.evicted, e ∈ p.evicted) ∧
        (q.cancelled = true → p.cancelled = true ∨ ∀ key, ¬s.Stores key id)) :
    Settles s t := by
  have hst (key : DocumentKey) (id : PollerId) : t.Stores key id ↔ s.Stores key id := by
    rw [Stores, Stores, hr.pool, hr.cache]
  refine ⟨hr.made, hl, .inl ha, ?_, ?_, fun key id => (hst key id).mp, fun id q hq => ?_⟩
  · rw [hs]
    exact id
  · rw [hr.pool, hr.cache]
    exact h.apart
  · obtain ⟨p, hp, hk, he, hc⟩ := hp id q hq
    refine ⟨p, hp, hk, he, fun hqc => ?_⟩
    rcases hc hqc with hc | hn
    · exact .inl hc
    · exact .inr (.inr fun key hst' => hn key ((hst key id).mp hst'))

/-- Steps that overwrite one poller and leave the records alone. -/
theorem settles_of_set (h : Sound s) {id : PollerId} {p next : Poller}
    (found : s.pollers[id]? = some p) (key : next.key = p.key)
    (evicted : next.evicted = []) (cancelled : next.cancelled = p.cancelled) :
    Settles s (s.overwrite id next) := by
  refine h.settles_of_keepsPollers ⟨rfl, rfl, rfl⟩ List.length_set rfl rfl fun i q hq => ?_
  rcases getElem?_set_cases hq with ⟨rfl, rfl⟩ | ⟨-, hq⟩
  · refine ⟨p, found, key, fun e he => ?_, fun hc => .inl (cancelled ▸ hc)⟩
    rw [evicted] at he
    cases he
  · exact ⟨q, hq, rfl, fun _ he => he, .inl⟩

/-- A command that is sent settles the roster. -/
theorem settles_send (h : Sound s) (id : PollerId) (command : Poller.Command) :
    Settles s { s with pollers := s.pollers.modify id (·.send command) } := by
  refine h.settles_of_keepsPollers ⟨rfl, rfl, rfl⟩ (List.length_modify _ _ _) rfl rfl
    fun i q hq => ?_
  rw [List.getElem?_modify] at hq
  obtain ⟨p, hp, rfl⟩ := Option.map_eq_some_iff.mp hq
  refine ⟨p, hp, ?_⟩
  split
  · exact ⟨rfl, fun _ he => he, .inl⟩
  · exact ⟨rfl, fun _ he => he, .inl⟩

/-- A poller that begins cancels whom it listed, and the roster settles. -/
theorem settles_begins (h : Sound s) {id : PollerId} {p : Poller} {evicted : List PollerId}
    (found : s.pollers[id]? = some p) (stage : p.stage = .submitted evicted) :
    Settles s ((s.overwrite id { p with stage := .resting none }).cancel evicted) := by
  have hlength : (cancelAll evicted (s.pollers.set id { p with stage := .resting none })).length =
      s.pollers.length := by
    rw [length_cancelAll, List.length_set]
  refine h.settles_of_keepsPollers ⟨rfl, rfl, rfl⟩ hlength rfl rfl fun i q hq => ?_
  have hlisted : p.evicted = evicted := by rw [Poller.evicted, stage]
  change (cancelAll evicted (s.pollers.set id { p with stage := .resting none }))[i]? = some q at hq
  rw [getElem?_cancelAll] at hq
  obtain ⟨q, hq', rfl⟩ := Option.map_eq_some_iff.mp hq
  have hnot (hi : i ∈ evicted) : ∀ key, ¬s.Stores key i :=
    (h.listed id p found i (hlisted ▸ hi)).2
  rcases getElem?_set_cases hq' with ⟨rfl, rfl⟩ | ⟨-, hq⟩
  · refine ⟨p, found, ?_⟩
    split
    case isTrue hi => exact ⟨rfl, fun _ he => absurd he List.not_mem_nil, fun _ => .inr (hnot hi)⟩
    case isFalse => exact ⟨rfl, fun _ he => absurd he List.not_mem_nil, .inl⟩
  · refine ⟨q, hq, ?_⟩
    split
    case isTrue hi => exact ⟨rfl, fun _ he => he, fun _ => .inr (hnot hi)⟩
    case isFalse => exact ⟨rfl, fun _ he => he, .inl⟩

/-- A poller that took itself out is not stored any more, and all others are as before. -/
theorem stores_quits (h : Sound s) {id : PollerId} {p : Poller} (cancelled : Bool)
    (found : s.pollers[id]? = some p) (key : DocumentKey) (i : PollerId) :
    (s.change (.removePoller p.key id cancelled)).Stores key i ↔ s.Stores key i ∧ i ≠ id := by
  obtain ⟨hpool, hcache, -⟩ := Records.pollers_removePoller s.records p.key id cancelled
  have hown (hst : s.Stores key id) : p.key = key := by
    obtain ⟨q, hq, hk, -⟩ := h.own key id hst
    rw [found, Option.some.injEq] at hq
    rw [hq, hk]
  have hp : (s.change (.removePoller p.key id cancelled)).records.pool.poller? key = some i ↔
      s.records.pool.poller? key = some i ∧ i ≠ id := by
    refine (Iff.of_eq (congrArg (· = some i) (hpool key))).trans ?_
    split
    case isTrue hk =>
      obtain ⟨rfl, hin⟩ := hk
      simp [hin, eq_comm]
    case isFalse hn =>
      refine ⟨fun hi => ⟨hi, fun he => ?_⟩, fun hi => hi.1⟩
      subst he
      have hk := hown (.inl hi)
      exact hn ⟨hk, hk ▸ hi⟩
  have hc : (s.change (.removePoller p.key id cancelled)).records.cache.poller? key = some i ↔
      s.records.cache.poller? key = some i ∧ i ≠ id := by
    refine (Iff.of_eq (congrArg (· = some i) (hcache key))).trans ?_
    split
    case isTrue hk =>
      obtain ⟨rfl, -, hin⟩ := hk
      simp [hin, eq_comm]
    case isFalse hn =>
      refine ⟨fun hi => ⟨hi, fun he => ?_⟩, fun hi => hi.1⟩
      subst he
      have hk := hown (.inr hi)
      refine hn ⟨hk, fun hin => ?_, hk ▸ hi⟩
      rw [hk] at hin
      rw [h.apart key i hin] at hi
      cases hi
  rw [Stores, hp, hc, ← or_and_right]
  rfl

/-- A poller that quits takes itself out, and the roster settles. -/
theorem settles_quits (h : Sound s) {id : PollerId} {p : Poller} (cancelled : Bool)
    (found : s.pollers[id]? = some p) :
    Settles s
      ((s.change (.removePoller p.key id cancelled)).overwrite id
        { p.finish with cancelled := true }) := by
  have hst := h.stores_quits cancelled found
  obtain ⟨hpool, hcache, hmade⟩ :=
    Records.pollers_removePoller s.records p.key id cancelled
  refine ⟨hmade, List.length_set, .inl rfl, fun hs => hs, fun key i hi => ?_,
    fun key i hi => ((hst key i).mp hi).1, fun i q hq => ?_⟩
  · refine (hcache key).trans ?_
    have hin := (hpool key).symm.trans hi
    split
    · rfl
    · split at hin
      · cases hin
      · exact h.apart key i hin
  · rcases getElem?_set_cases hq with ⟨rfl, rfl⟩ | ⟨-, hq⟩
    · exact ⟨p, found, rfl, fun _ he => absurd he List.not_mem_nil,
        fun _ => .inr (.inr fun key hi => ((hst key i).mp hi).2 rfl)⟩
    · exact ⟨q, hq, rfl, fun _ he => he, .inl⟩

/-- When the watch is given up, nobody is stored any more. -/
theorem settles_stops (s : Roster) :
    Settles s { s.change .forgetPollers with stopped := true, alive := false } := by
  have hnone (key : DocumentKey) (id : PollerId) :
      ¬Stores { s.change .forgetPollers with stopped := true, alive := false } key id := by
    rintro (hst | hst) <;> cases hst
  exact ⟨rfl, rfl, .inr ⟨rfl, hnone⟩, fun _ => rfl, fun _ _ _ => rfl,
    fun key id hst => absurd hst (hnone key id), fun _ q hq => ⟨q, hq, rfl, fun _ he => he, .inl⟩⟩

/-- A shutdown cancels all that were stored, and nobody is stored any more. -/
theorem settles_shutsDown (s : Roster) :
    Settles s { (s.change .removePollers).cancel s.records.pollers with stopped := true } := by
  have hnone (key : DocumentKey) (id : PollerId) : ¬Stores
      { (s.change .removePollers).cancel s.records.pollers with stopped := true } key id := by
    rintro (hst | hst) <;> cases hst
  refine ⟨rfl, length_cancelAll _ _, .inl rfl, fun _ => rfl, fun _ _ _ => rfl,
    fun key id hst => absurd hst (hnone key id), fun id q hq => ?_⟩
  change (cancelAll s.records.pollers s.pollers)[id]? = some q at hq
  rw [getElem?_cancelAll] at hq
  obtain ⟨p, hp, rfl⟩ := Option.map_eq_some_iff.mp hq
  refine ⟨p, hp, ?_⟩
  split
  · exact ⟨rfl, fun _ he => he, fun _ => .inr (.inl rfl)⟩
  · exact ⟨rfl, fun _ he => he, .inl⟩

/-- A background subscription leaves every stored poller stored for its document. -/
theorem stores_subscribe (h : Sound s) {key other : DocumentKey} {id : PollerId}
    (hst : s.Stores other id) (callback : CallbackId) (requested : Edition) :
    (s.change (.subscribe key callback requested true)).Stores other id := by
  obtain ⟨hpool, hcache, -⟩ := Records.pollers_subscribe s.records key callback requested
  by_cases hk : key = other
  · subst hk
    refine .inl ((hpool key).trans ?_)
    rw [if_pos rfl]
    rcases hst with hst | hst
    · rw [hst]
      rfl
    · cases hp : s.records.pool.poller? key with
      | none => rw [hst]; rfl
      | some i =>
        rw [h.apart key i hp] at hst
        cases hst
  · refine hst.imp (fun hst => (hpool other).trans ?_) fun hst => (hcache other).trans ?_
    · rw [if_neg hk]
      exact hst
    · rw [if_neg fun hn => hk hn.1]
      exact hst

/-- A document has no poller if it has none in the pool and none in the cache. -/
theorem not_stores_iff {key : DocumentKey} :
    (∀ id, ¬s.Stores key id) ↔
      s.records.pool.poller? key = none ∧ s.records.cache.poller? key = none := by
  simp only [Stores, not_or, forall_and, Option.eq_none_iff_forall_ne_some, ne_eq]

/-- After a background subscription a poller is stored where it was, or it is new. -/
theorem stores_of_subscribe {key other : DocumentKey} {id : PollerId} {callback : CallbackId}
    {requested : Edition}
    (hst : (s.change (.subscribe key callback requested true)).Stores other id) :
    s.Stores other id ∨
      (other = key ∧ id = s.records.pollersMade ∧ ∀ i, ¬s.Stores key i) := by
  obtain ⟨hpool, hcache, -⟩ := Records.pollers_subscribe s.records key callback requested
  rcases hst with hi | hi
  · change (s.records.apply _).pool.poller? other = some id at hi
    rw [hpool] at hi
    split at hi
    case isFalse => exact .inl (.inl hi)
    case isTrue hk =>
      subst hk
      cases hp : s.records.pool.poller? key with
      | some i => rw [hp] at hi; exact .inl (.inl (hp.trans hi))
      | none =>
        cases hc : s.records.cache.poller? key with
        | some i => rw [hp, hc] at hi; exact .inl (.inr (hc.trans hi))
        | none =>
          rw [hp, hc] at hi
          cases hi
          exact .inr ⟨rfl, rfl, not_stores_iff.mpr ⟨hp, hc⟩⟩
  · change (s.records.apply _).cache.poller? other = some id at hi
    rw [hcache] at hi
    split at hi
    · cases hi
    · exact .inl (.inr hi)

/-- A background subscription takes the poller of its document out of the cache. -/
theorem apart_subscribe (h : Sound s) {key other : DocumentKey} {id : PollerId}
    {callback : CallbackId} {requested : Edition}
    (hi : (s.change (.subscribe key callback requested true)).records.pool.poller? other =
      some id) :
    (s.change (.subscribe key callback requested true)).records.cache.poller? other = none := by
  obtain ⟨hpool, hcache, -⟩ := Records.pollers_subscribe s.records key callback requested
  change (s.records.apply _).pool.poller? other = some id at hi
  refine (hcache other).trans ?_
  split
  case isTrue => rfl
  case isFalse hn =>
    rw [hpool] at hi
    split at hi
    case isFalse => exact h.apart other id hi
    case isTrue hk =>
      subst hk
      obtain ⟨i, hp⟩ := Option.ne_none_iff_exists'.mp fun hp => hn ⟨rfl, hp⟩
      exact h.apart key i hp

/-- Someone who joins a poller that is there settles the roster. -/
theorem settles_joins (h : Sound s) (key : DocumentKey) (callback : CallbackId)
    (requested : Edition) (present : ∃ id, s.Stores key id) :
    Settles s (s.change (.subscribe key callback requested true)) := by
  obtain ⟨-, -, hmade⟩ := Records.pollers_subscribe s.records key callback requested
  obtain ⟨id, hid⟩ := present
  have hpc : ¬(s.records.pool.poller? key = none ∧ s.records.cache.poller? key = none) :=
    fun hn => not_stores_iff.mpr hn id hid
  refine ⟨?_, rfl, .inl rfl, fun hs => hs, fun _ _ hi => h.apart_subscribe hi,
    fun other i hi => ?_, fun _ q hq => ⟨q, hq, rfl, fun _ he => he, .inl⟩⟩
  · change (s.records.apply _).pollersMade = _
    rw [hmade, if_neg hpc, Nat.add_zero]
  · rcases stores_of_subscribe hi with hst | ⟨-, -, hnone⟩
    · exact hst
    · exact absurd hid (hnone id)

/-- Someone who leaves cancels an idle poller, and the roster settles. -/
theorem settles_leaves (h : Sound s) (key : DocumentKey) (callback : CallbackId) :
    Settles s
      ((s.change (.unsubscribe key callback)).cancel
        (s.records.idleWithout key callback).toList) := by
  obtain ⟨hpool, hcache, hmade⟩ := Records.pollers_unsubscribe s.records key callback
  have hp (other : DocumentKey) (i : PollerId)
      (hi : (s.records.apply (.unsubscribe key callback)).pool.poller? other = some i) :
      s.records.pool.poller? other = some i ∧
        ¬(key = other ∧ (s.records.idleWithout key callback).isSome) := by
    rw [hpool] at hi
    split at hi
    case isTrue => cases hi
    case isFalse hn => exact ⟨hi, hn⟩
  refine ⟨hmade, length_cancelAll _ _, .inl rfl, fun hs => hs, fun other i hi => ?_,
    fun other i hi => ?_, fun i q hq => ?_⟩
  · exact (congrArg (·.poller? other) hcache).trans (h.apart other i (hp other i hi).1)
  · refine hi.imp (fun hi => (hp other i hi).1) fun hi => ?_
    exact (congrArg (·.poller? other) hcache).symm.trans hi
  · change (cancelAll (s.records.idleWithout key callback).toList s.pollers)[i]? = some q at hq
    rw [getElem?_cancelAll] at hq
    obtain ⟨p, hf, rfl⟩ := Option.map_eq_some_iff.mp hq
    refine ⟨p, hf, ?_⟩
    split
    case isFalse => exact ⟨rfl, fun _ he => he, .inl⟩
    case isTrue hi =>
      refine ⟨rfl, fun _ he => he, fun _ => .inr (.inr fun other hst => ?_)⟩
      rw [Option.mem_toList] at hi
      have hidle : s.records.pool.poller? key = some i := PollerPool.poller?_of_idle hi
      rcases hst with hst | hst
      · obtain ⟨hin, hn⟩ := hp other i hst
        have hkey : other = key := h.key_unique (.inl hidle) (.inl hin)
        exact hn ⟨hkey.symm, by rw [hi]; rfl⟩
      · have hin : s.records.cache.poller? other = some i :=
          (congrArg (·.poller? other) hcache).symm.trans hst
        have hkey : other = key := h.key_unique (.inl hidle) (.inr hin)
        rw [hkey, h.apart key i hidle] at hin
        cases hin

/-- A lookup that is served by a poller that is there settles the roster. -/
theorem settles_hints (h : Sound s) (now : Instant) (key : DocumentKey) (prefetch : Bool)
    (present : ∃ id, s.records.lookup key = .hinted id) :
    Settles s (s.change (.resolve now key prefetch)) := by
  obtain ⟨id, hl⟩ := present
  obtain ⟨hpool, hcache, hmade⟩ := Records.pollers_resolve_of_hinted now prefetch hl
  refine ⟨hmade, rfl, .inl rfl, fun hs => hs, fun other i hi => ?_, fun other i hi => ?_,
    fun _ q hq => ⟨q, hq, rfl, fun _ he => he, .inl⟩⟩
  · change (s.records.apply _).cache.poller? other = none
    change (s.records.apply _).pool.poller? other = some i at hi
    rw [hpool] at hi
    rw [hcache]
    exact h.apart other i hi
  · rcases hi with hi | hi
    · exact .inl ((congrArg (·.poller? other) hpool).symm.trans hi)
    · exact .inr ((hcache other).symm.trans hi)

/-- A roster grows by a background poller that is started. -/
theorem grows_starts (h : Sound s) {key : DocumentKey} (callback : CallbackId)
    (requested : Edition) {p : Poller} (alive : s.alive = true) (absent : ∀ id, ¬s.Stores key id)
    (fresh : Fresh s.accepts key [] p) :
    Grows s ((s.change (.subscribe key callback requested true)).add p) key p := by
  obtain ⟨-, -, hmade⟩ := Records.pollers_subscribe s.records key callback requested
  refine ⟨?_, rfl, fresh.key, fresh.cancelled, rfl, alive, fun _ _ hi => h.apart_subscribe hi,
    fun k i hi => ?_, fun e he => absurd (fresh.mem_of_mem_evicted he) List.not_mem_nil⟩
  · change (s.records.apply _).pollersMade = _
    rw [hmade, if_pos (not_stores_iff.mp absent)]
  · rcases stores_of_subscribe hi with hst | ⟨hk, hn, -⟩
    · exact .inl hst
    · exact .inr ⟨hk, hn.trans h.numbered⟩

/-- After a lookup that made a poller, a poller is stored where it was, or it is the new one;
one that was pushed out of the cache is not stored any more. -/
theorem stores_of_lookUp (h : Sound s) {now : Instant} {key other : DocumentKey}
    {prefetch : Bool} {id : PollerId} (absent : ∀ id, ¬s.Stores key id)
    (hst : (s.change (.resolve now key prefetch)).Stores other id) :
    (s.Stores other id ∧
        (s.records.cache.insert key s.records.pollersMade).evicted ≠ some (other, id)) ∨
      (other = key ∧ id = s.pollers.length) := by
  obtain ⟨hp, hc⟩ := not_stores_iff.mp absent
  obtain ⟨hpool, hcache, -⟩ := Records.pollers_resolve_of_started now prefetch hp hc
  rcases hst with hi | hi
  · have hin : s.records.pool.poller? other = some id :=
      (congrArg (·.poller? other) hpool).symm.trans hi
    refine .inl ⟨.inl hin, fun hout => ?_⟩
    have hold := LookupCache.poller?_of_evicted hout
    rw [h.apart other id hin] at hold
    cases hold
  · change (s.records.apply _).cache.poller? other = some id at hi
    rw [hcache, LookupCache.poller?_insert] at hi
    split at hi
    case isTrue hk =>
      cases hi
      exact .inr ⟨hk.symm, h.numbered⟩
    case isFalse =>
      split at hi
      case isTrue => cases hi
      case isFalse hn => exact .inl ⟨.inr hi, fun hout => hn (by rw [hout]; rfl)⟩

/-- A roster grows by a temporary poller that is started, while another one may be pushed out. -/
theorem grows_looksUp (h : Sound s) (now : Instant) {key : DocumentKey}
    (prefetch : Bool) {p : Poller} (alive : s.alive = true) (absent : ∀ id, ¬s.Stores key id)
    (fresh :
      Fresh s.accepts key
        ((s.records.cache.insert key s.records.pollersMade).evicted.map Prod.snd).toList p) :
    Grows s ((s.change (.resolve now key prefetch)).add p) key p := by
  obtain ⟨hp, hc⟩ := not_stores_iff.mp absent
  obtain ⟨hpool, hcache, hmade⟩ := Records.pollers_resolve_of_started now prefetch hp hc
  refine ⟨hmade, rfl, fresh.key, fresh.cancelled, rfl, alive, fun k i hi => ?_,
    fun k i hi => (h.stores_of_lookUp absent hi).imp And.left id, fun e he => ?_⟩
  · change (s.records.apply _).cache.poller? k = none
    change (s.records.apply _).pool.poller? k = some i at hi
    rw [hpool] at hi
    rw [hcache, LookupCache.poller?_insert]
    split
    case isTrue hk =>
      rw [← hk, hp] at hi
      cases hi
    case isFalse =>
      rw [h.apart k i hi, ite_self]
  · have hin := fresh.mem_of_mem_evicted he
    rw [Option.mem_toList] at hin
    obtain ⟨⟨old, i⟩, hout, rfl⟩ := Option.map_eq_some_iff.mp hin
    have hold : s.Stores old i := .inr (LookupCache.poller?_of_evicted hout)
    refine ⟨⟨old, hold⟩, fun k hst => ?_⟩
    rcases h.stores_of_lookUp absent hst with ⟨hst, hn⟩ | ⟨-, he⟩
    · have hk : k = old := h.key_unique hold hst
      exact hn (hk ▸ hout)
    · exact absurd (h.lt_of_stores hold) (he ▸ Nat.lt_irrefl _)

/-- As long as not everything is stopped, a poller that is free to end is not stored. -/
theorem not_stores_of_free (h : Sound s) (running : s.stopped = false) {id : PollerId}
    {p : Poller} (found : s.pollers[id]? = some p)
    (free : p.cancelled = true ∨ s.stopped = true ∨ s.Unreferred id) (key : DocumentKey) :
    ¬s.Stores key id := by
  intro hst
  rcases free with hc | hs | hn
  · obtain ⟨q, hq, -, hcancel⟩ := h.own key id hst
    rw [found, Option.some.injEq] at hq
    rw [hq, hcancel running] at hc
    cases hc
  · rw [running] at hs
    cases hs
  · exact hn.1 key hst

/-- A poller that finds the watch gone, or is not in the records of its document, is not
stored. -/
theorem not_stores_of_unstored (h : Sound s) {id : PollerId} {p : Poller}
    (found : s.pollers[id]? = some p)
    (unstored : s.alive = false ∨ s.records.indexes p.key id = false) (key : DocumentKey) :
    ¬s.Stores key id := by
  intro hst
  rcases unstored with hgone | hout
  · exact (h.gone hgone).2 key id hst
  · obtain ⟨q, hq, hk, -⟩ := h.own key id hst
    rw [found, Option.some.injEq] at hq
    subst hq hk
    rw [Records.indexes, Bool.or_eq_false_iff, decide_eq_false_iff_not,
      decide_eq_false_iff_not] at hout
    exact hst.elim hout.1 hout.2

/-- A smooth step leaves an executor that takes pollers as it is. -/
theorem accepts_step {changes : List Records.Change} (step : Step true s changes t)
    (h : s.accepts = true) : t.accepts = true := by
  cases step with
  | refuses accepts cause =>
    rcases cause with hf | ha
    · cases hf
    · exact ha
  | _ => exact h

/-- Every step settles the roster or makes one poller. -/
theorem settles_or_grows (h : Sound s) {smooth : Bool} {changes : List Records.Change}
    (step : Step smooth s changes t) : Settles s t ∨ ∃ key p, Grows s t key p := by
  cases step with
  | record change spares =>
    exact .inl (h.settles_of_keepsPollers (Records.keepsPollers_apply _ change spares) rfl rfl rfl
      fun _ q hq => ⟨q, hq, rfl, fun _ he => he, .inl⟩)
  | turn id p next found before after key cancelled =>
    exact .inl (h.settles_of_set found key (Poller.evicted_of_isUnderway after) cancelled)
  | send id command => exact .inl (h.settles_send id command)
  | begins id p evicted found stage => exact .inl (h.settles_begins found stage)
  | ends id p found underway unstored => exact .inl (h.settles_of_set found rfl rfl rfl)
  | quits id p cancelled found underway free => exact .inl (h.settles_quits cancelled found)
  | collapses id p found underway cause => exact .inl (h.settles_of_set found rfl rfl rfl)
  | refuses accepts cause =>
    exact .inl (h.settles_of_keepsPollers ⟨rfl, rfl, rfl⟩ rfl rfl rfl
      fun _ q hq => ⟨q, hq, rfl, fun _ he => he, .inl⟩)
  | stops => exact .inl (settles_stops s)
  | shutsDown => exact .inl (settles_shutsDown s)
  | joins key callback requested present =>
    exact .inl (h.settles_joins key callback requested present)
  | starts key callback requested p alive absent fresh =>
    exact .inr ⟨key, p, h.grows_starts callback requested alive absent fresh⟩
  | leaves key callback => exact .inl (h.settles_leaves key callback)
  | hints now key prefetch present => exact .inl (h.settles_hints now key prefetch present)
  | looksUp now key prefetch p alive absent fresh =>
    exact .inr ⟨key, p, h.grows_looksUp now prefetch alive absent fresh⟩

/-- Every step leaves a roster sound. -/
theorem step (h : Sound s) {smooth : Bool} {changes : List Records.Change}
    (step : Step smooth s changes t) : Sound t := by
  rcases h.settles_or_grows step with hs | ⟨key, p, hg⟩
  · exact h.of_settles hs
  · exact h.of_grows hg

/-- All steps leave a roster sound. -/
theorem steps (h : Sound s) {smooth : Bool} {changes : List Records.Change}
    (steps : Steps smooth s changes t) : Sound t := by
  induction steps with
  | refl => exact h
  | tail _ step ih => exact ih.step step

end Sound

end Roster

namespace Watch

variable {w : Watch} {id : PollerId}

/-- The pollers of the records are those that are stored. -/
theorem mem_pollers_iff_stores : id ∈ w.records.pollers ↔ ∃ key, w.roster.Stores key id := by
  rw [Records.pollers, List.mem_append, PollerPool.mem_pollers_iff, LookupCache.mem_pollers_iff,
    ← exists_or]
  rfl

/-- A poller that the records index for a document is stored for it. -/
theorem stores_of_indexes {key : DocumentKey} (h : w.records.indexes key id = true) :
    w.roster.Stores key id := by
  rw [Records.indexes, Bool.or_eq_true, decide_eq_true_eq, decide_eq_true_eq] at h
  exact h

/-- A watch has nothing in its records when it is new. -/
theorem sound_initial (settings : Settings) (listeners : List Listener) :
    (initial settings listeners).roster.Sound where
  numbered := rfl
  gone h := by cases h
  apart _ _ h := by cases h
  own _ _ h := by rcases h with h | h <;> cases h
  listed _ _ h := by cases h
  once _ _ _ _ h := by cases h

end Watch

end EditionWatch
