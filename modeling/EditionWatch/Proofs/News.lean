import EditionWatch.Records.Change

/-!
# What a subscriber is told

A document is seen from outside as its slot together with the word whether that slot is known
good. A subscriber is told of every change of this view above the edition it asked for, from
its registration on, and of nothing else. The invariant behind it: each subscriber has heard
exactly the present view, or nothing if that view is not above what it asked for.
-/

namespace EditionWatch

/-- The slot with the word whether it is known good. -/
def Frontier.view (f : Frontier) : Option Heard := f.slot.map fun slot => ⟨slot, f.good = some slot⟩

/-- The known good edition is not above the slot. -/
def Frontier.Sound (f : Frontier) : Prop :=
  ∀ good, f.good = some good → ∃ slot, f.slot = some slot ∧ good ≤ slot

/-- What of a view concerns someone who asked for editions above one. -/
def audible (requested : Edition) (view : Option Heard) : Option Heard :=
  view.filter fun heard => requested < heard.edition

@[simp] theorem audible_none (requested : Edition) : audible requested none = none := rfl

/-- Of what is known, that is heard which is above what was asked for. -/
theorem audible_some (requested : Edition) (heard : Heard) :
    audible requested (some heard) = if requested < heard.edition then some heard else none := by
  by_cases h : requested < heard.edition
  · rw [if_pos h, audible, Option.filter_some_pos (by simpa using h)]
  · rw [if_neg h, audible, Option.filter_some_neg (by simpa using h)]

/-- The news of a change of the view, for someone who asked for editions above one. It is a
new slot unless the slot stood there before. -/
def tiding (key : DocumentKey) (requested : Edition) (before now : Option Heard) : List Found :=
  if now = before then []
  else
    match audible requested now with
    | none => []
    | some heard =>
      [⟨key, heard.edition, heard.good, before.map Heard.edition ≠ some heard.edition⟩]

/-- The news of a course of views, each compared with the one before it. -/
def tidings (key : DocumentKey) (requested : Edition) (before : Option Heard) :
    List (Option Heard) → List Found
  | [] => []
  | now :: rest => tiding key requested before now ++ tidings key requested now rest

/-- What someone has heard who was told of an edition. -/
def Found.heard (found : Found) : Heard := ⟨found.edition, found.good⟩

/-- An edition tells a change of the view: it is the new view, and news to all who had heard
the old one; or it lags behind a slot that stays as it is. -/
inductive Found.Tells (found : Found) (before now : Option Heard) : Prop where
  | moves (view : now = some found.heard) (differs : now ≠ before)
      (news : Subscriber.isNews found before = true)
      (newSlot : found.newSlot = decide (before.map Heard.edition ≠ some found.edition))
  | lags (same : now = before) (slot : Heard) (view : before = some slot)
      (behind : found.edition < slot.edition)

namespace Subscriber

variable {s : Subscriber} {found : Found} {before now : Option Heard}

/-- What is news to those who heard the whole old view is news to those who heard a part. -/
theorem isNews_audible (h : isNews found before = true) (requested : Edition) :
    isNews found (audible requested before) = true := by
  cases before with
  | none => rfl
  | some heard =>
    rw [audible_some]
    split
    · exact h
    · rfl

/-- Only the edition and whether it is known good decide about news. -/
theorem isNews_congr {news : Found} (hh : found.heard = news.heard)
    (h : isNews news before = true) : isNews found before = true := by
  have he : found.edition = news.edition := congrArg Heard.edition hh
  have hg : found.good = news.good := congrArg Heard.good hh
  cases before with
  | none => rfl
  | some heard => simpa [isNews, he, hg] using h

/-- What is news after some news was news before it. -/
theorem isNews_trans {news : Found} (h : isNews found (some news.heard) = true)
    (hn : isNews news before = true) : isNews found before = true := by
  cases before with
  | none => rfl
  | some heard =>
    simp only [isNews, Found.heard, Bool.or_eq_true, Bool.and_eq_true, decide_eq_true_eq,
      Bool.not_eq_true'] at h hn ⊢
    grind

/-- An edition that lags behind the slot concerns nobody. -/
theorem not_wants_of_lags {slot : Heard} (hs : s.heard = audible s.requested (some slot))
    (h : found.edition < slot.edition) : s.wants found = false := by
  rw [audible_some] at hs
  by_cases hr : s.requested < slot.edition
  · have hne : ¬found.edition = slot.edition := by grind
    have hle : ¬slot.edition < found.edition := by grind
    simp [wants, hs, hr, isNews, hne, hle]
  · have hle : ¬s.requested < found.edition := by grind
    simp [wants, hle]

/-- A subscriber that heard the old view gets exactly the news of the change. -/
theorem deliveries_of_tells (hs : s.heard = audible s.requested before)
    (ht : found.Tells before now) :
    s.deliveries found = (tiding found.key s.requested before now).map (.found s.callback) := by
  cases ht with
  | moves view differs news newSlot =>
    have hn : isNews found s.heard = true := hs ▸ isNews_audible news s.requested
    rw [tiding, if_neg differs, view, Found.heard, audible_some]
    by_cases hr : s.requested < found.edition
    · simp only [deliveries, wants, hr, hn, decide_true, Bool.true_and, if_true, ← newSlot]
      rfl
    · simp [deliveries, wants, hr]
  | lags same slot view behind =>
    have hw : s.wants found = false := not_wants_of_lags (view ▸ hs) behind
    rw [tiding, if_pos same]
    simp [deliveries, hw]

/-- After being told, a subscriber that heard the old view has heard the new one. -/
theorem heard_tell_of_tells (hs : s.heard = audible s.requested before)
    (ht : found.Tells before now) : (s.tell found).heard = audible s.requested now := by
  cases ht with
  | moves view differs news newSlot =>
    have hn : isNews found s.heard = true := hs ▸ isNews_audible news s.requested
    rw [view, Found.heard, audible_some]
    by_cases hr : s.requested < found.edition
    · simp [tell, wants, hr, hn]
    · have hb : audible s.requested before = none := by
        cases before with
        | none => rfl
        | some heard =>
          have hle : ¬s.requested < heard.edition := by
            simp only [isNews, Bool.or_eq_true, Bool.and_eq_true, decide_eq_true_eq] at news
            grind
          rw [audible_some, if_neg hle]
      simp [tell, wants, hr, hs, hb]
  | lags same slot view behind =>
    have hw : s.wants found = false := not_wants_of_lags (view ▸ hs) behind
    simp [tell, hw, hs, same]

end Subscriber

namespace Frontier

variable {f : Frontier} {e : Edition}

/-- What is above a known edition is greater. -/
theorem lt_of_isAbove {known : Edition} (h : isAbove e (some known) = true) : known < e :=
  of_decide_eq_true h

/-- A slot above the old one is a new view, and not a known good one. -/
theorem tells_raiseSlot? {f' : Frontier} (hf : f.Sound) (h : f.raiseSlot? e = some f')
    (key : DocumentKey) : Found.Tells ⟨key, e, false, true⟩ f.view f'.view := by
  unfold raiseSlot? at h
  split at h
  case isFalse => cases h
  case isTrue ha =>
    cases h
    have hg : f.good ≠ some e := by
      intro hg
      obtain ⟨slot, hs, hle⟩ := hf e hg
      rw [hs] at ha
      have hlt := lt_of_isAbove ha
      grind
    cases hs : f.slot with
    | none =>
      refine .moves ?_ ?_ ?_ ?_ <;> simp [view, hs, hg, Subscriber.isNews, Found.heard]
    | some slot =>
      rw [hs] at ha
      have hlt := lt_of_isAbove ha
      have hne : slot ≠ e := by grind
      refine .moves ?_ ?_ ?_ ?_ <;>
        simp [view, hs, hg, Subscriber.isNews, Found.heard, hlt, hne, hne.symm]

/-- A slot that is raised leaves the frontier sound. -/
theorem sound_raiseSlot? {f' : Frontier} (hf : f.Sound) (h : f.raiseSlot? e = some f') :
    f'.Sound := by
  unfold raiseSlot? at h
  split at h
  case isFalse => cases h
  case isTrue ha =>
    cases h
    intro good hg
    obtain ⟨slot, hs, hle⟩ := hf good hg
    rw [hs] at ha
    have hlt := lt_of_isAbove ha
    exact ⟨e, rfl, by grind⟩

/-- A fetched edition above the slot is a new view, one at the slot confirms it, and one below
changes nothing that can be seen. -/
theorem tells_raiseGood? {rise : GoodRise} (h : f.raiseGood? e = some rise)
    (key : DocumentKey) :
    Found.Tells ⟨key, e, true, rise.slotRose⟩ f.view rise.frontier.view := by
  unfold raiseGood? at h
  split at h
  case isFalse => cases h
  case isTrue ha =>
    cases h
    cases hs : f.slot with
    | none =>
      refine .moves ?_ ?_ ?_ ?_ <;> simp [view, hs, isAbove, Subscriber.isNews, Found.heard]
    | some slot =>
      by_cases hlt : slot < e
      · have hne : slot ≠ e := by grind
        refine .moves ?_ ?_ ?_ ?_ <;>
          simp [view, hs, isAbove, Subscriber.isNews, Found.heard, hlt, hne, hne.symm]
      · have hg : f.good ≠ some slot := by
          intro hg
          rw [hg] at ha
          exact hlt (lt_of_isAbove ha)
        by_cases he : slot = e
        · subst he
          refine .moves ?_ ?_ ?_ ?_ <;>
            simp [view, hs, isAbove, Subscriber.isNews, Found.heard, hlt, hg]
        · have hne : e ≠ slot := fun h => he h.symm
          refine .lags ?_ ⟨slot, false⟩ ?_ (by grind) <;> simp [view, hs, isAbove, hlt, hg, hne]

/-- A good edition that is raised leaves the frontier sound. -/
theorem sound_raiseGood? {rise : GoodRise} (h : f.raiseGood? e = some rise) :
    rise.frontier.Sound := by
  unfold raiseGood? at h
  split at h
  case isFalse => cases h
  case isTrue ha =>
    cases h
    intro good hg
    cases hg
    cases hs : f.slot with
    | none => exact ⟨e, by simp [isAbove], by grind⟩
    | some slot =>
      by_cases hlt : slot < e
      · exact ⟨e, by simp [isAbove, hlt], by grind⟩
      · exact ⟨slot, by simp [isAbove, hlt], by grind⟩

end Frontier

/-- The news in a delivery to a callback about a document. -/
def Delivery.newsFor? (key : DocumentKey) (callback : CallbackId) : Delivery → Option Found
  | .found told news => if told = callback ∧ news.key = key then some news else none
  | .round _ _ => none

/-- The news in deliveries to a callback about a document. -/
def newsFor (key : DocumentKey) (callback : CallbackId) (deliveries : List Delivery) :
    List Found :=
  deliveries.filterMap (Delivery.newsFor? key callback)

theorem newsFor_append (key : DocumentKey) (callback : CallbackId) (ds ds' : List Delivery) :
    newsFor key callback (ds ++ ds') = newsFor key callback ds ++ newsFor key callback ds' :=
  List.filterMap_append

/-- A tiding is about its own document. -/
theorem key_of_mem_tiding {key : DocumentKey} {requested : Edition} {before now : Option Heard}
    {found : Found} (h : found ∈ tiding key requested before now) : found.key = key := by
  unfold tiding at h
  split at h
  · cases h
  · split at h
    · cases h
    · rw [List.mem_singleton.mp h]

/-- News says what the view has become. -/
theorem view_of_mem_tiding {key : DocumentKey} {requested : Edition} {before now : Option Heard}
    {found : Found} (h : found ∈ tiding key requested before now) : now = some found.heard := by
  unfold tiding at h
  split at h
  · cases h
  · cases now with
    | none => cases h
    | some heard =>
      rw [audible_some] at h
      split at h
      · cases h
      · rename_i hh
        split at hh
        · cases hh
          rw [List.mem_singleton.mp h]
          rfl
        · cases hh

/-- A change of the view is news once at most. -/
theorem pairwise_tiding {p : Found → Found → Prop} (key : DocumentKey) (requested : Edition)
    (before now : Option Heard) : (tiding key requested before now).Pairwise p := by
  unfold tiding
  split
  · exact List.Pairwise.nil
  · split
    · exact List.Pairwise.nil
    · exact List.pairwise_singleton p _

/-- Of a list without repetitions, only one element contributes if all others are silent. -/
theorem flatMap_eq_of_unique {α β γ : Type} (name : α → γ) (g : α → List β) {l : List α} {a : α}
    (hd : (l.map name).Nodup) (ha : a ∈ l) (hg : ∀ b ∈ l, name b ≠ name a → g b = []) :
    l.flatMap g = g a := by
  induction l with
  | nil => cases ha
  | cons b l ih =>
    rw [List.map_cons, List.nodup_cons] at hd
    rw [List.flatMap_cons]
    rcases List.mem_cons.mp ha with rfl | ha
    · have hr : l.flatMap g = [] := by
        refine List.flatMap_eq_nil_iff.mpr fun c hc => hg c (List.mem_cons_of_mem _ hc) fun he => ?_
        exact hd.1 (List.mem_map.mpr ⟨c, hc, he⟩)
      rw [hr, List.append_nil]
    · have hb : g b = [] := hg b List.mem_cons_self fun he =>
        hd.1 (List.mem_map.mpr ⟨a, ha, he.symm⟩)
      rw [hb, List.nil_append]
      exact ih hd.2 ha fun c hc => hg c (List.mem_cons_of_mem _ hc)

namespace Records

/-- The view of a document. -/
def view (r : Records) (key : DocumentKey) : Option Heard := (r.frontier key).view

/-- No frontier is upside down, each callback is registered at most once for a document, and
each subscriber has heard the present view as far as that is above what it asked for. -/
structure Attuned (r : Records) : Prop where
  sound : ∀ key, (r.frontier key).Sound
  distinct : ∀ key, ((r.registry.of key).map Subscriber.callback).Nodup
  heard : ∀ key, ∀ s ∈ r.registry.of key, s.heard = audible s.requested (r.view key)

/-- The first records are attuned. -/
theorem attuned_initial (capacity : Nat) : Attuned (initial capacity) where
  sound _ _ h := by cases h
  distinct _ := List.nodup_nil
  heard _ s h := by cases h

/-- Two records show the same frontiers and have the same subscribers. -/
structure Agrees (r r' : Records) : Prop where
  frontier : ∀ key, r'.frontier key = r.frontier key
  registry : r'.registry = r.registry

/-- Records that agree with attuned ones are attuned. -/
theorem Agrees.attuned {r r' : Records} (h : Agrees r r') (ha : Attuned r) : Attuned r' where
  sound key := by rw [h.frontier]; exact ha.sound key
  distinct key := by rw [h.registry]; exact ha.distinct key
  heard key := by rw [h.registry, view, h.frontier]; exact ha.heard key

/-- An edition raised a frontier and was announced to all subscribers. -/
structure Announces (r r' : Records) (found : Found) : Prop where
  registry : r'.registry = r.registry.tellAll found
  pending : r'.queue.pending = r.queue.pending ++ r.registry.deliveriesToAll found
  frontier : ∀ key, found.key ≠ key → r'.frontier key = r.frontier key
  sound : (r'.frontier found.key).Sound
  tells : found.Tells (r.view found.key) (r'.view found.key)

/-- What raised a frontier and is announced to all is announced as it should be. -/
theorem announces_of_raised {r raised : Records} {found : Found} {f : Frontier}
    (hr : raised.registry = r.registry) (hq : raised.queue = r.queue)
    (hf : ∀ key, raised.frontier key = if found.key = key then f else r.frontier key)
    (hs : f.Sound) (ht : found.Tells (r.view found.key) f.view) :
    Announces r (raised.announce found) found := by
  have hself : (raised.announce found).frontier found.key = f := (hf found.key).trans (if_pos rfl)
  constructor
  · rw [← hr]; rfl
  · rw [← hr, ← hq]; rfl
  · exact fun key hk => (hf key).trans (if_neg hk)
  · rw [hself]; exact hs
  · change found.Tells (r.view found.key) ((raised.announce found).frontier found.key).view
    rw [hself]
    exact ht

/-- A slot that is noted is announced unless it was known. -/
theorem noteSlot_cases {r : Records} (h : Attuned r) (now : Instant) (uri : EditionUri) :
    r.noteSlot now uri = r ∨ ∃ found, Announces r (r.noteSlot now uri) found := by
  unfold noteSlot
  cases hf : (r.frontier uri.key).raiseSlot? uri.edition with
  | none => exact .inl rfl
  | some f =>
    have hs : f.Sound := Frontier.sound_raiseSlot? (h.sound uri.key) hf
    have ht := Frontier.tells_raiseSlot? (h.sound uri.key) hf uri.key
    exact .inr ⟨_, announces_of_raised rfl rfl
      (fun key => frontier_setFrontier r uri.key key f) hs ht⟩

/-- A good edition that is noted is announced unless it was known. -/
theorem noteGood_cases (r : Records) (now : Instant) (uri : EditionUri) :
    r.noteGood now uri = r ∨ ∃ found, Announces r (r.noteGood now uri) found := by
  unfold noteGood
  cases hf : (r.frontier uri.key).raiseGood? uri.edition with
  | none => exact .inl rfl
  | some rise =>
    have hs : rise.frontier.Sound := Frontier.sound_raiseGood? hf
    have ht := Frontier.tells_raiseGood? hf uri.key
    have hof (key : DocumentKey) := frontier_setFrontier r uri.key key rise.frontier
    refine .inr ⟨_, announces_of_raised ?_ ?_ ?_ hs ht⟩
    · cases rise.slotRose <;> rfl
    · cases rise.slotRose <;> rfl
    · cases rise.slotRose <;> exact hof

/-- To announce an edition changes the view of its own document only. -/
theorem Announces.view_eq {r r' : Records} {found : Found} (h : Announces r r' found)
    {key : DocumentKey} (hk : found.key ≠ key) : r'.view key = r.view key := by
  rw [view, view, h.frontier key hk]

/-- Records are attuned after an edition was announced. -/
theorem Announces.attuned {r r' : Records} {found : Found} (h : Announces r r' found)
    (ha : Attuned r) : Attuned r' where
  sound key := by
    by_cases hk : found.key = key
    · exact hk ▸ h.sound
    · rw [h.frontier key hk]
      exact ha.sound key
  distinct key := by
    rw [h.registry, Registry.callbacks_tellAll]
    exact ha.distinct key
  heard key s hs := by
    rw [h.registry, Registry.of_tellAll] at hs
    by_cases hk : found.key = key
    · subst hk
      rw [if_pos rfl] at hs
      obtain ⟨t, ht, rfl⟩ := List.mem_map.mp hs
      rw [Subscriber.requested_tell]
      exact Subscriber.heard_tell_of_tells (ha.heard _ t ht) h.tells
    · rw [if_neg hk] at hs
      rw [h.view_eq hk]
      exact ha.heard key s hs

/-- What stands of a document is its view, brought as a new slot. -/
theorem standing_eq (r : Records) (key : DocumentKey) :
    r.standing key = (r.view key).map fun heard => ⟨key, heard.edition, heard.good, true⟩ := by
  simp [standing, view, Frontier.view, Function.comp_def]

/-- The present view is told to someone who has heard nothing. -/
theorem tells_standing {r : Records} {key : DocumentKey} {found : Found}
    (h : r.standing key = some found) : found.key = key ∧ found.Tells none (r.view key) := by
  rw [standing_eq] at h
  obtain ⟨heard, hv, rfl⟩ := Option.map_eq_some_iff.mp h
  exact ⟨rfl, .moves hv (by rw [hv]; exact Option.some_ne_none _) rfl rfl⟩

/-- The present view is no news to someone who has heard it. -/
theorem not_wants_standing {r : Records} {key : DocumentKey} {found : Found} {s : Subscriber}
    (h : r.standing key = some found) (hs : s.heard = audible s.requested (r.view key)) :
    s.wants found = false := by
  rw [standing_eq] at h
  obtain ⟨heard, hv, rfl⟩ := Option.map_eq_some_iff.mp h
  rw [hv, audible_some] at hs
  by_cases hr : s.requested < heard.edition
  · have hn : ¬heard.edition < heard.edition := by grind
    simp [Subscriber.wants, hs, hr, Subscriber.isNews, hn]
  · simp [Subscriber.wants, hr]

/-- Who is registered is informed of what stands, if anything does. -/
theorem register_cases (r : Records) (key : DocumentKey) (callback : CallbackId)
    (requested : Edition) :
    (r.view key = none ∧ r.register key callback requested = r.enrol key callback requested) ∨
      ∃ found, r.standing key = some found ∧
        r.register key callback requested =
          (r.enrol key callback requested).inform callback found := by
  have hs : (r.enrol key callback requested).standing key = r.standing key := rfl
  unfold register
  dsimp only
  rw [hs]
  cases h : r.standing key with
  | none =>
    rw [standing_eq] at h
    exact .inl ⟨Option.map_eq_none_iff.mp h, rfl⟩
  | some found => exact .inr ⟨found, rfl, rfl⟩

/-- To register someone raises no frontier. -/
theorem frontiers_register (r : Records) (key : DocumentKey) (callback : CallbackId)
    (requested : Edition) :
    (r.register key callback requested).frontiers = r.frontiers := by
  obtain ⟨-, he⟩ | ⟨found, -, he⟩ := register_cases r key callback requested <;> rw [he] <;> rfl

/-- The subscribers of a document after a callback was put among them are the old ones and
perhaps the callback, which then has heard nothing. -/
theorem mem_enrol {r : Records} {key other : DocumentKey} {callback : CallbackId}
    {requested : Edition} {s : Subscriber}
    (h : s ∈ (r.enrol key callback requested).registry.of other) :
    s ∈ r.registry.of other ∨
      (other = key ∧ r.registry.has key callback = false ∧ s = ⟨callback, requested, none⟩) := by
  change s ∈ (r.registry.add key callback requested).of other at h
  rw [Registry.of_add] at h
  split at h
  case isTrue hk =>
    obtain ⟨rfl, hn⟩ := hk
    rcases List.mem_append.mp h with h | h
    · exact .inl h
    · exact .inr ⟨rfl, hn, List.mem_singleton.mp h⟩
  case isFalse => exact .inl h

/-- A callback is enrolled once for each document. -/
theorem distinct_enrol {r : Records} (h : Attuned r) (key other : DocumentKey)
    (callback : CallbackId) (requested : Edition) :
    (((r.enrol key callback requested).registry.of other).map Subscriber.callback).Nodup := by
  change (((r.registry.add key callback requested).of other).map Subscriber.callback).Nodup
  rw [Registry.of_add]
  split
  case isTrue hk =>
    obtain ⟨rfl, hn⟩ := hk
    rw [List.map_append, List.nodup_append]
    refine ⟨h.distinct key, by simp, fun c hc d hd he => ?_⟩
    obtain ⟨s, hs, rfl⟩ := List.mem_map.mp hc
    have hd' : d = callback := by simpa using hd
    have hin := (Registry.has_iff r.registry key callback).mpr ⟨s, hs, he.trans hd'⟩
    rw [hn] at hin
    exact Bool.false_ne_true hin
  case isFalse => exact h.distinct other

/-- Records are attuned after someone was registered. -/
theorem attuned_register {r : Records} (h : Attuned r) (key : DocumentKey)
    (callback : CallbackId) (requested : Edition) :
    Attuned (r.register key callback requested) := by
  have hf (other : DocumentKey) :
      (r.register key callback requested).frontier other = r.frontier other := by
    rw [frontier, frontiers_register]
    rfl
  refine ⟨fun other => hf other ▸ h.sound other, fun other => ?_, fun other s hs => ?_⟩
  · obtain ⟨-, he⟩ | ⟨found, -, he⟩ := register_cases r key callback requested
    · rw [he]
      exact distinct_enrol h key other callback requested
    · rw [he]
      exact (Registry.callbacks_tellOne _ callback found other).symm ▸
        distinct_enrol h key other callback requested
  · rw [view, hf]
    change s.heard = audible s.requested (r.view other)
    obtain ⟨hv, he⟩ | ⟨found, hst, he⟩ := register_cases r key callback requested
    · rw [he] at hs
      rcases mem_enrol hs with hs | ⟨rfl, -, rfl⟩
      · exact h.heard other s hs
      · rw [hv]; rfl
    · obtain ⟨hk, ht⟩ := tells_standing hst
      rw [he] at hs
      change s ∈ ((r.enrol key callback requested).registry.tellOne callback found).of other at hs
      rw [Registry.of_tellOne] at hs
      split at hs
      case isFalse hne =>
        rcases mem_enrol hs with hs | ⟨rfl, -, -⟩
        · exact h.heard other s hs
        · exact absurd hk hne
      case isTrue heq =>
        obtain rfl : key = other := hk.symm.trans heq
        rw [hk] at hs
        obtain ⟨t, hm, rfl⟩ := List.mem_map.mp hs
        rcases mem_enrol hm with hm | ⟨-, -, rfl⟩
        · have hw := not_wants_standing hst (h.heard key t hm)
          have hsame : t.tell found = t := by simp [Subscriber.tell, hw]
          rw [hsame, ite_self]
          exact h.heard key t hm
        · rw [if_pos rfl, Subscriber.requested_tell]
          exact Subscriber.heard_tell_of_tells rfl ht

/-- What keeps the news keeps frontiers and subscribers. -/
theorem KeepsNews.agrees {r r' : Records} (h : KeepsNews r r') : Agrees r r' where
  frontier key := by rw [frontier, frontier, h.frontiers]
  registry := h.registry

/-- Records are attuned after someone was removed. -/
theorem attuned_unregister {r : Records} (h : Attuned r) (key : DocumentKey)
    (callback : CallbackId) : Attuned (r.unregister key callback) := by
  have hof (other : DocumentKey) : (r.unregister key callback).registry.of other =
      if key = other then (r.registry.of key).filter fun s => s.callback ≠ callback
      else r.registry.of other :=
    Registry.of_remove r.registry key other callback
  refine ⟨h.sound, fun other => ?_, fun other s hs => ?_⟩
  · rw [hof]
    split
    case isTrue hk => exact (h.distinct key).sublist (List.filter_sublist.map _)
    case isFalse => exact h.distinct other
  · rw [hof] at hs
    split at hs
    case isTrue hk =>
      subst hk
      exact h.heard key s (List.mem_filter.mp hs).1
    case isFalse => exact h.heard other s hs

/-- A change of the records as the subscribers see it. -/
inductive Effect (r : Records) (change : Change) : Prop where
  | announces (found : Found) (announced : Announces r (r.apply change) found)
  | registers (key : DocumentKey) (callback : CallbackId) (requested : Edition) (polls : Bool)
      (is : change = .subscribe key callback requested polls)
  | removes (key : DocumentKey) (callback : CallbackId)
      (is : change = .unsubscribe key callback)
  | quiet (agrees : Agrees r (r.apply change))
      (rounds : ∀ d ∈ r.enqueuedBy change, ∃ callback key, d = .round callback key)

/-- A change that leaves frontiers, registry and queue alone. -/
theorem Effect.of_same {r : Records} {change : Change}
    (hf : (r.apply change).frontiers = r.frontiers) (hr : (r.apply change).registry = r.registry)
    (hq : (r.apply change).queue.pending = r.queue.pending) : Effect r change := by
  have hn : r.enqueuedBy change = [] := enqueuedBy_of_append (by rw [hq, List.append_nil])
  refine .quiet ⟨fun key => ?_, hr⟩ fun d hd => ?_
  · rw [frontier, hf]
    rfl
  · rw [hn] at hd
    cases hd

/-- A change that keeps the news has no effect on subscribers. -/
theorem KeepsNews.effect {r : Records} {change : Change} (h : KeepsNews r (r.apply change)) :
    Effect r change :=
  .of_same h.frontiers h.registry (congrArg (·.pending) h.queue)

/-- To take a delivery out has no effect on subscribers. -/
theorem effect_takeDelivery (r : Records) : Effect r .takeDelivery := by
  cases h : r.queue.pending with
  | nil =>
    have hs : r.apply .takeDelivery = r := by
      simp [apply, takeDelivery?, DeliveryQueue.pop?, h]
    exact .of_same (by rw [hs]) (by rw [hs]) (by rw [hs])
  | cons d rest =>
    have hs : r.apply .takeDelivery = { r with queue := { r.queue with pending := rest } } := by
      simp [apply, takeDelivery?, DeliveryQueue.pop?, h]
    have hn : r.enqueuedBy .takeDelivery = [] := by
      rw [enqueuedBy, hs, h]
      exact List.drop_eq_nil_of_le (Nat.le_succ _)
    exact .quiet (by rw [hs]; exact ⟨fun _ => rfl, rfl⟩) (by rw [hn]; exact fun d hd => by cases hd)

/-- A round that is over is told to all subscribers, and has no other effect on them. -/
theorem effect_finishRound (r : Records) (key : DocumentKey) : Effect r (.finishRound key) := by
  have hn : r.enqueuedBy (.finishRound key) = r.registry.roundDeliveries key :=
    enqueuedBy_of_append rfl
  refine .quiet ⟨fun _ => rfl, rfl⟩ fun d hd => ?_
  rw [hn] at hd
  obtain ⟨s, -, rfl⟩ := List.mem_map.mp hd
  exact ⟨_, _, rfl⟩

/-- What any change is to the subscribers. -/
theorem effect {r : Records} (h : Attuned r) (change : Change) : Effect r change := by
  cases change with
  | subscribe key callback requested polls => exact .registers _ _ _ _ rfl
  | unsubscribe key callback => exact .removes _ _ rfl
  | noteSlot now uri =>
    rcases noteSlot_cases h now uri with hs | ⟨found, ha⟩
    · exact .of_same (congrArg frontiers hs) (congrArg registry hs)
        (congrArg (·.queue.pending) hs)
    · exact .announces found ha
  | noteGood now uri =>
    rcases noteGood_cases r now uri with hs | ⟨found, ha⟩
    · exact .of_same (congrArg frontiers hs) (congrArg registry hs)
        (congrArg (·.queue.pending) hs)
    · exact .announces found ha
  | resolve now key prefetch => exact (keepsNews_resolve r now key prefetch).effect
  | finishRound key => exact effect_finishRound r key
  | removePoller key poller cancelled =>
    exact (keepsNews_removePoller r key poller cancelled).effect
  | takeDelivery => exact effect_takeDelivery r
  | countVerdict verdict => cases verdict <;> exact .of_same rfl rfl rfl
  | _ => exact .of_same rfl rfl rfl

/-- Records are attuned after any change. -/
theorem attuned_apply {r : Records} (h : Attuned r) (change : Change) :
    Attuned (r.apply change) := by
  cases effect h change with
  | announces found announced => exact announced.attuned h
  | quiet agrees rounds => exact agrees.attuned h
  | removes key callback is =>
    subst is
    exact attuned_unregister h key callback
  | registers key callback requested polls is =>
    subst is
    have hr := attuned_register h key callback requested
    cases polls with
    | false => exact hr
    | true => exact (keepsNews_cover _ key callback).agrees.attuned hr

/-- Records are attuned after any history. -/
theorem attuned_run {r : Records} (h : Attuned r) (history : List Change) :
    Attuned (r.run history) := by
  induction history generalizing r with
  | nil => exact h
  | cons change rest ih => exact ih (attuned_apply h change)

/-- The news in deliveries that come in groups are those of each group. -/
theorem newsFor_flatMap {α : Type} (key : DocumentKey) (callback : CallbackId)
    (g : α → List Delivery) (l : List α) :
    newsFor key callback (l.flatMap g) = l.flatMap fun a => newsFor key callback (g a) :=
  List.filterMap_flatMap

/-- The news that a subscriber would get is for its callback and about the document told of. -/
theorem newsFor_deliveries {s : Subscriber} {found : Found} {key : DocumentKey}
    {callback : CallbackId} (h : ¬(s.callback = callback ∧ found.key = key)) :
    newsFor key callback (s.deliveries found) = [] := by
  unfold Subscriber.deliveries
  split
  · simp [newsFor, Delivery.newsFor?, h]
  · rfl

/-- What a subscriber is told when it has heard the old view is the news of the change. -/
theorem newsFor_deliveries_of_tells {s : Subscriber} {found : Found} {before now : Option Heard}
    (hs : s.heard = audible s.requested before) (ht : found.Tells before now) :
    newsFor found.key s.callback (s.deliveries found) =
      tiding found.key s.requested before now := by
  have hall : ∀ news ∈ tiding found.key s.requested before now,
      (Delivery.found s.callback news).newsFor? found.key s.callback = some news :=
    fun news hn => if_pos ⟨rfl, key_of_mem_tiding hn⟩
  rw [Subscriber.deliveries_of_tells hs ht, newsFor, List.filterMap_map]
  generalize tiding found.key s.requested before now = l at hall
  induction l with
  | nil => rfl
  | cons news rest ih =>
    rw [List.filterMap_cons, Function.comp_apply, hall news List.mem_cons_self]
    exact congrArg _ (ih fun n hn => hall n (List.mem_cons_of_mem _ hn))

/-- An announcement tells each subscriber the news of the change. -/
theorem Announces.newsFor_enqueuedBy {r : Records} {change : Change} {found : Found}
    (ha : Announces r (r.apply change) found) (h : Attuned r) {key : DocumentKey}
    {s : Subscriber} (hs : s ∈ r.registry.of key) :
    newsFor key s.callback (r.enqueuedBy change) =
      tiding key s.requested (r.view key) ((r.apply change).view key) := by
  rw [enqueuedBy_of_append ha.pending, Registry.deliveriesToAll, newsFor_flatMap]
  by_cases hk : found.key = key
  · subst hk
    rw [flatMap_eq_of_unique Subscriber.callback _ (h.distinct _) hs fun t _ hne =>
      newsFor_deliveries fun hc => hne hc.1]
    exact newsFor_deliveries_of_tells (h.heard _ s hs) ha.tells
  · rw [ha.view_eq hk, tiding, if_pos rfl]
    exact List.flatMap_eq_nil_iff.mpr fun t _ => newsFor_deliveries fun hc => hk hc.2

/-- What one callback is told concerns it alone. -/
theorem newsFor_deliveriesToOne {registry : Registry} {told : CallbackId} {found : Found}
    {key : DocumentKey} {callback : CallbackId} (h : ¬(told = callback ∧ found.key = key)) :
    newsFor key callback (registry.deliveriesToOne told found) = [] := by
  rw [Registry.deliveriesToOne, newsFor_flatMap]
  refine List.flatMap_eq_nil_iff.mpr fun t _ => ?_
  split
  case isTrue ht => exact newsFor_deliveries (ht ▸ h)
  case isFalse => rfl

/-- Who subscribes is sent what stands of the document, if it is above what was asked for. -/
theorem enqueuedBy_subscribe (r : Records) (key : DocumentKey) (callback : CallbackId)
    (requested : Edition) (polls : Bool) :
    r.enqueuedBy (.subscribe key callback requested polls) =
      match r.standing key with
      | none => []
      | some found =>
        (r.registry.add key callback requested).deliveriesToOne callback found := by
  have hp : (r.apply (.subscribe key callback requested polls)).queue.pending =
      (r.register key callback requested).queue.pending := by
    cases polls with
    | false => rfl
    | true => exact congrArg (·.pending) (keepsNews_cover _ key callback).queue
  refine enqueuedBy_of_append ?_
  rw [hp]
  change (match r.standing key with
    | none => r.enrol key callback requested
    | some found => (r.enrol key callback requested).inform callback found).queue.pending = _
  cases r.standing key with
  | none => exact (List.append_nil _).symm
  | some found => rfl

/-- To subscribe changes no view. -/
theorem view_subscribe (r : Records) (key other : DocumentKey) (callback : CallbackId)
    (requested : Edition) (polls : Bool) :
    (r.apply (.subscribe key callback requested polls)).view other = r.view other := by
  have hf : (r.register key callback requested).view other = r.view other :=
    congrArg (fun frontiers => (frontiers.of other).view)
      (frontiers_register r key callback requested)
  cases polls with
  | false => exact hf
  | true =>
    have hc :=
      (keepsNews_cover (r.register key callback requested) key callback).agrees.frontier other
    exact (congrArg Frontier.view hc).trans hf

/-- Subscribing a callback that is registered already tells nobody anything. -/
theorem enqueuedBy_resubscribe {r : Records} (h : Attuned r) {key : DocumentKey}
    {callback : CallbackId} (hin : r.registry.has key callback = true) (requested : Edition)
    (polls : Bool) : r.enqueuedBy (.subscribe key callback requested polls) = [] := by
  rw [enqueuedBy_subscribe]
  cases hst : r.standing key with
  | none => rfl
  | some found =>
    have hadd : r.registry.add key callback requested = r.registry := by
      rw [Registry.add, if_pos hin]
    obtain ⟨rfl, -⟩ := tells_standing hst
    simp only [hadd]
    refine List.flatMap_eq_nil_iff.mpr fun s hs => ?_
    have hw := not_wants_standing hst (h.heard _ s hs)
    simp [Subscriber.deliveries, hw]

/-- A new subscriber is told the present view, as far as it is above what it asked for. -/
theorem newsFor_register {r : Records} (h : Attuned r) {key : DocumentKey}
    {callback : CallbackId} (hnew : r.registry.has key callback = false) (requested : Edition)
    (polls : Bool) :
    newsFor key callback (r.enqueuedBy (.subscribe key callback requested polls)) =
      tiding key requested none (r.view key) := by
  rw [enqueuedBy_subscribe]
  cases hst : r.standing key with
  | none =>
    rw [standing_eq] at hst
    rw [Option.map_eq_none_iff.mp hst]
    rfl
  | some found =>
    obtain ⟨rfl, ht⟩ := tells_standing hst
    let s : Subscriber := ⟨callback, requested, none⟩
    have hs : s ∈ (r.registry.add found.key callback requested).of found.key := by
      rw [Registry.of_add, if_pos ⟨rfl, hnew⟩]
      exact List.mem_append_right _ List.mem_cons_self
    have hd : (((r.registry.add found.key callback requested).of found.key).map
        Subscriber.callback).Nodup := distinct_enrol h found.key found.key callback requested
    simp only [Registry.deliveriesToOne, newsFor_flatMap]
    rw [flatMap_eq_of_unique Subscriber.callback _ hd hs]
    · rw [if_pos rfl]
      exact newsFor_deliveries_of_tells (s := s) rfl ht
    · intro t _ hne
      rw [if_neg hne]
      rfl

/-- To be told of the slot and to be polled for leaves all subscribers registered. -/
theorem mem_subscribe_of_enrol (r : Records) {key other : DocumentKey} {callback : CallbackId}
    {requested : Edition} {s : Subscriber}
    (hs : s ∈ (r.enrol key callback requested).registry.of other) (polls : Bool) :
    ∃ t ∈ (r.apply (.subscribe key callback requested polls)).registry.of other,
      t.callback = s.callback ∧ t.requested = s.requested := by
  rw [registry_subscribe]
  obtain ⟨-, he⟩ | ⟨found, -, he⟩ := register_cases r key callback requested
  · exact ⟨s, he ▸ hs, rfl, rfl⟩
  · rw [he]
    change ∃ t ∈ ((r.enrol key callback requested).registry.tellOne callback found).of other, _
    rw [Registry.of_tellOne]
    split
    case isTrue hk =>
      refine ⟨_, List.mem_map.mpr ⟨s, hk ▸ hs, rfl⟩, ?_⟩
      split <;> simp
    case isFalse => exact ⟨s, hs, rfl, rfl⟩

/-- A callback that is not removed stays registered with what it asked for. -/
theorem mem_of_apply {r : Records} (h : Attuned r) {change : Change} {key : DocumentKey}
    {s : Subscriber} (hs : s ∈ r.registry.of key)
    (hstay : change ≠ .unsubscribe key s.callback) :
    ∃ t ∈ (r.apply change).registry.of key,
      t.callback = s.callback ∧ t.requested = s.requested := by
  cases effect h change with
  | announces found announced =>
    rw [announced.registry, Registry.of_tellAll]
    split
    case isTrue hk =>
      exact ⟨s.tell found, List.mem_map.mpr ⟨s, hk ▸ hs, rfl⟩, s.callback_tell found,
        s.requested_tell found⟩
    case isFalse => exact ⟨s, hs, rfl, rfl⟩
  | quiet agrees rounds => exact ⟨s, agrees.registry ▸ hs, rfl, rfl⟩
  | removes key' callback is =>
    subst is
    change ∃ t ∈ (r.registry.remove key' callback).of key, _
    rw [Registry.of_remove]
    split
    case isTrue hk =>
      subst hk
      have hne : s.callback ≠ callback := fun hc => hstay (by rw [hc])
      exact ⟨s, List.mem_filter.mpr ⟨hs, decide_eq_true hne⟩, rfl, rfl⟩
    case isFalse => exact ⟨s, hs, rfl, rfl⟩
  | registers key' callback requested polls is =>
    subst is
    have henrol : s ∈ (r.enrol key' callback requested).registry.of key := by
      change s ∈ (r.registry.add key' callback requested).of key
      rw [Registry.of_add]
      split
      case isTrue hk => exact List.mem_append_left _ (hk.1 ▸ hs)
      case isFalse => exact hs
    exact mem_subscribe_of_enrol r henrol polls

/-- A callback that is new to a document is a subscriber of it then. -/
theorem mem_of_subscribe {r : Records} {key : DocumentKey}
    {callback : CallbackId} (hnew : r.registry.has key callback = false) (requested : Edition)
    (polls : Bool) :
    ∃ s ∈ (r.apply (.subscribe key callback requested polls)).registry.of key,
      s.callback = callback ∧ s.requested = requested := by
  have henrol : (⟨callback, requested, none⟩ : Subscriber) ∈
      (r.enrol key callback requested).registry.of key := by
    change _ ∈ (r.registry.add key callback requested).of key
    rw [Registry.of_add, if_pos ⟨rfl, hnew⟩]
    exact List.mem_append_right _ List.mem_cons_self
  exact mem_subscribe_of_enrol r henrol polls

/-- A change tells a subscriber that stays the news of the change, and nothing else. -/
theorem newsFor_enqueuedBy {r : Records} (h : Attuned r) {change : Change} {key : DocumentKey}
    {s : Subscriber} (hs : s ∈ r.registry.of key) :
    newsFor key s.callback (r.enqueuedBy change) =
      tiding key s.requested (r.view key) ((r.apply change).view key) := by
  have hsame : tiding key s.requested (r.view key) (r.view key) = [] := if_pos rfl
  cases effect h change with
  | announces found announced => exact announced.newsFor_enqueuedBy h hs
  | quiet agrees rounds =>
    rw [view, view, agrees.frontier]
    refine Eq.trans ?_ hsame.symm
    refine List.filterMap_eq_nil_iff.mpr fun d hd => ?_
    obtain ⟨callback, key, rfl⟩ := rounds d hd
    rfl
  | removes key' callback is =>
    subst is
    have hn : r.enqueuedBy (.unsubscribe key' callback) = [] :=
      enqueuedBy_of_append (List.append_nil _).symm
    rw [hn]
    exact hsame.symm
  | registers key' callback requested polls is =>
    subst is
    rw [view_subscribe, hsame]
    by_cases hk : callback = s.callback ∧ key' = key
    · obtain ⟨rfl, rfl⟩ := hk
      have hin := (Registry.has_iff r.registry key' s.callback).mpr ⟨s, hs, rfl⟩
      rw [enqueuedBy_resubscribe h hin]
      rfl
    · rw [enqueuedBy_subscribe]
      cases hst : r.standing key' with
      | none => rfl
      | some found =>
        obtain ⟨rfl, -⟩ := tells_standing hst
        exact newsFor_deliveriesToOne hk

/-- The views of a document after each change of a history. -/
def course (r : Records) (key : DocumentKey) : List Change → List (Option Heard)
  | [] => []
  | change :: rest => (r.apply change).view key :: (r.apply change).course key rest

/-- As long as a subscriber stays, it is told the news of the course that the view takes. -/
theorem newsFor_enqueuedIn {r : Records} (h : Attuned r) {history : List Change}
    {key : DocumentKey} {s : Subscriber} (hs : s ∈ r.registry.of key)
    (hstay : .unsubscribe key s.callback ∉ history) :
    newsFor key s.callback (r.enqueuedIn history) =
      tidings key s.requested (r.view key) (r.course key history) ∧
    ∃ t ∈ (r.run history).registry.of key,
      t.callback = s.callback ∧ t.requested = s.requested := by
  induction history generalizing r s with
  | nil => exact ⟨rfl, s, hs, rfl, rfl⟩
  | cons change rest ih =>
    rw [List.mem_cons, not_or] at hstay
    obtain ⟨t, ht, hc, hr⟩ := mem_of_apply h hs (Ne.symm hstay.1)
    obtain ⟨hnews, u, hu, huc, hur⟩ := ih (attuned_apply h change) ht (hc ▸ hstay.2)
    rw [hc, hr] at hnews
    refine ⟨?_, u, hu, huc.trans hc, hur.trans hr⟩
    rw [enqueuedIn, newsFor_append, newsFor_enqueuedBy h hs, hnews]
    rfl

/-- The view only moves to what is news to those who heard it. -/
theorem view_apply {r : Records} (h : Attuned r) (change : Change) (key : DocumentKey) :
    (r.apply change).view key = r.view key ∨
      ∃ found : Found, (r.apply change).view key = some found.heard ∧
        Subscriber.isNews found (r.view key) = true := by
  cases effect h change with
  | announces found announced =>
    by_cases hk : found.key = key
    · subst hk
      cases announced.tells with
      | moves view differs news newSlot => exact .inr ⟨found, view, news⟩
      | lags same slot view behind => exact .inl same
    · exact .inl (announced.view_eq hk)
  | quiet agrees rounds => exact .inl (congrArg Frontier.view (agrees.frontier key))
  | removes key' callback is => subst is; exact .inl rfl
  | registers key' callback requested polls is =>
    subst is
    exact .inl (view_subscribe r key' key callback requested polls)

/-- All news of a course is news to those who heard the view from which it set out. -/
theorem isNews_of_mem_tidings {r : Records} (h : Attuned r) {history : List Change}
    {key : DocumentKey} {requested : Edition} {found : Found}
    (hm : found ∈ tidings key requested (r.view key) (r.course key history)) :
    Subscriber.isNews found (r.view key) = true := by
  induction history generalizing r with
  | nil => cases hm
  | cons change rest ih =>
    have hstep := view_apply h change key
    rcases List.mem_append.mp hm with hm | hm
    · have hv := view_of_mem_tiding hm
      rcases hstep with hs | ⟨news, hn, hisNews⟩
      · rw [hs, tiding, if_pos rfl] at hm
        cases hm
      · rw [hv, Option.some.injEq] at hn
        exact Subscriber.isNews_congr hn hisNews
    · have hl := ih (attuned_apply h change) hm
      rcases hstep with hs | ⟨news, hn, hisNews⟩
      · rw [← hs]
        exact hl
      · rw [hn] at hl
        exact Subscriber.isNews_trans hl hisNews

/-- The news of a course goes on from one to the next; none of it comes twice. -/
theorem pairwise_tidings {r : Records} (h : Attuned r) (history : List Change)
    (key : DocumentKey) (requested : Edition) (before : Option Heard) :
    (tidings key requested before (r.view key :: r.course key history)).Pairwise
      fun earlier later => Subscriber.isNews later (some earlier.heard) = true := by
  induction history generalizing r before with
  | nil =>
    rw [course, tidings, tidings, List.append_nil]
    exact pairwise_tiding key requested before (r.view key)
  | cons change rest ih =>
    rw [tidings, List.pairwise_append]
    refine ⟨pairwise_tiding key requested before (r.view key),
      ih (attuned_apply h change) (r.view key), fun earlier he later hl => ?_⟩
    have hm : later ∈ tidings key requested (r.view key) (r.course key (change :: rest)) := hl
    rw [← view_of_mem_tiding he]
    exact isNews_of_mem_tidings h hm

/-- In every history, a callback is told from its registration on exactly the course of the
view above what it asked for, from the present view onwards, each change once. Every
subscriber has heard the present view as far as it asked for it, and so registering a
callback again tells nobody anything. -/
theorem news_exact (capacity : Nat) (earlier : List Change) :
    let r := (initial capacity).run earlier
    (∀ key callback requested polls later,
      r.registry.has key callback = false → .unsubscribe key callback ∉ later →
        let history := .subscribe key callback requested polls :: later
        let news := newsFor key callback (r.enqueuedIn history)
        news = tidings key requested none (r.course key history) ∧
        news.Pairwise (fun a b => Subscriber.isNews b (some a.heard) = true) ∧
        ∃ s ∈ (r.run history).registry.of key,
          s.callback = callback ∧ s.requested = requested) ∧
    (∀ key, ∀ s ∈ r.registry.of key, s.heard = audible s.requested (r.view key)) ∧
    (∀ key callback requested polls, r.registry.has key callback = true →
      r.enqueuedBy (.subscribe key callback requested polls) = []) := by
  intro r
  have h : Attuned r := attuned_run (attuned_initial capacity) earlier
  refine ⟨fun key callback requested polls later hnew hstay => ?_, h.heard,
    fun key callback requested polls hin => enqueuedBy_resubscribe h hin requested polls⟩
  intro history news
  have ha : Attuned (r.apply (.subscribe key callback requested polls)) := attuned_apply h _
  obtain ⟨s, hs, hc, hr⟩ := mem_of_subscribe hnew requested polls
  subst hc hr
  obtain ⟨hlater, t, ht, hc, hr⟩ := newsFor_enqueuedIn ha hs hstay
  have hnews : news = tidings key s.requested none (r.course key history) := by
    change newsFor key s.callback (_ ++ _) = _
    rw [newsFor_append, newsFor_register h hnew, hlater, view_subscribe]
    change _ = tiding _ _ _ ((r.apply _).view key) ++ tidings _ _ ((r.apply _).view key) _
    rw [view_subscribe]
  refine ⟨hnews, ?_, t, ht, hc, hr⟩
  rw [hnews]
  exact pairwise_tidings ha later key s.requested none

/-- Someone who asks for editions above 2 of a document whose slot is 3 hears of it, of its
content, and of the next slot. -/
theorem news_exact_of_three_changes :
    let key : DocumentKey := ⟨.uniform 7, "notes"⟩
    let r := (initial 4).run [.noteSlot 0 ⟨key, 3⟩]
    newsFor key 1 (r.enqueuedIn
      [.subscribe key 1 2 true, .noteGood 5 ⟨key, 3⟩, .noteGood 6 ⟨key, 2⟩, .noteSlot 9 ⟨key, 8⟩]) =
      [⟨key, 3, false, true⟩, ⟨key, 3, true, false⟩, ⟨key, 8, false, true⟩] := by
  intro key r
  have hnew : r.registry.has key 1 = false := by decide
  have hstay : .unsubscribe key 1 ∉
      [Change.noteGood 5 ⟨key, 3⟩, .noteGood 6 ⟨key, 2⟩, .noteSlot 9 ⟨key, 8⟩] := by simp
  have hnews := ((news_exact 4 [.noteSlot 0 ⟨key, 3⟩]).1 key 1 2 true _ hnew hstay).1
  rw [hnews]
  decide

end Records

end EditionWatch
