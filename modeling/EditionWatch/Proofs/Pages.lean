import EditionWatch.Proofs.Deliveries
import Mathlib.Data.List.Forall2

/-!
# The page of a document

What a watch keeps for its subscribers stands on one page for each document: the newest editions,
who is registered and what it heard, for whom the document is polled, and the deliveries that wait.
Whatever is done about a document is written on its page alone, and what is written depends on
nothing but this page. Nor does it matter under which numbers callbacks go, as long as different
ones have different numbers.
-/

namespace EditionWatch

/-- What a watch keeps for the subscribers of a document. -/
@[ext] structure Page where
  /-- The newest editions. -/
  frontier : Frontier
  /-- Who is registered, and what it heard. -/
  subscribers : List Subscriber
  /-- The callbacks for which the document is polled in the background. -/
  background : List CallbackId
  /-- The deliveries about the document that wait. -/
  deliveries : List Delivery
  deriving DecidableEq

namespace Page

/-- Tells some of the callbacks of an edition. -/
def tell (p : Page) (found : Found) (hears : CallbackId → Bool) : Page :=
  { p with
    subscribers := p.subscribers.map fun s => if hears s.callback then s.tell found else s
    deliveries := p.deliveries ++
      p.subscribers.flatMap fun s => if hears s.callback then s.deliveries found else [] }

/-- Whether a callback is registered. -/
def has (p : Page) (callback : CallbackId) : Bool :=
  p.subscribers.any fun s => s.callback = callback

/-- Puts a callback among the subscribers. -/
def enrol (p : Page) (callback : CallbackId) (requested : Edition) : Page :=
  if p.has callback then p
  else { p with subscribers := p.subscribers ++ [⟨callback, requested, none⟩] }

/-- The news that a new subscriber may have missed. -/
def standing (p : Page) (key : DocumentKey) : Option Found :=
  p.frontier.slot.map fun slot => ⟨key, slot, p.frontier.good = some slot, true⟩

/-- Registers a callback and tells it of the slot. -/
def register (p : Page) (key : DocumentKey) (callback : CallbackId) (requested : Edition) : Page :=
  match p.standing key with
  | none => p.enrol callback requested
  | some found => (p.enrol callback requested).tell found fun c => c = callback

/-- Has the document polled in the background for a callback. -/
def cover (p : Page) (callback : CallbackId) : Page :=
  if callback ∈ p.background then p else { p with background := p.background ++ [callback] }

/-- Registers a callback, with background polling or without. -/
def subscribe (p : Page) (key : DocumentKey) (callback : CallbackId) (requested : Edition)
    (polls : Bool) : Page :=
  if polls then (p.register key callback requested).cover callback
  else p.register key callback requested

/-- Removes a callback. -/
def unsubscribe (p : Page) (callback : CallbackId) : Page :=
  { p with
    subscribers := p.subscribers.filter fun s => s.callback ≠ callback
    background := p.background.filter (· ≠ callback) }

/-- Records that an edition exists. -/
def noteSlot (p : Page) (uri : EditionUri) : Page :=
  match p.frontier.raiseSlot? uri.edition with
  | none => p
  | some frontier =>
    { p with frontier := frontier }.tell ⟨uri.key, uri.edition, false, true⟩ fun _ => true

/-- Records that the content of an edition was fetched. -/
def noteGood (p : Page) (uri : EditionUri) : Page :=
  match p.frontier.raiseGood? uri.edition with
  | none => p
  | some rise =>
    { p with frontier := rise.frontier }.tell ⟨uri.key, uri.edition, true, rise.slotRose⟩
      fun _ => true

/-- Tells all subscribers that a polling round is over. -/
def finishRound (p : Page) (key : DocumentKey) : Page :=
  { p with deliveries := p.deliveries ++ p.subscribers.map fun s => .round s.callback key }

end Page

/-! ## What is done about a document -/

/-- A delivery to a subscriber is about the document of the edition. -/
theorem Subscriber.key_of_mem_deliveries {s : Subscriber} {found : Found} {d : Delivery}
    (h : d ∈ s.deliveries found) : d.key = found.key := by
  unfold deliveries at h
  split at h
  · rw [List.mem_singleton.mp h]
    rfl
  · cases h

/-- What stands on a page is about its document. -/
theorem Page.key_of_standing {p : Page} {key : DocumentKey} {found : Found}
    (h : p.standing key = some found) : found.key = key := by
  obtain ⟨slot, -, rfl⟩ := Option.map_eq_some_iff.mp h
  rfl

/-- Deliveries about one document are all among those about it, and none among others. -/
theorem filter_key_eq {ds : List Delivery} {own : DocumentKey} (h : ∀ d ∈ ds, d.key = own)
    (key : DocumentKey) : (ds.filter fun d => d.key = key) = if own = key then ds else [] := by
  split
  case isTrue hk =>
    refine List.filter_eq_self.mpr fun d hd => ?_
    rw [h d hd]
    exact decide_eq_true hk
  case isFalse hk =>
    refine List.filter_eq_nil_iff.mpr fun d hd => ?_
    rw [h d hd]
    exact fun hd => hk (of_decide_eq_true hd)

namespace Records

/-- The page of a document. -/
def page (r : Records) (key : DocumentKey) : Page where
  frontier := r.frontier key
  subscribers := r.registry.of key
  background := r.pool.subscribers key
  deliveries := r.queue.pending.filter fun d => d.key = key

variable (r : Records) (key : DocumentKey)

/-- An edition is announced on its own page only. -/
theorem page_announce (found : Found) :
    (r.announce found).page key =
      if found.key = key then (r.page key).tell found fun _ => true else r.page key := by
  have hown : ∀ d ∈ r.registry.deliveriesToAll found, d.key = found.key := fun d hd => by
    obtain ⟨s, -, hs⟩ := List.mem_flatMap.mp hd
    exact s.key_of_mem_deliveries hs
  have hpending : ((r.announce found).page key).deliveries =
      (r.page key).deliveries ++
        if found.key = key then r.registry.deliveriesToAll found else [] := by
    rw [← filter_key_eq hown key]
    exact List.filter_append _ _
  have hregistry : ((r.announce found).page key).subscribers =
      if found.key = key then (r.registry.of found.key).map (·.tell found)
      else r.registry.of key := Registry.of_tellAll r.registry found key
  split
  case isTrue hk =>
    subst hk
    rw [if_pos rfl] at hpending hregistry
    exact Page.ext rfl hregistry rfl hpending
  case isFalse hk =>
    rw [if_neg hk] at hregistry
    rw [if_neg hk, List.append_nil] at hpending
    exact Page.ext rfl hregistry rfl hpending

/-- A callback is informed on the page of the edition only. -/
theorem page_inform (callback : CallbackId) (found : Found) :
    (r.inform callback found).page key =
      if found.key = key then (r.page key).tell found fun c => c = callback else r.page key := by
  have hown : ∀ d ∈ r.registry.deliveriesToOne callback found, d.key = found.key := fun d hd => by
    obtain ⟨s, -, hs⟩ := List.mem_flatMap.mp hd
    split at hs
    · exact s.key_of_mem_deliveries hs
    · cases hs
  have hpending : ((r.inform callback found).page key).deliveries =
      (r.page key).deliveries ++
        if found.key = key then r.registry.deliveriesToOne callback found else [] := by
    rw [← filter_key_eq hown key]
    exact List.filter_append _ _
  have hregistry : ((r.inform callback found).page key).subscribers =
      if found.key = key then
        (r.registry.of found.key).map fun s => if s.callback = callback then s.tell found else s
      else r.registry.of key := Registry.of_tellOne r.registry callback found key
  split
  case isTrue hk =>
    subst hk
    rw [if_pos rfl] at hpending hregistry
    refine Page.ext rfl (hregistry.trans ?_) rfl (hpending.trans ?_)
    · simp only [Page.tell, decide_eq_true_eq]
      rfl
    · simp only [Page.tell, decide_eq_true_eq]
      rfl
  case isFalse hk =>
    rw [if_neg hk] at hregistry
    rw [if_neg hk, List.append_nil] at hpending
    exact Page.ext rfl hregistry rfl hpending

/-- A callback is enrolled on its own page only. -/
theorem page_enrol (own : DocumentKey) (callback : CallbackId) (requested : Edition) :
    (r.enrol own callback requested).page key =
      if own = key then (r.page key).enrol callback requested else r.page key := by
  have hregistry : ((r.enrol own callback requested).page key).subscribers =
      if own = key ∧ r.registry.has own callback = false then
        r.registry.of own ++ [⟨callback, requested, none⟩]
      else r.registry.of key := Registry.of_add r.registry own key callback requested
  by_cases hk : own = key
  · subst hk
    rw [if_pos rfl, Page.enrol]
    have hhas : (r.page own).has callback = r.registry.has own callback := rfl
    rw [hhas]
    cases hin : r.registry.has own callback with
    | true =>
      rw [hin, if_neg (by simp)] at hregistry
      exact Page.ext rfl hregistry rfl rfl
    | false =>
      rw [hin, if_pos ⟨rfl, rfl⟩] at hregistry
      exact Page.ext rfl hregistry rfl rfl
  · rw [if_neg hk]
    rw [if_neg fun h => hk h.1] at hregistry
    exact Page.ext rfl hregistry rfl rfl

theorem page_register (own : DocumentKey) (callback : CallbackId) (requested : Edition) :
    (r.register own callback requested).page key =
      if own = key then (r.page key).register own callback requested else r.page key := by
  have henrol := page_enrol r key own callback requested
  have hstanding : (r.enrol own callback requested).standing own = (r.page own).standing own := rfl
  unfold register
  dsimp only
  rw [hstanding]
  by_cases hk : own = key
  · subst hk
    rw [if_pos rfl] at henrol ⊢
    unfold Page.register
    cases hst : (r.page own).standing own with
    | none => exact henrol
    | some found =>
      dsimp only
      rw [page_inform, if_pos (Page.key_of_standing hst), henrol]
  · rw [if_neg hk] at henrol ⊢
    cases hst : (r.page own).standing own with
    | none => exact henrol
    | some found =>
      dsimp only
      rw [page_inform, if_neg (Page.key_of_standing hst ▸ hk), henrol]

/-- A subscription is entered on its own page only. -/
theorem page_subscribe (own : DocumentKey) (callback : CallbackId) (requested : Edition)
    (polls : Bool) :
    (r.apply (.subscribe own callback requested polls)).page key =
      if own = key then (r.page key).subscribe own callback requested polls else r.page key := by
  cases polls with
  | false => exact page_register r key own callback requested
  | true =>
    have hregister := page_register r key own callback requested
    have hkeeps := keepsNews_cover (r.register own callback requested) own callback
    have hpool := subscribers_subscribe r own key callback requested
    have hsame : ((r.apply (.subscribe own callback requested true)).page key) =
        { (r.register own callback requested).page key with
          background :=
            (r.apply (.subscribe own callback requested true)).pool.subscribers key } := by
      refine Page.ext ?_ ?_ rfl ?_
      · exact congrArg (Frontiers.of · key) hkeeps.frontiers
      · exact congrArg (Registry.of · key) hkeeps.registry
      · exact congrArg (fun q : DeliveryQueue => q.pending.filter fun d => d.key = key) hkeeps.queue
    rw [hsame, hregister, hpool]
    by_cases hk : own = key
    · subst hk
      have hbackground :
          ((r.page own).register own callback requested).background = r.pool.subscribers own := by
        unfold Page.register Page.enrol
        cases (r.page own).standing own <;> dsimp only <;> split <;> rfl
      simp only [if_true, true_and, Page.subscribe, Page.cover, hbackground]
      split
      case isTrue => rfl
      case isFalse hin => rw [if_pos (not_not.mp hin), ← hbackground]
    · simp only [hk, if_false, false_and]
      rfl

theorem page_unsubscribe (own : DocumentKey) (callback : CallbackId) :
    (r.apply (.unsubscribe own callback)).page key =
      if own = key then (r.page key).unsubscribe callback else r.page key := by
  have hregistry : ((r.apply (.unsubscribe own callback)).page key).subscribers =
      if own = key then (r.registry.of own).filter fun s => s.callback ≠ callback
      else r.registry.of key := Registry.of_remove r.registry own key callback
  have hpool : ((r.apply (.unsubscribe own callback)).page key).background =
      if own = key then (r.pool.subscribers key).filter (· ≠ callback)
      else r.pool.subscribers key := subscribers_unsubscribe r own key callback
  split
  case isTrue hk =>
    subst hk
    rw [if_pos rfl] at hregistry hpool
    exact Page.ext rfl hregistry hpool rfl
  case isFalse hk =>
    rw [if_neg hk] at hregistry hpool
    exact Page.ext rfl hregistry hpool rfl

/-- A frontier that is put into place is on the page of its document. -/
theorem page_setFrontier (own : DocumentKey) (frontier : Frontier) :
    (r.setFrontier own frontier).page key =
      if own = key then { r.page key with frontier := frontier } else r.page key := by
  have hfrontier := frontier_setFrontier r own key frontier
  split
  case isTrue hk =>
    rw [if_pos hk] at hfrontier
    exact Page.ext hfrontier rfl rfl rfl
  case isFalse hk =>
    rw [if_neg hk] at hfrontier
    exact Page.ext hfrontier rfl rfl rfl

/-- A slot is noted on its own page only. -/
theorem page_noteSlot (now : Instant) (uri : EditionUri) :
    (r.noteSlot now uri).page key =
      if uri.key = key then (r.page key).noteSlot uri else r.page key := by
  unfold noteSlot Page.noteSlot
  by_cases hk : uri.key = key
  · subst hk
    rw [if_pos rfl]
    cases hraise : (r.frontier uri.key).raiseSlot? uri.edition with
    | none =>
      rw [show (r.page uri.key).frontier.raiseSlot? uri.edition = none from hraise]
    | some frontier =>
      rw [show (r.page uri.key).frontier.raiseSlot? uri.edition = some frontier from hraise]
      have hset := page_setFrontier r uri.key uri.key frontier
      rw [if_pos rfl] at hset
      dsimp only
      rw [page_announce, if_pos rfl, ← hset]
      rfl
  · rw [if_neg hk]
    cases (r.frontier uri.key).raiseSlot? uri.edition with
    | none => rfl
    | some frontier =>
      have hset := page_setFrontier r key uri.key frontier
      rw [if_neg hk] at hset
      dsimp only
      rw [page_announce, if_neg hk, ← hset]
      rfl

theorem page_noteGood (now : Instant) (uri : EditionUri) :
    (r.noteGood now uri).page key =
      if uri.key = key then (r.page key).noteGood uri else r.page key := by
  have hcounted (rise : Frontier.GoodRise) :
      (if rise.slotRose then
        ((r.setFrontier uri.key rise.frontier).countGood).slotRose now uri.key
      else (r.setFrontier uri.key rise.frontier).countGood).page key =
        if uri.key = key then { r.page key with frontier := rise.frontier } else r.page key := by
    rw [← page_setFrontier]
    split <;> rfl
  unfold noteGood Page.noteGood
  by_cases hk : uri.key = key
  · subst hk
    rw [if_pos rfl]
    cases hraise : (r.frontier uri.key).raiseGood? uri.edition with
    | none =>
      rw [show (r.page uri.key).frontier.raiseGood? uri.edition = none from hraise]
    | some rise =>
      rw [show (r.page uri.key).frontier.raiseGood? uri.edition = some rise from hraise]
      dsimp only
      rw [page_announce, if_pos rfl, hcounted rise, if_pos rfl]
  · rw [if_neg hk]
    cases (r.frontier uri.key).raiseGood? uri.edition with
    | none => rfl
    | some rise =>
      dsimp only
      rw [page_announce, if_neg hk, hcounted rise, if_neg hk]

theorem page_finishRound (own : DocumentKey) :
    (r.finishRound own).page key =
      if own = key then (r.page key).finishRound own else r.page key := by
  have hown : ∀ d ∈ r.registry.roundDeliveries own, d.key = own := fun d hd => by
    obtain ⟨s, -, rfl⟩ := List.mem_map.mp hd
    rfl
  have hpending : ((r.finishRound own).page key).deliveries =
      (r.page key).deliveries ++ if own = key then r.registry.roundDeliveries own else [] := by
    rw [← filter_key_eq hown key]
    exact List.filter_append _ _
  split
  case isTrue hk =>
    subst hk
    rw [if_pos rfl] at hpending
    exact Page.ext rfl rfl rfl hpending
  case isFalse hk =>
    rw [if_neg hk, List.append_nil] at hpending
    exact Page.ext rfl rfl rfl hpending

end Records

/-! ## Callbacks under other numbers -/

/-- A subscriber under another number. -/
def Subscriber.renamed (name : CallbackId → CallbackId) (s : Subscriber) : Subscriber :=
  { s with callback := name s.callback }

/-- A delivery to a callback under another number. -/
def Delivery.renamed (name : CallbackId → CallbackId) : Delivery → Delivery
  | .found callback news => .found (name callback) news
  | .round callback key => .round (name callback) key

/-- A page on which all callbacks go under other numbers. -/
def Page.renamed (name : CallbackId → CallbackId) (p : Page) : Page :=
  { p with
    subscribers := p.subscribers.map (·.renamed name)
    background := p.background.map name
    deliveries := p.deliveries.map (·.renamed name) }

variable {R S : CallbackId → CallbackId → Prop}

/-- Two subscribers differ at most in the number of their callback. -/
structure Subscriber.Matches (R : CallbackId → CallbackId → Prop) (s t : Subscriber) : Prop where
  callback : R s.callback t.callback
  requested : t.requested = s.requested
  heard : t.heard = s.heard

/-- Two deliveries differ at most in the number of their callback. -/
structure Delivery.Matches (R : CallbackId → CallbackId → Prop) (d e : Delivery) : Prop where
  callback : R d.callback e.callback
  same : e = d.renamed fun _ => e.callback

/-- Two pages differ at most in the numbers of callbacks. -/
structure Page.Matches (R : CallbackId → CallbackId → Prop) (p q : Page) : Prop where
  frontier : q.frontier = p.frontier
  subscribers : List.Forall₂ (Subscriber.Matches R) p.subscribers q.subscribers
  background : List.Forall₂ R p.background q.background
  deliveries : List.Forall₂ (Delivery.Matches R) p.deliveries q.deliveries

/-- What is written in one list for what is in another is the list under other names. -/
theorem eq_map_of_forall₂ {α β : Type} {Q : α → β → Prop} {f : α → β} {l : List α} {l' : List β}
    (h : List.Forall₂ Q l l') (hf : ∀ a b, Q a b → f a = b) : l' = l.map f := by
  have hall : List.Forall₂ Eq (l.map f) l' := List.forall₂_map_left_iff.mpr (h.imp hf)
  rw [List.forall₂_eq_eq_eq] at hall
  exact hall.symm

/-- Lists that match item by item have an item of a kind both or neither. -/
theorem any_eq_of_forall₂ {α β : Type} {Q : α → β → Prop} {f : α → Bool} {g : β → Bool}
    {l : List α} {l' : List β} (h : List.Forall₂ Q l l') (hf : ∀ a b, Q a b → f a = g b) :
    l.any f = l'.any g := by
  induction h with
  | nil => rfl
  | cons first _ ih => rw [List.any_cons, List.any_cons, hf _ _ first, ih]

/-- Whether a callback is a certain one does not depend on the numbers. -/
theorem eq_iff_of_biUnique (unique : Relator.BiUnique R) {i j i' j' : CallbackId} (h : R i j)
    (h' : R i' j') : i = i' ↔ j = j' :=
  ⟨fun he => unique.2 h (he ▸ h'), fun he => unique.1 h (he ▸ h')⟩

namespace Subscriber.Matches

variable {s t : Subscriber}

/-- Subscribers that match want the same editions. -/
theorem wants_eq (h : s.Matches R t) (found : Found) : t.wants found = s.wants found := by
  rw [wants, wants, h.requested, h.heard]

/-- Subscribers that match do so after both were told the same. -/
theorem tell (h : s.Matches R t) (found : Found) : (s.tell found).Matches R (t.tell found) := by
  unfold Subscriber.tell
  rw [h.wants_eq found]
  split
  · exact ⟨h.callback, h.requested, rfl⟩
  · exact h

/-- Subscribers that match get matching deliveries. -/
theorem deliveries (h : s.Matches R t) (found : Found) :
    List.Forall₂ (Delivery.Matches R) (s.deliveries found) (t.deliveries found) := by
  unfold Subscriber.deliveries
  rw [h.wants_eq found]
  split
  · exact .cons ⟨h.callback, rfl⟩ .nil
  · exact .nil

end Subscriber.Matches

namespace Page.Matches

variable {p q : Page} {c c' : CallbackId}

/-- Pages that match under some names match under more. -/
theorem mono (h : p.Matches R q) (more : ∀ i j, R i j → S i j) : p.Matches S q where
  frontier := h.frontier
  subscribers := h.subscribers.imp fun _ _ hs => { hs with callback := more _ _ hs.callback }
  background := h.background.imp more
  deliveries := h.deliveries.imp fun _ _ hd => { hd with callback := more _ _ hd.callback }

/-- Pages that match under the names of a renaming are equal once they are renamed. -/
theorem eq_renamed (h : p.Matches R q) {name : CallbackId → CallbackId}
    (names : ∀ i j, R i j → name i = j) : q = p.renamed name := by
  refine Page.ext h.frontier ?_ (eq_map_of_forall₂ h.background names) ?_
  · refine eq_map_of_forall₂ h.subscribers fun s t hst => ?_
    obtain ⟨callback, requested, heard⟩ := t
    obtain ⟨hc, rfl, rfl⟩ := hst
    exact congrArg (Subscriber.mk · s.requested s.heard) (names _ _ hc)
  · refine eq_map_of_forall₂ h.deliveries fun d e hde => ?_
    obtain ⟨hc, he⟩ := hde
    rw [he, ← names _ _ hc]
    cases d <;> rfl

/-- A page that names only callbacks of some kind matches itself. -/
theorem self (hs : ∀ s ∈ p.subscribers, R s.callback s.callback) (hb : ∀ i ∈ p.background, R i i)
    (hd : ∀ d ∈ p.deliveries, R d.callback d.callback) : p.Matches R p where
  frontier := rfl
  subscribers := List.forall₂_same.mpr fun s hm => ⟨hs s hm, rfl, rfl⟩
  background := List.forall₂_same.mpr hb
  deliveries := List.forall₂_same.mpr fun d hm => ⟨hd d hm, by cases d <;> rfl⟩

/-- Pages that match do so after the same ones were told. -/
theorem tell (h : p.Matches R q) (found : Found) {hears hears' : CallbackId → Bool}
    (same : ∀ i j, R i j → hears' j = hears i) :
    (p.tell found hears).Matches R (q.tell found hears') where
  frontier := h.frontier
  subscribers := by
    refine List.rel_map (fun s t hst => ?_) h.subscribers
    rw [same _ _ hst.callback]
    split
    · exact hst.tell found
    · exact hst
  background := h.background
  deliveries := by
    refine List.rel_append h.deliveries (List.rel_flatMap h.subscribers fun s t hst => ?_)
    rw [same _ _ hst.callback]
    split
    · exact hst.deliveries found
    · exact .nil

/-- Pages that match do so after matching callbacks were enrolled. -/
theorem enrol (h : p.Matches R q) (unique : Relator.BiUnique R) (named : R c c')
    (requested : Edition) : (p.enrol c requested).Matches R (q.enrol c' requested) := by
  have hhas : p.has c = q.has c' := any_eq_of_forall₂ h.subscribers fun s t hst =>
    decide_eq_decide.mpr (eq_iff_of_biUnique unique hst.callback named)
  unfold Page.enrol
  rw [hhas]
  split
  · exact h
  · exact { h with
      subscribers := List.rel_append h.subscribers (.cons ⟨named, rfl, rfl⟩ .nil) }

theorem register (h : p.Matches R q) (unique : Relator.BiUnique R) (named : R c c')
    (key : DocumentKey) (requested : Edition) :
    (p.register key c requested).Matches R (q.register key c' requested) := by
  have henrol := h.enrol unique named requested
  have hstanding : q.standing key = p.standing key := by rw [standing, standing, h.frontier]
  unfold Page.register
  rw [hstanding]
  split
  · exact henrol
  · exact henrol.tell _ fun i j hij =>
      (decide_eq_decide.mpr (eq_iff_of_biUnique unique hij named)).symm

theorem cover (h : p.Matches R q) (unique : Relator.BiUnique R) (named : R c c') :
    (p.cover c).Matches R (q.cover c') := by
  have hmem : c ∈ p.background ↔ c' ∈ q.background := List.rel_mem unique named h.background
  unfold Page.cover
  by_cases hin : c ∈ p.background
  · rw [if_pos hin, if_pos (hmem.mp hin)]
    exact h
  · rw [if_neg hin, if_neg fun hin' => hin (hmem.mpr hin')]
    exact { h with background := List.rel_append h.background (.cons named .nil) }

theorem subscribe (h : p.Matches R q) (unique : Relator.BiUnique R) (named : R c c')
    (key : DocumentKey) (requested : Edition) (polls : Bool) :
    (p.subscribe key c requested polls).Matches R (q.subscribe key c' requested polls) := by
  have hregister := h.register unique named key requested
  cases polls with
  | false => exact hregister
  | true => exact hregister.cover unique named

/-- Pages that match do so after matching callbacks were removed. -/
theorem unsubscribe (h : p.Matches R q) (unique : Relator.BiUnique R) (named : R c c') :
    (p.unsubscribe c).Matches R (q.unsubscribe c') where
  frontier := h.frontier
  subscribers := by
    refine List.rel_filter (fun s t hst => ?_) h.subscribers
    simpa using not_congr (eq_iff_of_biUnique unique hst.callback named)
  background := by
    refine List.rel_filter (fun i j hij => ?_) h.background
    simpa using not_congr (eq_iff_of_biUnique unique hij named)
  deliveries := h.deliveries

theorem setFrontier (h : p.Matches R q) (frontier : Frontier) :
    Page.Matches R { p with frontier := frontier } { q with frontier := frontier } :=
  ⟨rfl, h.subscribers, h.background, h.deliveries⟩

/-- Pages that match do so after the same slot was noted on both. -/
theorem noteSlot (h : p.Matches R q) (uri : EditionUri) :
    (p.noteSlot uri).Matches R (q.noteSlot uri) := by
  unfold Page.noteSlot
  rw [h.frontier]
  split
  · exact h
  · exact (h.setFrontier _).tell _ fun _ _ _ => rfl

theorem noteGood (h : p.Matches R q) (uri : EditionUri) :
    (p.noteGood uri).Matches R (q.noteGood uri) := by
  unfold Page.noteGood
  rw [h.frontier]
  split
  · exact h
  · exact (h.setFrontier _).tell _ fun _ _ _ => rfl

theorem finishRound (h : p.Matches R q) (key : DocumentKey) :
    (p.finishRound key).Matches R (q.finishRound key) where
  frontier := h.frontier
  subscribers := h.subscribers
  background := h.background
  deliveries := by
    refine List.rel_append h.deliveries (List.rel_map (fun s t hst => ?_) h.subscribers)
    exact ⟨hst.callback, rfl⟩

end Page.Matches

end EditionWatch
