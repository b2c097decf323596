import EditionWatch.Proofs.Coverage
import EditionWatch.Proofs.Pages
import EditionWatch.Proofs.Sparse

/-!
# Documents keep apart

What is done about other documents makes no difference for a document: if all of it is left out,
then the same is answered to what is done about the document, and its page reads the same. Only
the numbers of callbacks that are made meanwhile may be others, and a listener goes under one
number for all documents; so callbacks are compared under a renaming, which is kept up step by
step while one run makes steps that the other one leaves out.
-/

namespace EditionWatch

/-! ## What is done about documents -/

/-- Something that is done about a document. -/
inductive Operation where
  /-- A listener is subscribed. -/
  | subscribe (key : DocumentKey) (name : String) (options : Watch.SubscribeOptions)
  /-- A subscription of the document is removed; they are numbered as they were given out. -/
  | unsubscribe (key : DocumentKey) (number : Nat)
  /-- It is noted that an edition exists. -/
  | noteSlot (uri : EditionUri)
  /-- It is noted that the content of an edition was fetched. -/
  | noteGood (uri : EditionUri)
  /-- It is noted that an edition was fetched elsewhere. -/
  | noteFetched (uri : EditionUri) (metadata : Bool)
  /-- A polling round is over. -/
  | finishRound (key : DocumentKey)

/-- The document about which something is done. -/
def Operation.key : Operation → DocumentKey
  | .subscribe key _ _ => key
  | .unsubscribe key _ => key
  | .noteSlot uri => uri.key
  | .noteGood uri => uri.key
  | .noteFetched uri _ => uri.key
  | .finishRound key => key

/-- What is done about one document. -/
def Operation.about (key : DocumentKey) (operations : List Operation) : List Operation :=
  operations.filter fun o => o.key = key

/-- What is answered to something that was done. -/
inductive Response where
  /-- A subscription is refused. -/
  | refused (fault : Watch.SubscribeFault)
  /-- A subscription is given out. -/
  | subscribed (subscription : Subscription)
  /-- Whether the edition rose. -/
  | rose (rises : Bool)
  /-- Nothing. -/
  | silent
  deriving DecidableEq

/-- A subscription of a callback under another number. -/
def Subscription.renamed (name : CallbackId → CallbackId) (s : Subscription) : Subscription :=
  { s with callback := name s.callback }

/-- A response in which callbacks go under other numbers. -/
def Response.renamed (name : CallbackId → CallbackId) : Response → Response
  | .subscribed subscription => .subscribed (subscription.renamed name)
  | response => response

/-- A watch, and the subscriptions that it gave out. -/
structure Desk where
  /-- The watch. -/
  watch : Watch
  /-- The subscriptions, in order. -/
  given : List Subscription

namespace Desk

/-- A subscription of a document by its number. -/
def subscription? (d : Desk) (key : DocumentKey) (number : Nat) : Option Subscription :=
  (d.given.filter fun s => s.key = key)[number]?

/-- What follows from something that is done. -/
def perform (d : Desk) : Operation → Desk
  | .subscribe key name options =>
    match d.watch.subscribe key name options with
    | .error _ => d
    | .ok result => ⟨result.watch, d.given ++ [result.subscription]⟩
  | .unsubscribe key number =>
    match d.subscription? key number with
    | none => d
    | some s => { d with watch := d.watch.unsubscribe s }
  | .noteSlot uri => { d with watch := d.watch.noteSlot uri }
  | .noteGood uri => { d with watch := d.watch.noteGood uri }
  | .noteFetched uri metadata => { d with watch := d.watch.noteFetched uri metadata }
  | .finishRound key =>
    { d with watch := { d.watch with records := d.watch.records.finishRound key }.flush }

/-- What is answered to something that is done. -/
def response (d : Desk) : Operation → Response
  | .subscribe key name options =>
    match d.watch.subscribe key name options with
    | .error fault => .refused fault
    | .ok result => .subscribed result.subscription
  | .noteSlot uri => .rose (d.watch.records.raisesSlot uri)
  | .noteGood uri => .rose (d.watch.records.raisesGood uri)
  | _ => .silent

/-- What follows from one thing after the other. -/
def run (d : Desk) (operations : List Operation) : Desk := operations.foldl perform d

/-- What is answered to all that is done about one document. -/
def responses (d : Desk) (key : DocumentKey) : List Operation → List Response
  | [] => []
  | operation :: rest =>
    (if operation.key = key then [d.response operation] else [])
      ++ (d.perform operation).responses key rest

/-- The page of a document. -/
def page (d : Desk) (key : DocumentKey) : Page := d.watch.records.page key

/-- The callbacks. -/
def callbacks (d : Desk) : List Callback := d.watch.callbacks

end Desk

/-! ## What is done to pages and callbacks -/

namespace Watch

variable {v w : Watch} {key : DocumentKey}

/-- To submit the delivery job changes nothing in the page of a document. -/
theorem page_flush (w : Watch) (key : DocumentKey) :
    w.flush.records.page key = w.records.page key := by
  rcases records_flush w with h | h
  · rw [h]
  · rw [h]
    rfl

theorem callbacks_flush (w : Watch) : w.flush.callbacks = w.callbacks :=
  (Quiet.flush w).callbacks

/-- A callback that is removed is taken from the page of its document only. -/
theorem page_unsubscribe (w : Watch) (s : Subscription) (key : DocumentKey) :
    (w.unsubscribe s).records.page key =
      if s.key = key then (w.records.page key).unsubscribe s.callback else w.records.page key := by
  have hrecords : (w.unsubscribe s).records = w.records.apply (.unsubscribe s.key s.callback) := by
    unfold unsubscribe
    rw [cancelPollers_eq]
    rfl
  rw [hrecords, Records.page_unsubscribe]

/-- A slot is noted in the page of its document only. -/
theorem page_noteSlot (w : Watch) (uri : EditionUri) (key : DocumentKey) :
    (w.noteSlot uri).records.page key =
      if uri.key = key then (w.records.page key).noteSlot uri else w.records.page key :=
  (page_flush _ key).trans (w.records.page_noteSlot key w.now uri)

theorem page_noteGood (w : Watch) (uri : EditionUri) (key : DocumentKey) :
    (w.noteGood uri).records.page key =
      if uri.key = key then (w.records.page key).noteGood uri else w.records.page key :=
  (page_flush _ key).trans (w.records.page_noteGood key w.now uri)

/-- A callback is registered in the page of its document only. -/
theorem page_attach (w : Watch) (own : DocumentKey) (callback : CallbackId)
    (options : SubscribeOptions) (key : DocumentKey) :
    (w.attach own callback options).records.page key =
      if own = key then
        (w.records.page key).subscribe own callback options.requested options.polls
      else w.records.page key := by
  rw [← Records.page_subscribe]
  unfold attach
  cases options.polls with
  | false => exact page_flush _ key
  | true =>
    simp only [if_true]
    unfold cover
    dsimp only
    split
    · exact page_flush _ key
    · exact page_flush _ key
    · rw [records_submitPoller]
      exact page_flush _ key

/-- A target is reached through the plain callback that it has, or through a new one. -/
theorem callbackFor_cases (w : Watch) (target : Target) (sparse : Bool) :
    (sparse = false ∧ (w.callbackFor target sparse).watch.callbacks = w.callbacks ∧
      w.callbacks[(w.callbackFor target sparse).callback]? = some (Callback.mk none target)) ∨
    ((w.callbackFor target sparse).callback = w.callbacks.length ∧
      (w.callbackFor target sparse).watch.callbacks =
        w.callbacks ++ [⟨if sparse then some .fresh else none, target⟩] ∧
      (sparse = false → ∀ id : CallbackId, w.callbacks[id]? ≠ some (Callback.mk none target))) := by
  cases sparse with
  | true => exact .inr ⟨rfl, rfl, fun h => by cases h⟩
  | false =>
    unfold callbackFor
    simp only [Bool.false_eq_true, if_false]
    cases hi : w.callbacks.findIdx? fun c => c.gate.isNone && c.target = target with
    | none =>
      refine .inr ⟨rfl, rfl, fun _ id hid => ?_⟩
      have hmem := List.mem_iff_getElem?.mpr ⟨id, hid⟩
      have hnone := List.findIdx?_eq_none_iff.mp hi _ hmem
      simp at hnone
    | some callback =>
      obtain ⟨hlt, hc, -⟩ := List.findIdx?_eq_some_iff_getElem.mp hi
      refine .inl ⟨trivial, rfl, ?_⟩
      obtain ⟨hgate, htarget⟩ : w.callbacks[callback].gate = none ∧
          w.callbacks[callback].target = target := by simpa using hc
      rw [List.getElem?_eq_getElem hlt, ← hgate, ← htarget]

/-- A subscription that is not refused. -/
theorem subscribe_cases (w : Watch) (own : DocumentKey) (name : String)
    {options : SubscribeOptions} (allowed : options.persistent = false) :
    ∃ result, w.subscribe own name options = .ok result ∧
      result.subscription =
        ⟨own, (w.callbackFor (.listener name) options.sparse).callback, options.polls⟩ ∧
      result.watch.callbacks = (w.callbackFor (.listener name) options.sparse).watch.callbacks ∧
      ∀ key, result.watch.records.page key =
        if own = key then
          (w.records.page key).subscribe own
            (w.callbackFor (.listener name) options.sparse).callback options.requested
            options.polls
        else w.records.page key := by
  obtain ⟨hcallbacks, hrecords⟩ : (w.addListener name).callbacks = w.callbacks ∧
      (w.addListener name).records = w.records := by
    unfold addListener
    split <;> exact ⟨rfl, rfl⟩
  obtain ⟨hid, hchosen⟩ :=
    choice_congr hcallbacks ⟨own, options.requested, options.sparse, .listener name⟩
  let choice := (w.addListener name).callbackFor (.listener name) options.sparse
  have hsame : choice.watch.records = w.records := by
    rw [← hrecords]
    unfold choice callbackFor
    split
    · rfl
    · split <;> rfl
  unfold subscribe
  rw [allowed]
  refine ⟨_, rfl, ?_, ?_, fun key => ?_⟩
  · exact congrArg (Subscription.mk own · options.polls) hid
  · obtain ⟨polls, hquiet⟩ := quiet_attach choice.watch own choice.callback options
    exact hquiet.callbacks.trans hchosen
  · have hpage := page_attach choice.watch own choice.callback options key
    rw [hsame] at hpage
    exact hid ▸ hpage

end Watch

/-! ## Callbacks of two watches -/

/-- No target is reached through two plain callbacks. -/
def PlainOnce (callbacks : List Callback) : Prop :=
  ∀ (i j : CallbackId) (target : Target), callbacks[i]? = some ⟨none, target⟩ →
    callbacks[j]? = some ⟨none, target⟩ → i = j

/-- The callbacks in one list are among those in another one, under other numbers. -/
structure Renames (name : CallbackId → CallbackId) (cs cs' : List Callback) : Prop where
  same : ∀ i c, cs[i]? = some c → cs'[name i]? = some c
  apart : ∀ i j, i < cs.length → j < cs.length → name i = name j → i = j

/-- A callback goes under another number. -/
def GoesAs (name : CallbackId → CallbackId) (count : Nat) (i j : CallbackId) : Prop :=
  i < count ∧ name i = j

section Renaming

variable {name later : CallbackId → CallbackId} {cs ds cs' : List Callback} {c : Callback}

/-- A callback for a target that has no plain one yet may be added. -/
theorem PlainOnce.concat (h : PlainOnce cs)
    (new : c.gate = none → ∀ id : CallbackId, cs[id]? ≠ some ⟨none, c.target⟩) :
    PlainOnce (cs ++ [c]) := by
  intro i j target hi hj
  rcases Roster.getElem?_concat_cases hi with hold | ⟨rfl, rfl⟩
  · rcases Roster.getElem?_concat_cases hj with hold' | ⟨rfl, rfl⟩
    · exact h i j target hold hold'
    · exact absurd hold (new rfl i)
  · rcases Roster.getElem?_concat_cases hj with hold' | ⟨rfl, -⟩
    · exact absurd hold' (new rfl j)
    · rfl

/-- A renaming takes no two callbacks to one, and none to two. -/
theorem Renames.biUnique (h : Renames name cs ds) : Relator.BiUnique (GoesAs name cs.length) := by
  constructor
  · rintro i j k ⟨hi, hik⟩ ⟨hj, hjk⟩
    exact h.apart i j hi hj (hik.trans hjk.symm)
  · rintro i j k ⟨-, hij⟩ ⟨-, hik⟩
    exact hij.symm.trans hik

/-- A renaming leads to callbacks that are there. -/
theorem Renames.lt (h : Renames name cs ds) {i : CallbackId} (hi : i < cs.length) :
    name i < ds.length :=
  (List.getElem?_eq_some_iff.mp (h.same i _ (List.getElem?_eq_getElem hi))).1

/-- The other list may grow. -/
theorem Renames.append (h : Renames name cs ds) (more : List Callback) :
    Renames name cs (ds ++ more) where
  same i c hi := by
    have hsame := h.same i c hi
    rwa [List.getElem?_append_left (List.getElem?_eq_some_iff.mp hsame).1]
  apart := h.apart

/-- A callback that is new in one list goes as one in the other that none goes as yet. -/
theorem Renames.concat (h : Renames name cs ds) {j : CallbackId} (there : ds[j]? = some c)
    (free : ∀ i < cs.length, name i ≠ j) :
    Renames (fun i => if i = cs.length then j else name i) (cs ++ [c]) ds where
  same i d hi := by
    rcases Roster.getElem?_concat_cases hi with hold | ⟨rfl, rfl⟩
    · rw [if_neg (Nat.ne_of_lt (List.getElem?_eq_some_iff.mp hold).1)]
      exact h.same i d hold
    · rw [if_pos rfl]
      exact there
  apart i k hi hk he := by
    rw [List.length_append, List.length_singleton] at hi hk
    by_cases hin : i = cs.length
    · by_cases hkn : k = cs.length
      · rw [hin, hkn]
      · rw [if_pos hin, if_neg hkn] at he
        exact absurd he.symm (free k (by omega))
    · by_cases hkn : k = cs.length
      · rw [if_neg hin, if_pos hkn] at he
        exact absurd he (free i (by omega))
      · rw [if_neg hin, if_neg hkn] at he
        exact h.apart i k (by omega) (by omega) he

end Renaming

namespace Watch

variable {v w : Watch} {name : CallbackId → CallbackId}

/-- A subscription adds no second plain callback for a target. -/
theorem plainOnce_callbackFor (once : PlainOnce w.callbacks) (target : Target) (sparse : Bool) :
    PlainOnce (w.callbackFor target sparse).watch.callbacks := by
  rcases callbackFor_cases w target sparse with ⟨-, hsame, -⟩ | ⟨-, hmore, hnone⟩
  · rw [hsame]
    exact once
  · rw [hmore]
    refine once.concat fun hgate => ?_
    cases sparse with
    | true => cases hgate
    | false => exact hnone rfl

/-- Two watches reach a target through callbacks of which one goes as the other. -/
theorem renames_callbackFor (renames : Renames name w.callbacks v.callbacks)
    (once : PlainOnce v.callbacks) (target : Target) (sparse : Bool) :
    ∃ later : CallbackId → CallbackId, (∀ i < w.callbacks.length, later i = name i) ∧
      Renames later (w.callbackFor target sparse).watch.callbacks
        (v.callbackFor target sparse).watch.callbacks ∧
      GoesAs later (w.callbackFor target sparse).watch.callbacks.length
        (w.callbackFor target sparse).callback (v.callbackFor target sparse).callback := by
  rcases callbackFor_cases w target sparse with ⟨hplain, hw, hthere⟩ | ⟨hid, hw, hnone⟩
  · have hthere' := renames.same _ _ hthere
    rcases callbackFor_cases v target sparse with ⟨-, hv, hthere''⟩ | ⟨-, -, hnone⟩
    · refine ⟨name, fun _ _ => rfl, by rw [hw, hv]; exact renames, ?_⟩
      rw [hw]
      exact ⟨(List.getElem?_eq_some_iff.mp hthere).1, once _ _ target hthere' hthere''⟩
    · exact absurd hthere' (hnone hplain _)
  · let new : Callback := ⟨if sparse then some .fresh else none, target⟩
    have hconcat {ds : List Callback} {j : CallbackId} (hds : Renames name w.callbacks ds)
        (there : ds[j]? = some new) (free : ∀ i < w.callbacks.length, name i ≠ j) :
        ∃ later : CallbackId → CallbackId, (∀ i < w.callbacks.length, later i = name i) ∧
          Renames later (w.callbacks ++ [new]) ds ∧
          GoesAs later (w.callbacks ++ [new]).length w.callbacks.length j := by
      refine ⟨_, fun i hi => if_neg (Nat.ne_of_lt hi), hds.concat there free, ?_, if_pos rfl⟩
      rw [List.length_append, List.length_singleton]
      exact Nat.lt_succ_self _
    rw [hid, hw]
    rcases callbackFor_cases v target sparse with ⟨hplain, hv, hthere⟩ | ⟨hid', hv, -⟩
    · rw [hv]
      have hnew : new = ⟨none, target⟩ := by simp [new, hplain]
      refine hconcat renames (hnew ▸ hthere) fun i hi hj => ?_
      have hsame := renames.same i _ (List.getElem?_eq_getElem hi)
      rw [hj, hthere] at hsame
      exact hnone hplain i ((List.getElem?_eq_getElem hi).trans hsame.symm)
    · rw [hid', hv]
      refine hconcat (renames.append _) ?_ fun i hi => Nat.ne_of_lt (renames.lt hi)
      rw [List.getElem?_append_right (Nat.le_refl _), Nat.sub_self]
      rfl

end Watch

/-! ## One run without what is done about other documents -/

/-- Names that were found are kept while more are found. -/
structure Extends (name : CallbackId → CallbackId) (count : Nat)
    (later : CallbackId → CallbackId) (more : Nat) : Prop where
  grows : count ≤ more
  keeps : ∀ i < count, later i = name i

/-- Two subscriptions differ at most in the number of their callback. -/
structure Subscription.Matches (R : CallbackId → CallbackId → Prop) (s t : Subscription) :
    Prop where
  key : t.key = s.key
  callback : R s.callback t.callback
  background : t.background = s.background

/-- Two responses differ at most in the number of a callback. -/
inductive Response.Matches (R : CallbackId → CallbackId → Prop) : Response → Response → Prop where
  | subscribed {s t : Subscription} (same : s.Matches R t) :
      Response.Matches R (.subscribed s) (.subscribed t)
  | refused (fault : Watch.SubscribeFault) : Response.Matches R (.refused fault) (.refused fault)
  | rose (rises : Bool) : Response.Matches R (.rose rises) (.rose rises)
  | silent : Response.Matches R .silent .silent

/-- One desk stands for another as far as a document is concerned: what is written on the page of
the document is the same, and so are the subscriptions of it that were given out. -/
structure Mirrors (key : DocumentKey) (name : CallbackId → CallbackId) (d e : Desk) : Prop where
  renames : Renames name d.callbacks e.callbacks
  once : PlainOnce e.callbacks
  page : (d.page key).Matches (GoesAs name d.callbacks.length) (e.page key)
  given : List.Forall₂ (Subscription.Matches (GoesAs name d.callbacks.length))
    (d.given.filter fun s => s.key = key) (e.given.filter fun s => s.key = key)

section Mirroring

variable {key : DocumentKey} {name later last : CallbackId → CallbackId} {count more most : Nat}
  {d e d' e' : Desk} {operation : Operation}

theorem Extends.refl (name : CallbackId → CallbackId) (count : Nat) :
    Extends name count name count := ⟨Nat.le_refl _, fun _ _ => rfl⟩

theorem Extends.trans (h : Extends name count later more) (h' : Extends later more last most) :
    Extends name count last most where
  grows := Nat.le_trans h.grows h'.grows
  keeps i hi := (h'.keeps i (Nat.lt_of_lt_of_le hi h.grows)).trans (h.keeps i hi)

/-- Callbacks that go by a name keep it when more are named. -/
theorem Extends.goesAs (h : Extends name count later more) (i j : CallbackId)
    (goes : GoesAs name count i j) : GoesAs later more i j :=
  ⟨Nat.lt_of_lt_of_le goes.1 h.grows, (h.keeps i goes.1).trans goes.2⟩

/-- Subscriptions that match under some names match under more. -/
theorem Subscription.Matches.mono {R S : CallbackId → CallbackId → Prop} {s t : Subscription}
    (h : s.Matches R t) (more : ∀ i j, R i j → S i j) : s.Matches S t :=
  { h with callback := more _ _ h.callback }

/-- Responses that match under some names match under more. -/
theorem Response.Matches.mono {R S : CallbackId → CallbackId → Prop} {o o' : Response}
    (h : Response.Matches R o o') (more : ∀ i j, R i j → S i j) : Response.Matches S o o' := by
  cases h with
  | subscribed same => exact .subscribed (same.mono more)
  | refused fault => exact .refused fault
  | rose rises => exact .rose rises
  | silent => exact .silent

/-- Responses that match under the names of a renaming are equal once they are renamed. -/
theorem Response.Matches.eq_renamed {R : CallbackId → CallbackId → Prop} {o o' : Response}
    (h : Response.Matches R o o') (names : ∀ i j, R i j → name i = j) : o.renamed name = o' := by
  cases h with
  | @subscribed s t same =>
    obtain ⟨key, callback, background⟩ := t
    obtain ⟨rfl, hc, rfl⟩ := same
    exact congrArg (fun i => Response.subscribed ⟨s.key, i, s.background⟩) (names _ _ hc)
  | refused fault => rfl
  | rose rises => rfl
  | silent => rfl

/-- Lists that match item by item have equally many items, and each matches the other. -/
theorem getElem?_of_forall₂ {α β : Type} {Q : α → β → Prop} {l : List α} {l' : List β}
    (h : List.Forall₂ Q l l') (n : Nat) :
    (l[n]? = none ∧ l'[n]? = none) ∨ ∃ a b, l[n]? = some a ∧ l'[n]? = some b ∧ Q a b := by
  induction h generalizing n with
  | nil => exact .inl ⟨rfl, rfl⟩
  | @cons a b l l' first _ ih =>
    cases n with
    | zero => exact .inr ⟨a, b, rfl, rfl, first⟩
    | succ n => exact ih n

/-- A desk files a subscription under its own document. -/
theorem Desk.key_of_subscription? {number : Nat} {s : Subscription}
    (h : d.subscription? key number = some s) : s.key = key := by
  have hmem := List.mem_iff_getElem?.mpr ⟨number, h⟩
  exact of_decide_eq_true (List.mem_filter.mp hmem).2

/-- A subscription that is refused leaves everything as it is. -/
theorem Desk.perform_of_refused (d : Desk) (own : DocumentKey) (listener : String)
    {options : Watch.SubscribeOptions} (refused : options.persistent = true) :
    d.perform (.subscribe own listener options) = d ∧
      d.response (.subscribe own listener options) = .refused .persistent := by
  have hsubscribe : d.watch.subscribe own listener options = .error .persistent := by
    rw [Watch.subscribe, refused]
    rfl
  rw [perform, response, hsubscribe]
  exact ⟨rfl, rfl⟩

/-- A subscription that is not refused is given out. -/
theorem Desk.perform_subscribe (d : Desk) (own : DocumentKey) (listener : String)
    {options : Watch.SubscribeOptions} (allowed : options.persistent = false) :
    let choice := d.watch.callbackFor (.listener listener) options.sparse
    let s : Subscription := ⟨own, choice.callback, options.polls⟩
    d.response (.subscribe own listener options) = .subscribed s ∧
    (d.perform (.subscribe own listener options)).given = d.given ++ [s] ∧
    (d.perform (.subscribe own listener options)).callbacks = choice.watch.callbacks ∧
    ∀ key, (d.perform (.subscribe own listener options)).page key =
      if own = key then
        (d.page key).subscribe own choice.callback options.requested options.polls
      else d.page key := by
  obtain ⟨result, hresult, hs, hcallbacks, hpage⟩ :=
    d.watch.subscribe_cases own listener allowed
  intro choice s
  rw [perform, response, hresult]
  exact ⟨congrArg _ hs, congrArg (d.given ++ [·]) hs, hcallbacks, hpage⟩

/-- Apart from subscriptions, nothing makes callbacks or gives subscriptions out. -/
theorem Desk.perform_keeps (d : Desk)
    (other : ∀ own listener options, operation ≠ .subscribe own listener options) :
    (d.perform operation).callbacks = d.callbacks ∧ (d.perform operation).given = d.given := by
  cases operation with
  | subscribe own listener options => exact absurd rfl (other own listener options)
  | unsubscribe own number =>
    rw [perform]
    cases d.subscription? own number with
    | none => exact ⟨rfl, rfl⟩
    | some s => exact ⟨(Watch.Quiet.unsubscribe d.watch s).callbacks, rfl⟩
  | noteSlot uri => exact ⟨(Watch.Quiet.noteSlot d.watch uri).callbacks, rfl⟩
  | noteGood uri => exact ⟨(Watch.Quiet.noteGood d.watch uri).callbacks, rfl⟩
  | noteFetched uri metadata =>
    exact ⟨(Watch.Quiet.noteFetched d.watch uri metadata).callbacks, rfl⟩
  | finishRound own => exact ⟨Watch.callbacks_flush _, rfl⟩

/-- To unsubscribe changes the page of its document only, at the desk too. -/
theorem Desk.page_unsubscribe {own : DocumentKey} {number : Nat} {s : Subscription} {d : Desk}
    (found : d.subscription? own number = some s) (key : DocumentKey) :
    (d.perform (.unsubscribe own number)).page key =
      if own = key then (d.page key).unsubscribe s.callback else d.page key := by
  rw [perform, found, ← key_of_subscription? found]
  exact d.watch.page_unsubscribe s key

theorem Desk.page_noteSlot (d : Desk) (uri : EditionUri) (key : DocumentKey) :
    (d.perform (.noteSlot uri)).page key =
      if uri.key = key then (d.page key).noteSlot uri else d.page key :=
  d.watch.page_noteSlot uri key

theorem Desk.page_noteGood (d : Desk) (uri : EditionUri) (key : DocumentKey) :
    (d.perform (.noteGood uri)).page key =
      if uri.key = key then (d.page key).noteGood uri else d.page key :=
  d.watch.page_noteGood uri key

/-- To note an edition that was fetched elsewhere is to note that it exists, or was fetched. -/
theorem Desk.perform_noteFetched (d : Desk) (uri : EditionUri) (metadata : Bool) :
    d.perform (.noteFetched uri metadata) =
      d.perform (if metadata then .noteSlot uri else .noteGood uri) := by
  cases metadata <;> rfl

/-- A round that is over changes the page of its document only. -/
theorem Desk.page_finishRound (d : Desk) (own key : DocumentKey) :
    (d.perform (.finishRound own)).page key =
      if own = key then (d.page key).finishRound own else d.page key :=
  (Watch.page_flush _ key).trans (d.watch.records.page_finishRound key own)

/-- What is done about another document leaves the page as it is. -/
theorem Desk.page_perform_of_other (d : Desk) (other : operation.key ≠ key) :
    (d.perform operation).page key = d.page key := by
  cases operation with
  | subscribe own listener options =>
    cases hp : options.persistent with
    | true => rw [(d.perform_of_refused own listener hp).1]
    | false =>
      obtain ⟨-, -, -, hpage⟩ := d.perform_subscribe own listener hp
      exact (hpage key).trans (if_neg other)
  | unsubscribe own number =>
    cases hs : d.subscription? own number with
    | none => rw [perform, hs]
    | some s => exact (page_unsubscribe hs key).trans (if_neg other)
  | noteSlot uri => exact (d.page_noteSlot uri key).trans (if_neg other)
  | noteGood uri => exact (d.page_noteGood uri key).trans (if_neg other)
  | noteFetched uri metadata =>
    rw [perform_noteFetched]
    cases metadata with
    | true => exact (d.page_noteSlot uri key).trans (if_neg other)
    | false => exact (d.page_noteGood uri key).trans (if_neg other)
  | finishRound own => exact (d.page_finishRound own key).trans (if_neg other)

namespace Mirrors

/-- An operation on another document leaves the mirror of this one as it is. -/
theorem spared (h : Mirrors key name d e) (other : operation.key ≠ key) :
    Mirrors key name d (e.perform operation) := by
  have hpage : (e.perform operation).page key = e.page key := e.page_perform_of_other other
  have hrest : Renames name d.callbacks (e.perform operation).callbacks ∧
      PlainOnce (e.perform operation).callbacks ∧
      ((e.perform operation).given.filter fun s => s.key = key) =
        e.given.filter fun s => s.key = key := by
    by_cases his : ∃ own listener options, operation = .subscribe own listener options
    · obtain ⟨own, listener, options, rfl⟩ := his
      cases hp : options.persistent with
      | true =>
        rw [(e.perform_of_refused own listener hp).1]
        exact ⟨h.renames, h.once, rfl⟩
      | false =>
        obtain ⟨-, hgiven, hcallbacks, -⟩ := e.perform_subscribe own listener hp
        rw [hgiven, hcallbacks]
        refine ⟨?_, Watch.plainOnce_callbackFor h.once _ _, ?_⟩
        · rcases e.watch.callbackFor_cases (.listener listener) options.sparse with
            ⟨-, hsame, -⟩ | ⟨-, hmore, -⟩
          · rw [hsame]
            exact h.renames
          · rw [hmore]
            exact h.renames.append _
        · have hnone : decide (own = key) = false := decide_eq_false other
          rw [List.filter_append]
          simp [hnone]
    · obtain ⟨hcallbacks, hgiven⟩ := e.perform_keeps fun own listener options he =>
        his ⟨own, listener, options, he⟩
      rw [hcallbacks, hgiven]
      exact ⟨h.renames, h.once, rfl⟩
  exact ⟨hrest.1, hrest.2.1, hpage ▸ h.page, hrest.2.2 ▸ h.given⟩

/-- As long as neither desk makes callbacks or gives subscriptions out, only the page matters. -/
theorem of_page (h : Mirrors key name d e)
    (other : ∀ own listener options, operation ≠ .subscribe own listener options)
    (page : ((d.perform operation).page key).Matches (GoesAs name d.callbacks.length)
      ((e.perform operation).page key)) :
    Mirrors key name (d.perform operation) (e.perform operation) := by
  obtain ⟨hcallbacks, hgiven⟩ := d.perform_keeps other
  obtain ⟨hcallbacks', hgiven'⟩ := e.perform_keeps other
  refine ⟨?_, ?_, ?_, ?_⟩
  · rw [hcallbacks, hcallbacks']
    exact h.renames
  · rw [hcallbacks']
    exact h.once
  · rw [hcallbacks]
    exact page
  · rw [hcallbacks, hgiven, hgiven']
    exact h.given

/-- Desks that mirror each other do so after the same subscription is removed from both. -/
theorem unsubscribe (h : Mirrors key name d e) (number : Nat) :
    Mirrors key name (d.perform (.unsubscribe key number))
      (e.perform (.unsubscribe key number)) := by
  refine h.of_page (fun _ _ _ => Operation.noConfusion) ?_
  rcases getElem?_of_forall₂ h.given number with ⟨hnone, hnone'⟩ | ⟨s, t, hs, ht, hst⟩
  · have hd : d.subscription? key number = none := hnone
    have he : e.subscription? key number = none := hnone'
    rw [Desk.perform, hd, Desk.perform, he]
    exact h.page
  · rw [Desk.page_unsubscribe hs, if_pos rfl, Desk.page_unsubscribe ht, if_pos rfl]
    exact h.page.unsubscribe h.renames.biUnique hst.callback

/-- Desks that mirror each other do so after both note a slot. -/
theorem noteSlot (h : Mirrors key name d e) {uri : EditionUri} (own : uri.key = key) :
    Mirrors key name (d.perform (.noteSlot uri)) (e.perform (.noteSlot uri)) := by
  refine h.of_page (fun _ _ _ => Operation.noConfusion) ?_
  rw [Desk.page_noteSlot, if_pos own, Desk.page_noteSlot, if_pos own]
  exact h.page.noteSlot uri

theorem noteGood (h : Mirrors key name d e) {uri : EditionUri} (own : uri.key = key) :
    Mirrors key name (d.perform (.noteGood uri)) (e.perform (.noteGood uri)) := by
  refine h.of_page (fun _ _ _ => Operation.noConfusion) ?_
  rw [Desk.page_noteGood, if_pos own, Desk.page_noteGood, if_pos own]
  exact h.page.noteGood uri

theorem finishRound (h : Mirrors key name d e) :
    Mirrors key name (d.perform (.finishRound key)) (e.perform (.finishRound key)) := by
  refine h.of_page (fun _ _ _ => Operation.noConfusion) ?_
  rw [Desk.page_finishRound, if_pos rfl, Desk.page_finishRound, if_pos rfl]
  exact h.page.finishRound key

/-- A subscription may be the first to make its callback in one run, but not in the other. Then a
new name is found. -/
theorem subscribe (h : Mirrors key name d e) (listener : String) {options : Watch.SubscribeOptions}
    (allowed : options.persistent = false) :
    let operation : Operation := .subscribe key listener options
    ∃ later, Extends name d.callbacks.length later (d.perform operation).callbacks.length ∧
      Mirrors key later (d.perform operation) (e.perform operation) ∧
      Response.Matches (GoesAs later (d.perform operation).callbacks.length) (d.response operation)
        (e.response operation) := by
  intro operation
  obtain ⟨hout, hgiven, hcallbacks, hpage⟩ := d.perform_subscribe key listener allowed
  obtain ⟨hout', hgiven', hcallbacks', hpage'⟩ := e.perform_subscribe key listener allowed
  obtain ⟨later, hkeeps, hrenames, hgoes⟩ :=
    Watch.renames_callbackFor h.renames h.once (.listener listener) options.sparse
  have honce := Watch.plainOnce_callbackFor h.once (.listener listener) options.sparse
  have hgrows : d.callbacks.length ≤ (d.perform operation).callbacks.length := by
    rw [hcallbacks]
    rcases d.watch.callbackFor_cases (.listener listener) options.sparse with
      ⟨-, hsame, -⟩ | ⟨-, hmore, -⟩
    · rw [hsame]
      exact Nat.le_refl _
    · rw [hmore, List.length_append]
      exact Nat.le_add_right _ _
  have hextends : Extends name d.callbacks.length later (d.perform operation).callbacks.length :=
    ⟨hgrows, hkeeps⟩
  rw [← hcallbacks, ← hcallbacks'] at hrenames
  rw [← hcallbacks] at hgoes
  rw [← hcallbacks'] at honce
  refine ⟨later, hextends, ⟨hrenames, honce, ?_, ?_⟩, ?_⟩
  · rw [hpage, if_pos rfl, hpage', if_pos rfl]
    exact (h.page.mono hextends.goesAs).subscribe hrenames.biUnique hgoes key _ _
  · rw [hgiven, hgiven', List.filter_append, List.filter_append]
    refine List.rel_append (h.given.imp fun _ _ hst => hst.mono hextends.goesAs) ?_
    simp only [decide_true, List.filter_cons_of_pos, List.filter_nil]
    exact .cons ⟨rfl, hgoes, rfl⟩ .nil
  · rw [hout, hout']
    exact .subscribed ⟨rfl, hgoes, rfl⟩

/-- What is done about the document itself writes the same on both pages, and is answered in the
same way. -/
theorem perform (h : Mirrors key name d e) (own : operation.key = key) :
    ∃ later, Extends name d.callbacks.length later (d.perform operation).callbacks.length ∧
      Mirrors key later (d.perform operation) (e.perform operation) ∧
      Response.Matches (GoesAs later (d.perform operation).callbacks.length) (d.response operation)
        (e.response operation) := by
  have hfrontier : e.watch.records.frontier key = d.watch.records.frontier key := h.page.frontier
  have hsame (other : ∀ own listener options, operation ≠ .subscribe own listener options)
      (hmirrors : Mirrors key name (d.perform operation) (e.perform operation))
      (hout : ∀ R, Response.Matches R (d.response operation) (e.response operation)) :
      ∃ later, Extends name d.callbacks.length later (d.perform operation).callbacks.length ∧
        Mirrors key later (d.perform operation) (e.perform operation) ∧
        Response.Matches (GoesAs later (d.perform operation).callbacks.length)
          (d.response operation) (e.response operation) := by
    refine ⟨name, ?_, hmirrors, hout _⟩
    rw [(d.perform_keeps other).1]
    exact .refl _ _
  cases operation with
  | subscribe k listener options =>
    cases own
    cases hp : options.persistent with
    | true =>
      obtain ⟨hperform, hout⟩ := d.perform_of_refused k listener hp
      obtain ⟨hperform', hout'⟩ := e.perform_of_refused k listener hp
      rw [hperform, hperform', hout, hout']
      exact ⟨name, .refl _ _, h, .refused _⟩
    | false => exact h.subscribe listener hp
  | unsubscribe k number =>
    cases own
    exact hsame (fun _ _ _ => Operation.noConfusion) (h.unsubscribe number) fun _ => .silent
  | noteSlot uri =>
    have hrises : e.watch.records.raisesSlot uri = d.watch.records.raisesSlot uri := by
      rw [Records.raisesSlot, Records.raisesSlot, show uri.key = key from own, hfrontier]
    refine hsame (fun _ _ _ => Operation.noConfusion) (h.noteSlot own) fun R => ?_
    rw [Desk.response, Desk.response, hrises]
    exact .rose _
  | noteGood uri =>
    have hrises : e.watch.records.raisesGood uri = d.watch.records.raisesGood uri := by
      rw [Records.raisesGood, Records.raisesGood, show uri.key = key from own, hfrontier]
    refine hsame (fun _ _ _ => Operation.noConfusion) (h.noteGood own) fun R => ?_
    rw [Desk.response, Desk.response, hrises]
    exact .rose _
  | noteFetched uri metadata =>
    refine hsame (fun _ _ _ => Operation.noConfusion) ?_ fun _ => .silent
    rw [Desk.perform_noteFetched, Desk.perform_noteFetched]
    cases metadata with
    | true => exact h.noteSlot own
    | false => exact h.noteGood own
  | finishRound k =>
    cases own
    exact hsame (fun _ _ _ => Operation.noConfusion) h.finishRound fun _ => .silent

/-- One run goes through all that is done, the other only through what is done about the
document. -/
theorem run (h : Mirrors key name d e) (operations : List Operation) :
    ∃ later,
      Extends name d.callbacks.length later
        (d.run (Operation.about key operations)).callbacks.length ∧
      Mirrors key later (d.run (Operation.about key operations)) (e.run operations) ∧
      List.Forall₂ (Response.Matches
          (GoesAs later (d.run (Operation.about key operations)).callbacks.length))
        (d.responses key (Operation.about key operations)) (e.responses key operations) := by
  induction operations generalizing d e name with
  | nil => exact ⟨name, .refl _ _, h, .nil⟩
  | cons operation rest ih =>
    by_cases hown : operation.key = key
    · have habout : Operation.about key (operation :: rest) =
          operation :: Operation.about key rest := List.filter_cons_of_pos (decide_eq_true hown)
      obtain ⟨next, hextends, hnext, hout⟩ := h.perform hown
      obtain ⟨last, hmore, hlast, houts⟩ := ih hnext
      rw [habout, Desk.responses, Desk.responses, if_pos hown, if_pos hown]
      exact ⟨last, hextends.trans hmore, hlast, .cons (hout.mono hmore.goesAs) houts⟩
    · have habout : Operation.about key (operation :: rest) = Operation.about key rest :=
        List.filter_cons_of_neg (by simpa using hown)
      rw [habout, Desk.responses, if_neg hown]
      exact ih (h.spared hown)

end Mirrors

end Mirroring

/-! ## Every run -/

/-- A callback that is plain was plain before it was told something. -/
theorem Callback.eq_of_tell_eq {c : Callback} {signal : Signal} {target : Target}
    (h : c.tell signal = ⟨none, target⟩) : c = ⟨none, target⟩ := by
  obtain ⟨gate, aim⟩ := c
  cases gate with
  | none => exact h
  | some gate => cases h

/-- Names of some callbacks can be made names of all. -/
theorem Renames.exists_injective {name : CallbackId → CallbackId} {cs ds : List Callback}
    (h : Renames name cs ds) :
    ∃ all : CallbackId → CallbackId, Function.Injective all ∧ ∀ i < cs.length, all i = name i := by
  let all : CallbackId → CallbackId := fun i => if i < cs.length then name i else ds.length + i
  have hfar {i : CallbackId} (hi : i < cs.length) (j : Nat) : name i ≠ ds.length + j :=
    Nat.ne_of_lt (Nat.lt_of_lt_of_le (h.lt hi) (Nat.le_add_right _ j))
  refine ⟨all, fun i j hij => ?_, fun i hi => if_pos hi⟩
  dsimp only [all] at hij
  by_cases hi : i < cs.length
  · by_cases hj : j < cs.length
    · rw [if_pos hi, if_pos hj] at hij
      exact h.apart i j hi hj hij
    · rw [if_pos hi, if_neg hj] at hij
      exact absurd hij (hfar hi j)
  · by_cases hj : j < cs.length
    · rw [if_neg hi, if_pos hj] at hij
      exact absurd hij.symm (hfar hj i)
    · rw [if_neg hi, if_neg hj] at hij
      exact Nat.add_left_cancel hij

namespace Watch

variable {w v : Watch}

/-- A delivery that is taken out adds no second plain callback for a target. -/
theorem plainOnce_eased (once : PlainOnce w.callbacks) (action : Action) :
    PlainOnce (w.eased action).callbacks := by
  cases hmade : w.handOut? action with
  | none =>
    rw [eased_of_idle hmade]
    exact once
  | some h =>
    rw [eased_of_handOut hmade]
    have hold (i : CallbackId) (target : Target)
        (hi : (w.callbacks.modify h.delivery.callback (·.tell h.delivery.signal))[i]? =
          some ⟨none, target⟩) : w.callbacks[i]? = some ⟨none, target⟩ := by
      rw [List.getElem?_modify] at hi
      obtain ⟨c, hc, he⟩ := Option.map_eq_some_iff.mp hi
      rw [hc]
      split at he
      · rw [Callback.eq_of_tell_eq he]
      · rw [he]
    exact fun i j target hi hj => once i j target (hold i target hi) (hold j target hj)

/-- No action adds a second plain callback for a target. -/
theorem plainOnce_act (once : PlainOnce w.callbacks) (action : Action) :
    PlainOnce (w.act action).callbacks := by
  have heased := plainOnce_eased once action
  cases deed_act w action with
  | tells tells =>
    rw [tells.callbacks]
    exact heased
  | joins enrolment joins =>
    rw [joins.callbacks]
    exact plainOnce_callbackFor heased _ _
  | closes ended closes =>
    rw [closes.callbacks]
    exact heased

/-- No run adds a second plain callback for a target. -/
theorem plainOnce_run (once : PlainOnce w.callbacks) (actions : List Action) :
    PlainOnce (w.run actions).callbacks := by
  induction actions generalizing w with
  | nil => exact once
  | cons action rest ih => exact ih (plainOnce_act once action)

/-- On the page of a document only callbacks stand that were made. -/
theorem page_self (settings : Settings) (listeners : List Listener) (actions : List Action)
    (key : DocumentKey) :
    let w := (initial settings listeners).run actions
    (w.records.page key).Matches (GoesAs id w.callbacks.length) (w.records.page key) := by
  intro w
  have hfamiliar : Familiar w ((initial settings listeners).arrivals actions) :=
    (familiar_initial settings listeners).run actions
  have hfifo : ((initial settings listeners).handOuts actions).map HandOut.delivery ++ w.pending =
      ((initial settings listeners).arrivals actions).map Arrival.delivery :=
    pending_run (initial settings listeners) actions
  obtain ⟨history, hrecords, -⟩ := records_run (initial settings listeners) actions
  have henlisted : w.records.Enlisted := by
    rw [hrecords]
    exact (Records.staffed_run (Records.staffed_initial _) (Records.enlisted_initial _) history).2
  refine Page.Matches.self (fun s hs => ⟨hfamiliar.made key s hs, rfl⟩) (fun i hi => ?_)
    fun d hd => ?_
  · obtain ⟨s, hs, rfl⟩ := (Registry.has_iff _ _ _).mp (henlisted key i hi)
    exact ⟨hfamiliar.made key s hs, rfl⟩
  · have hpending : d ∈ w.pending := (List.mem_filter.mp hd).1
    have harrived := hfifo ▸ List.mem_append_right _ hpending
    obtain ⟨a, ha, rfl⟩ := List.mem_map.mp harrived
    exact ⟨hfamiliar.told a ha, rfl⟩

/-- In every run, and whatever is done about documents after it: if all that is done about other
documents is left out, then what is done about the document is answered in the same way, and its
page reads the same in the end, that is the newest editions, who is registered, what it asked for
and what it heard, for whom the document is polled, and the deliveries about it in their order.
Callbacks that are made meanwhile may have other numbers, but they are the same callbacks; those
that were there before keep their numbers, also if they hear of several documents. -/
theorem documents_apart (settings : Settings) (listeners : List Listener) (actions : List Action)
    (given : List Subscription)
    (known : ∀ s ∈ given, s.callback < ((initial settings listeners).run actions).callbacks.length)
    (key : DocumentKey) (operations : List Operation) :
    let start : Desk := ⟨(initial settings listeners).run actions, given⟩
    let own := Operation.about key operations
    ∃ name : CallbackId → CallbackId, Function.Injective name ∧
      (∀ i < start.callbacks.length, name i = i) ∧
      (∀ i c, (start.run own).callbacks[i]? = some c →
        (start.run operations).callbacks[name i]? = some c) ∧
      (start.run operations).page key = ((start.run own).page key).renamed name ∧
      start.responses key operations = (start.responses key own).map (Response.renamed name) := by
  intro start own
  have honce : PlainOnce (initial settings listeners).callbacks := fun i j target hi => by cases hi
  have hstart : Mirrors key id start start := by
    refine ⟨⟨fun _ _ hi => hi, fun _ _ _ _ he => he⟩, plainOnce_run honce actions,
      page_self settings listeners actions key, List.forall₂_same.mpr fun s hs => ?_⟩
    exact ⟨rfl, ⟨known s (List.mem_filter.mp hs).1, rfl⟩, rfl⟩
  obtain ⟨found, hextends, hmirrors, hresponses⟩ := hstart.run operations
  obtain ⟨name, hinjective, hname⟩ := hmirrors.renames.exists_injective
  have hnames (i j : CallbackId) (goes : GoesAs found (start.run own).callbacks.length i j) :
      name i = j := (hname i goes.1).trans goes.2
  refine ⟨name, hinjective, fun i hi => ?_, fun i c hi => ?_, hmirrors.page.eq_renamed hnames,
    eq_map_of_forall₂ hresponses fun o o' ho => ho.eq_renamed hnames⟩
  · rw [hname i (Nat.lt_of_lt_of_le hi hextends.grows)]
    exact hextends.keeps i hi
  · rw [hname i (List.getElem?_eq_some_iff.mp hi).1]
    exact hmirrors.renames.same i c hi

/-- Someone who heard of the notes subscribes to the plans as well, once under the number that it
has, once under a new one. If that is left out, then this number goes to the next callback for the
notes. -/
theorem documents_apart_of_two_documents :
    let notes : DocumentKey := ⟨.uniform 7, "notes"⟩
    let plans : DocumentKey := ⟨.uniform 7, "plans"⟩
    let start : Desk :=
      ⟨(initial Settings.standard []).run [.subscribe notes "ann" {}], [⟨notes, 0, false⟩]⟩
    let operations : List Operation :=
      [.subscribe plans "ann" {}, .subscribe plans "ann" { sparse := true },
        .subscribe notes "ann" { sparse := true }, .noteSlot ⟨plans, 5⟩, .noteGood ⟨notes, 3⟩,
        .unsubscribe plans 1, .unsubscribe notes 0, .finishRound notes, .noteSlot ⟨notes, 2⟩]
    let own := Operation.about notes operations
    let page (callback : CallbackId) : Page :=
      ⟨⟨some 3, some 3⟩, [⟨callback, 0, some ⟨3, true⟩⟩], [callback],
        [.found 0 ⟨notes, 3, true, true⟩, .found callback ⟨notes, 3, true, true⟩,
          .round callback notes]⟩
    let responses (callback : CallbackId) : List Response :=
      [.subscribed ⟨notes, callback, true⟩, .rose true, .silent, .silent, .rose false]
    (start.run own).page notes = page 1 ∧ start.responses notes own = responses 1 ∧
      (start.run operations).page notes = page 2 ∧
      start.responses notes operations = responses 2 := by
  intro notes plans start operations own page responses
  obtain ⟨name, -, hkept, -, hpage, hresponses⟩ :=
    documents_apart Settings.standard [] [.subscribe notes "ann" {}] [⟨notes, 0, false⟩]
      (by decide) notes operations
  have hown : (start.run own).page notes = page 1 := by decide
  have hanswers : start.responses notes own = responses 1 := by decide
  have hcovered : ((start.run operations).page notes).background = [2] := by decide
  have hzero : name 0 = 0 := hkept 0 (by decide)
  rw [show (start.run own).page notes = page 1 from hown] at hpage
  have hone : name 1 = 2 := by
    rw [hpage] at hcovered
    exact (List.cons.inj hcovered).1
  have hrenamed : (page 1).renamed name = page 2 := by
    simp only [page, Page.renamed, Subscriber.renamed, Delivery.renamed, List.map_cons,
      List.map_nil, hzero, hone]
  refine ⟨hown, hanswers, hpage.trans hrenamed, hresponses.trans ?_⟩
  rw [show start.responses notes own = responses 1 from hanswers]
  simp only [responses, Response.renamed, Subscription.renamed, List.map_cons, List.map_nil, hone]

end Watch

end EditionWatch
