import EditionWatch.Proofs.Coverage
import EditionWatch.Proofs.Effects
import EditionWatch.Proofs.Hearing

/-!
# Removals

A subscription is known by its document and its callback, and to remove it is to take that
callback from that document. Once this was done there is nothing left to take, and it does
nothing to do it again, until the callback is subscribed to the document anew.

A listener that is subscribed plainly is reached through the same callback every time. So what
it got for a subscription that was removed stands for the next one as well, and removes that.
Behind a gate of its own, or before a feed, no callback serves twice, and such a subscription
is gone for good.
-/

namespace EditionWatch

/-- Whether calls go to a content feed. -/
def Target.isFeed : Target → Bool
  | .listener _ => false
  | .feed _ => true

namespace PollerPool

/-- Whoever is not polled for can leave without effect. -/
theorem leave_of_not_mem {pool : PollerPool} (staffed : pool.Staffed) {key : DocumentKey}
    {callback : CallbackId} (h : callback ∉ pool.subscribers key) :
    pool.leave key callback = ⟨pool, none⟩ := by
  unfold leave
  cases hg : pool.get? key with
  | none => rfl
  | some entry =>
    rw [subscribers_of_get? hg] at h
    have hleft : entry.subscribers.filter (· ≠ callback) = entry.subscribers := by
      refine List.filter_eq_self.mpr fun other hother => decide_eq_true ?_
      rintro rfl
      exact h hother
    have hsome : entry.subscribers.isEmpty = false :=
      List.isEmpty_eq_false_iff.mpr (staffed key entry hg)
    simp only [hleft, hsome, Bool.false_eq_true, if_false, KeyMap.insert_of_get? hg]

end PollerPool

namespace Records

variable {r : Records} {key : DocumentKey} {callback : CallbackId}

/-- Removing a callback that is not registered changes nothing, and nobody is of no use after
it who was of use before. -/
theorem unregister_of_absent (staffed : r.pool.Staffed) (enlisted : r.Enlisted)
    (absent : r.registry.has key callback = false) :
    r.unregister key callback = r ∧ r.idleWithout key callback = none := by
  have hpolled : callback ∉ r.pool.subscribers key := fun hin => by
    rw [enlisted key callback hin] at absent
    cases absent
  have hleave := PollerPool.leave_of_not_mem staffed hpolled
  have hremove : r.registry.remove key callback = r.registry := by
    rw [Registry.remove, absent, if_neg Bool.false_ne_true]
  constructor
  · simp only [unregister, hleave, hremove, absent]
    rfl
  · rw [idleWithout, hleave]

/-- Plain changes register nobody. -/
theorem absent_run (attuned : r.Attuned) (absent : r.registry.has key callback = false)
    {changes : List Change} (plain : ∀ change ∈ changes, change.isPlain = true) :
    (r.run changes).registry.has key callback = false := by
  induction changes generalizing r with
  | nil => exact absent
  | cons change rest ih =>
    have hplain := plain change List.mem_cons_self
    have hother : ∀ requested polls, change ≠ .subscribe key callback requested polls := by
      rintro requested polls rfl
      cases hplain
    exact ih (attuned_apply attuned change) (newsFor_of_absent attuned absent hother).2
      fun c hc => plain c (List.mem_cons_of_mem _ hc)

end Records

namespace Watch

variable {u v w : Watch} {key : DocumentKey} {callback : CallbackId} {action : Action}

/-- Whether an action subscribes a callback to a document: the owner can call the watch, and
asks for a subscription that is served through the callback. -/
def enrols (w : Watch) (key : DocumentKey) (callback : CallbackId) (action : Action) : Bool :=
  w.held && (w.enrolment? action).any fun enrolment =>
    enrolment.key = key && (w.choice enrolment).callback = callback

/-- Whether a callback is subscribed to a document in the course of several actions. -/
def renews (w : Watch) (key : DocumentKey) (callback : CallbackId) : List Action → Bool
  | [] => false
  | action :: rest => w.enrols key callback action || (w.act action).renews key callback rest

/-! ## Absent callbacks -/

/-- The records stay attuned in every action. -/
theorem attuned_act (attuned : w.records.Attuned) (action : Action) :
    (w.act action).records.Attuned := by
  obtain ⟨history, hrecords, -⟩ := records_run w [action]
  have hact : (w.act action).records = w.records.run history := hrecords
  rw [hact]
  exact Records.attuned_run attuned history

/-- To tell somebody something leaves the records attuned. -/
theorem Tells.attuned {calls : List (String × Signal)} (h : Tells w calls v)
    (attuned : w.records.Attuned) : v.records.Attuned := by
  obtain ⟨changes, hrecords, -⟩ := h.records
  rw [hrecords]
  exact Records.attuned_run attuned changes

/-- To tell somebody something registers nobody. -/
theorem Tells.absent {calls : List (String × Signal)} (h : Tells w calls v)
    (attuned : w.records.Attuned) (absent : w.records.registry.has key callback = false) :
    v.records.registry.has key callback = false := by
  obtain ⟨changes, hrecords, hplain⟩ := h.records
  rw [hrecords]
  exact Records.absent_run attuned absent hplain

/-- A subscription registers the callback that it is served through, and no other. -/
theorem Joins.absent {enrolment : Enrolment} (h : Joins w v enrolment)
    (attuned : w.records.Attuned) (absent : w.records.registry.has key callback = false)
    (other : ¬(enrolment.key = key ∧ (w.choice enrolment).callback = callback)) :
    v.records.registry.has key callback = false := by
  obtain ⟨polls, changes, hrecords, hplain⟩ := h.records
  rw [hrecords]
  refine Records.absent_run (Records.attuned_apply attuned _) ?_ hplain
  refine (Records.newsFor_of_absent attuned absent fun requested polled is => ?_).2
  injection is with hkey hcallback
  exact other ⟨hkey, hcallback⟩

/-- A callback that is not registered stays so, unless it is subscribed. -/
theorem absent_act (attuned : w.records.Attuned)
    (absent : w.records.registry.has key callback = false)
    (spared : w.enrols key callback action = false) :
    (w.act action).records.registry.has key callback = false := by
  cases hmade : w.handOut? action with
  | some h =>
    have heased := agrees_eased w action
    refine (tells_of_handOut hmade).absent (heased.attuned attuned) ?_
    rw [heased.registry]
    exact absent
  | none =>
    cases hasked : w.enrolment? action with
    | none =>
      rcases polls_of_unasked w hmade hasked with hquiet | ⟨ended, hcloses⟩
      · exact hquiet.absent attuned absent
      · rw [hcloses.agrees.registry]
        exact absent
    | some enrolment =>
      cases hheld : w.held with
      | false =>
        rw [act_of_asked_unheld hheld hasked]
        exact absent
      | true =>
        refine (joins_act hheld hasked).1.absent attuned absent fun hsame => ?_
        rw [enrols, hheld, hasked, Bool.true_and, Option.any_some, hsame.1, hsame.2] at spared
        simp at spared

/-- A callback that is not registered stays so as long as nobody renews it. -/
theorem absent_run (attuned : w.records.Attuned)
    (absent : w.records.registry.has key callback = false) {actions : List Action}
    (spared : w.renews key callback actions = false) :
    (w.run actions).records.registry.has key callback = false := by
  induction actions generalizing w with
  | nil => exact absent
  | cons action rest ih =>
    rw [renews, Bool.or_eq_false_iff] at spared
    exact ih (attuned_act attuned action) (absent_act attuned absent spared.1) spared.2

/-! ## Removing what is not there -/

/-- To unsubscribe a callback that is not registered does nothing. -/
theorem unsubscribe_of_absent {s : Subscription} (staffed : w.records.pool.Staffed)
    (enlisted : w.records.Enlisted) (absent : w.records.registry.has s.key s.callback = false) :
    w.unsubscribe s = w := by
  obtain ⟨hrecords, hidle⟩ := Records.unregister_of_absent staffed enlisted absent
  simp only [unsubscribe, hrecords, hidle]
  rfl

/-- An action that unsubscribes a callback that is not registered does nothing. -/
theorem act_unsubscribe_of_absent {s : Subscription} (staffed : w.records.pool.Staffed)
    (enlisted : w.records.Enlisted) (absent : w.records.registry.has s.key s.callback = false) :
    w.act (.unsubscribe s) = w := by
  unfold act
  split
  · rfl
  · exact unsubscribe_of_absent staffed enlisted absent

/-! ## Removing -/

/-- A callback that was unsubscribed is not registered any more. -/
theorem absent_unsubscribe (w : Watch) (s : Subscription) :
    (w.unsubscribe s).records.registry.has s.key s.callback = false := by
  have hregistry : (w.unsubscribe s).records.registry =
      w.records.registry.remove s.key s.callback := by
    rw [unsubscribe, cancelPollers_eq]
    rfl
  rw [hregistry, Registry.has_remove]
  simp

/-- A listener that leaves when it is called is removed. -/
theorem absent_callListener {name : String} {signal : Signal}
    (leaves : .ends key callback ∈ w.leaving name signal) :
    (w.callListener name signal).watch.records.registry.has key callback = false := by
  cases signal with
  | round ended => cases leaves
  | found found =>
    have hlisteners : (w.log (.found name found)).listener? name = w.listener? name := rfl
    simp only [leaving] at leaves
    simp only [callListener, hlisteners]
    cases hname : w.listener? name with
    | none =>
      rw [hname] at leaves
      cases leaves
    | some l =>
      rw [hname] at leaves
      dsimp only at leaves ⊢
      split at leaves
      case isFalse => cases leaves
      case isTrue hleaves =>
        simp only [Bool.and_eq_true, Bool.not_eq_true', decide_eq_true_eq] at hleaves
        obtain ⟨⟨hstands, halive⟩, hreaction⟩ := hleaves
        obtain ⟨s, hs, he⟩ := List.mem_map.mp leaves
        obtain ⟨rfl, rfl⟩ : s.key = key ∧ s.callback = callback := by simpa [farewell] using he
        have halive : (w.log (.found name found)).isAlive = true := halive
        rw [if_neg (by rw [hstands]; exact Bool.false_ne_true), react, if_pos halive, hreaction,
          Option.mem_toList.mp hs]
        exact absent_unsubscribe _ s

/-- A callback that leaves while a target is told something is not registered afterwards. -/
theorem absent_callAll {target : Target} {signals : List Signal} (attuned : w.records.Attuned)
    (leaves : .ends key callback ∈ w.leavings target signals) :
    (w.callAll target signals).watch.records.registry.has key callback = false := by
  induction signals generalizing w with
  | nil => cases leaves
  | cons signal rest ih =>
    have hattuned := (tells_callTarget w target signal).attuned attuned
    unfold leavings at leaves
    unfold callAll
    dsimp only at leaves ⊢
    rcases List.mem_append.mp leaves with hfirst | hlater
    · have hgone : (w.callTarget target signal).watch.records.registry.has key callback =
          false := by
        cases target with
        | listener name => exact absent_callListener hfirst
        | feed id => cases hfirst
      split
      · exact (tells_callAll _ target rest).absent hattuned hgone
      · exact hgone
    · split at hlater
      case isTrue hreturned =>
        rw [if_pos hreturned]
        exact ih hattuned hlater
      case isFalse => cases hlater

/-- Those who leave when a delivery is made leave when its target is told what comes through. -/
theorem farewells_eq (w : Watch) (d : Delivery) :
    w.farewells d.callback d.signal =
      match w.callbacks[d.callback]? with
      | none => []
      | some c => (w.tell d).leavings c.target (c.through d.signal) := by
  unfold farewells
  cases hc : w.callbacks[d.callback]? with
  | none => rfl
  | some c =>
    obtain ⟨gate, target⟩ := c
    cases gate with
    | none =>
      rw [tell_of_open hc]
      rfl
    | some gate =>
      rw [tell_of_gate hc]
      rfl

/-- A callback that leaves over a delivery is not registered afterwards. -/
theorem absent_deliver {d : Delivery} (attuned : w.records.Attuned)
    (leaves : .ends key callback ∈ w.farewells d.callback d.signal) :
    (w.deliver d).watch.records.registry.has key callback = false := by
  rw [farewells_eq] at leaves
  rw [deliver_eq]
  cases hc : w.callbacks[d.callback]? with
  | none =>
    rw [hc] at leaves
    cases leaves
  | some c =>
    rw [hc] at leaves
    have hattuned : (w.tell d).records.Attuned := attuned
    exact absent_callAll hattuned leaves

/-- A callback that leaves in the turn of a delivery job is not registered afterwards. -/
theorem absent_deliverNext (attuned : w.records.Attuned)
    (leaves : .ends key callback ∈ w.farewellsOfNext) :
    w.deliverNext.watch.records.registry.has key callback = false := by
  unfold farewellsOfNext at leaves
  unfold deliverNext
  cases htaken : w.takeDelivery? with
  | none =>
    rw [htaken] at leaves
    cases leaves
  | some taken =>
    obtain ⟨d, v⟩ := taken
    rw [htaken] at leaves
    obtain ⟨rfl, -⟩ := takeDelivery?_cases htaken
    have hattuned : w.take.records.Attuned := (agrees_take w).attuned attuned
    have hleaves : .ends key callback ∈ w.take.farewells d.callback d.signal := by
      cases d <;> exact leaves
    have hgone := absent_deliver hattuned hleaves
    exact (Quiet.settleCall _).absent ((tells_deliver _ d).attuned hattuned) hgone

/-- A subscription ends none. -/
theorem not_ends_interestOf (s : Subscription) : .ends key callback ∉ interestOf s := by
  unfold interestOf
  split <;> simp

/-- Whatever it is by which a callback is removed, it is not registered afterwards. -/
theorem absent_of_interests (attuned : w.records.Attuned)
    (removed : .ends key callback ∈ w.interests action) :
    (w.act action).records.registry.has key callback = false := by
  unfold interests at removed
  unfold act
  split at removed
  case isTrue => cases removed
  case isFalse hcall =>
    rw [if_neg hcall]
    cases action with
    | unsubscribe s =>
      obtain ⟨rfl, rfl⟩ : key = s.key ∧ callback = s.callback := by
        simpa [meaning, farewell] using removed
      exact absent_unsubscribe w s
    | unsubscribeContent s =>
      obtain ⟨rfl, rfl⟩ : key = s.inner.key ∧ callback = s.inner.callback := by
        simpa [meaning, farewell] using removed
      exact absent_unsubscribe w s.inner
    | work job =>
      cases job with
      | delivery =>
        simp only [meaning] at removed
        split at removed
        case isTrue hjob =>
          simp only [perform, takeTurn, if_pos hjob]
          exact absent_deliverNext attuned removed
        case isFalse => cases removed
      | _ => cases removed
    | subscribe other name options =>
      simp only [meaning] at removed
      split at removed
      · cases removed
      · exact absurd removed (not_ends_interestOf _)
    | subscribeContent other name quiet options =>
      simp only [meaning] at removed
      split at removed
      · cases removed
      · exact absurd removed (not_ends_interestOf _)
    | resolve uri prefetch name => simp [meaning] at removed
    | _ => cases removed

/-! ## Callbacks that serve once -/

/-- Whether a callback serves one subscription only: it stands behind a gate, or tells a feed. -/
def servesOnce (w : Watch) (callback : CallbackId) : Bool :=
  (w.callbacks[callback]?).any fun c => c.gate.isSome || c.target.isFeed

/-- No effect takes a feed away. -/
theorem length_feeds_effect {actor : Option PollerId} {bearing : Bool}
    (effect : Effect actor bearing w v) : w.feeds.length ≤ v.feeds.length := by
  cases effect with
  | alike _ same => exact Nat.le_of_eq (congrArg List.length same.feeds.symm)
  | pursue id feed uri found wants running =>
    obtain ⟨_, _, _, hs⟩ := submitErrand_eq
      { w with feeds := w.feeds.modify id (·.pursue uri.edition) } .retrieval (.retrieval id) uri
    rw [hs]
    exact Nat.le_of_eq (List.length_modify _ _ _).symm
  | openFeed name quiet =>
    rw [List.length_append]
    exact Nat.le_add_right _ _
  | cancelFeed id => exact Nat.le_of_eq (List.length_modify _ _ _).symm
  | _ => exact Nat.le_refl _

theorem Effects.length_feeds {actor : Option PollerId} {bearing : Bool}
    (h : Effects actor bearing w v) : w.feeds.length ≤ v.feeds.length :=
  h.keep (P := fun u => w.feeds.length ≤ u.feeds.length)
    (fun _ _ effect hle => Nat.le_trans hle (length_feeds_effect effect)) (Nat.le_refl _)

/-- No action takes a feed away. -/
theorem length_feeds_act (numbered : w.Numbered) (action : Action) :
    w.feeds.length ≤ (w.act action).feeds.length := by
  cases houtside : action.isOutside with
  | true => exact Nat.le_of_eq (congrArg List.length (alike_act houtside).feeds.symm)
  | false => exact (effects_act numbered houtside).length_feeds

/-- Whoever subscribes to content is told through a feed that was not there before. -/
theorem feed_of_enrolment {enrolment : Enrolment} (held : w.held = true)
    (asked : w.enrolment? action = some enrolment) {id : FeedId}
    (target : enrolment.target = .feed id) :
    id = w.feeds.length ∧ id < (w.act action).feeds.length := by
  rw [act_of_held held]
  cases action with
  | subscribe key name options =>
    rw [enrolment?] at asked
    split at asked
    · cases asked
    · cases asked
      cases target
  | subscribeContent key name quiet options =>
    rw [enrolment?] at asked
    split at asked
    · cases asked
    case isFalse hp =>
      cases asked
      obtain rfl : w.feeds.length = id := Target.feed.inj target
      refine ⟨rfl, ?_⟩
      let opened : Watch := { w with feeds := w.feeds ++ [ContentFeed.fresh name quiet] }
      let content := { options with sparse := options.sparse || options.background }
      have heffects : Effects none false opened
          (opened.subscribeTarget key (.feed w.feeds.length) content).watch :=
        .subscribeTarget opened key _ content
      have hgrows := heffects.length_feeds
      simp only [perform, subscribeContent, hp]
      refine Nat.lt_of_lt_of_le ?_ hgrows
      rw [List.length_append]
      exact Nat.lt_succ_self _
  | _ => cases asked

/-- What does not change about a callback: whether it stands behind a gate, and its target. -/
def posts (w : Watch) : List (Bool × Target) := w.callbacks.map fun c => (c.gate.isSome, c.target)

/-- To take out a delivery adds no callback. -/
theorem posts_eased (w : Watch) (action : Action) : (w.eased action).posts = w.posts := by
  unfold eased
  split
  · rfl
  case h_2 h _ =>
    refine List.ext_getElem? fun i => ?_
    simp only [posts, Watch.tell, take, List.getElem?_map, List.getElem?_modify]
    cases w.callbacks[i]? with
    | none => rfl
    | some c =>
      simp only [Option.map_some]
      split
      · simp [Callback.tell]
      · rfl

/-- A target that is subscribed gets one more callback at most. -/
theorem posts_choice (w : Watch) (enrolment : Enrolment) :
    (w.choice enrolment).watch.callbacks = w.callbacks ∨
      (w.choice enrolment).watch.posts = w.posts ++ [(enrolment.sparse, enrolment.target)] := by
  rcases choice_cases w enrolment with ⟨-, hcallbacks⟩ | ⟨hcallbacks, -⟩
  · refine .inr ?_
    rw [posts, hcallbacks, List.map_append, ← posts]
    cases enrolment.sparse <;> rfl
  · exact .inl hcallbacks

/-- Callbacks are made for those who subscribe, and stay what they are. -/
theorem posts_act (w : Watch) (action : Action) :
    (w.act action).posts = w.posts ∨
      ∃ enrolment, w.held = true ∧ w.enrolment? action = some enrolment ∧
        (w.act action).posts = w.posts ++ [(enrolment.sparse, enrolment.target)] := by
  have hsame (callbacks : (w.act action).callbacks = (w.eased action).callbacks) :
      (w.act action).posts = w.posts := by
    rw [posts, callbacks, ← posts, posts_eased]
  cases hmade : w.handOut? action with
  | some h => exact .inl (hsame (tells_of_handOut hmade).callbacks)
  | none =>
    rw [eased_of_idle hmade] at hsame
    cases hasked : w.enrolment? action with
    | none =>
      rcases polls_of_unasked w hmade hasked with hquiet | ⟨ended, hcloses⟩
      · exact .inl (hsame hquiet.callbacks)
      · exact .inl (hsame hcloses.callbacks)
    | some enrolment =>
      cases hheld : w.held with
      | false => exact .inl (by rw [act_of_asked_unheld hheld hasked])
      | true =>
        have hcallbacks := (joins_act hheld hasked).1.callbacks
        rcases posts_choice w enrolment with hold | hnew
        · exact .inl (hsame (hcallbacks.trans hold))
        · exact .inr ⟨enrolment, rfl, rfl, by rw [posts, hcallbacks, ← posts, hnew]⟩

/-- All feeds that callbacks tell are there. -/
def Supplied (w : Watch) : Prop := ∀ post ∈ w.posts, ∀ id, post.2 = .feed id → id < w.feeds.length

/-- Every feed that has a callback is there, whatever happens. -/
theorem supplied_act (numbered : w.Numbered) (supplied : w.Supplied) (action : Action) :
    (w.act action).Supplied := by
  have hold : ∀ post ∈ w.posts, ∀ id, post.2 = .feed id → id < (w.act action).feeds.length :=
    fun post hpost id hid =>
      Nat.lt_of_lt_of_le (supplied post hpost id hid) (length_feeds_act numbered action)
  rcases posts_act w action with hposts | ⟨enrolment, hheld, hasked, hposts⟩
  · rw [Supplied, hposts]
    exact hold
  · intro post hpost id hid
    rw [hposts] at hpost
    rcases List.mem_append.mp hpost with hpost | hpost
    · exact hold post hpost id hid
    · rw [List.mem_singleton.mp hpost] at hid
      exact (feed_of_enrolment hheld hasked hid).2

theorem supplied_run (settings : Settings) (listeners : List Listener) (actions : List Action) :
    ((initial settings listeners).run actions).Supplied := by
  have hrun (w : Watch) (numbered : w.Numbered) (supplied : w.Supplied) (actions : List Action) :
      (w.run actions).Supplied := by
    induction actions generalizing w with
    | nil => exact supplied
    | cons action rest ih =>
      exact ih _ (numbered_act numbered action) (supplied_act numbered supplied action)
  exact hrun _ (numbered_run settings listeners []) (fun _ hpost => by cases hpost) actions

/-- A callback is there that no subscription to come can be served through: it stands behind a
gate, or tells a feed. -/
def IsTaken (w : Watch) (callback : CallbackId) : Prop :=
  ∃ post, w.posts[callback]? = some post ∧
    (post.1 = true ∨ ∃ id, post.2 = .feed id ∧ id < w.feeds.length)

/-- A callback that serves one subscription only is taken. -/
theorem isTaken_of_servesOnce (supplied : w.Supplied) (once : w.servesOnce callback = true) :
    w.IsTaken callback := by
  rw [servesOnce, Option.any_eq_true] at once
  obtain ⟨c, hc, honce⟩ := once
  have hpost : w.posts[callback]? = some (c.gate.isSome, c.target) := by
    rw [posts, List.getElem?_map, hc, Option.map_some]
  refine ⟨_, hpost, (Bool.or_eq_true_iff.mp honce).imp_right fun hfeed => ?_⟩
  cases htarget : c.target with
  | listener name =>
    rw [htarget] at hfeed
    cases hfeed
  | feed id => exact ⟨id, rfl, supplied _ (List.mem_of_getElem? hpost) id htarget⟩

/-- A callback that is taken stays so. -/
theorem IsTaken.act (taken : w.IsTaken callback) (numbered : w.Numbered) (action : Action) :
    (w.act action).IsTaken callback := by
  obtain ⟨post, hpost, honce⟩ := taken
  refine ⟨post, ?_, honce.imp_right fun ⟨id, hid, hlt⟩ =>
    ⟨id, hid, Nat.lt_of_lt_of_le hlt (length_feeds_act numbered action)⟩⟩
  rcases posts_act w action with hposts | ⟨enrolment, -, -, hposts⟩
  · rw [hposts, hpost]
  · rw [hposts, List.getElem?_append_left (List.getElem?_eq_some_iff.mp hpost).1, hpost]

/-- A subscription is served through a new callback, or through one that has no gate and tells a
listener. -/
theorem IsTaken.enrols (taken : w.IsTaken callback) (key : DocumentKey) (action : Action) :
    w.enrols key callback action = false := by
  obtain ⟨post, hpost, honce⟩ := taken
  rw [Bool.eq_false_iff]
  intro henrols
  rw [Watch.enrols, Bool.and_eq_true] at henrols
  obtain ⟨hheld, hany⟩ := henrols
  cases hasked : w.enrolment? action with
  | none =>
    rw [hasked] at hany
    cases hany
  | some enrolment =>
    rw [hasked] at hany
    obtain ⟨-, rfl⟩ : enrolment.key = key ∧ (w.choice enrolment).callback = callback := by
      simpa using hany
    rw [posts, List.getElem?_map] at hpost
    rcases choice_cases w enrolment with ⟨hnew, -⟩ | ⟨-, hopen⟩
    · rw [hnew, List.getElem?_eq_none (Nat.le_refl _)] at hpost
      cases hpost
    · rw [hopen] at hpost
      cases hpost
      rcases honce with hgate | ⟨id, hid, hlt⟩
      · cases hgate
      · exact Nat.ne_of_lt hlt (feed_of_enrolment hheld hasked hid).1

/-- Nobody renews a callback that is taken. -/
theorem IsTaken.renews (taken : w.IsTaken callback) (numbered : w.Numbered) (key : DocumentKey)
    (actions : List Action) : w.renews key callback actions = false := by
  induction actions generalizing w with
  | nil => rfl
  | cons action rest ih =>
    rw [Watch.renews, taken.enrols key action, Bool.false_or]
    exact ih (taken.act numbered action) (numbered_act numbered action)

/-! ## Every run -/

/-- In every run, once a callback was removed from a document, by the owner or because its
listener left while it was told something, to remove it again changes nothing whatever: no
subscriber, no poller, no count. That is so whatever happened in between, unless the callback was
subscribed to the document again; and a callback behind a gate, or one that tells a feed, never
is. -/
theorem unsubscribe_again (settings : Settings) (listeners : List Listener)
    (earlier : List Action) (removal : Action) (later : List Action) (s : Subscription)
    (removed : .ends s.key s.callback ∈
      ((initial settings listeners).run earlier).interests removal) :
    let w := (initial settings listeners).run earlier
    let v := w.act removal
    (v.renews s.key s.callback later = false →
      (v.run later).act (.unsubscribe s) = v.run later) ∧
    (w.servesOnce s.callback = true → v.renews s.key s.callback later = false) := by
  intro w v
  have hwhole : v.run later = (initial settings listeners).run (earlier ++ removal :: later) := by
    rw [run_append, run_cons]
  constructor
  · intro spared
    obtain ⟨before, hbefore, -⟩ := records_run (initial settings listeners) earlier
    have hattuned : w.records.Attuned := by
      change ((initial settings listeners).run earlier).records.Attuned
      rw [hbefore]
      exact Records.attuned_run (Records.attuned_initial _) before
    have hgone : v.records.registry.has s.key s.callback = false :=
      absent_of_interests hattuned removed
    obtain ⟨history, hhistory, -⟩ :=
      records_run (initial settings listeners) (earlier ++ removal :: later)
    obtain ⟨hstaffed, henlisted⟩ := Records.staffed_run
      (Records.staffed_initial settings.maxTemporary.toNat) (Records.enlisted_initial _) history
    have hrecords : (v.run later).records = _ := hwhole ▸ hhistory
    refine act_unsubscribe_of_absent ?_ ?_ (absent_run (attuned_act hattuned removal) hgone spared)
    · exact hrecords ▸ hstaffed
    · exact hrecords ▸ henlisted
  · intro once
    have htaken : w.IsTaken s.callback :=
      isTaken_of_servesOnce (supplied_run settings listeners earlier) once
    have hnumbered : w.Numbered := numbered_run settings listeners earlier
    exact (htaken.act hnumbered removal).renews (numbered_act hnumbered removal) s.key later

/-- What Ann got for a sparse subscription removes nothing the second time, though Ann has
subscribed sparsely again. -/
theorem unsubscribe_again_of_sparse_subscription :
    let notes : DocumentKey := ⟨.uniform 7, "notes"⟩
    let subscribes : Action := .subscribe notes "ann" { sparse := true }
    let w := (initial Settings.standard []).run [subscribes]
    let first : Subscription := ⟨notes, 0, true⟩
    let v := (w.act (.unsubscribe first)).run [subscribes, .noteSlot ⟨notes, 3⟩]
    v.records.registry.has notes 1 = true ∧ v.act (.unsubscribe first) = v := by
  intro notes subscribes w first v
  obtain ⟨hagain, honce⟩ := unsubscribe_again Settings.standard [] [subscribes]
    (.unsubscribe first) [subscribes, .noteSlot ⟨notes, 3⟩] first (by decide)
  exact ⟨by decide, hagain (honce (by decide))⟩

/-- Ann subscribes with background polling, and is removed, and subscribes again. What she got
for the first subscription then removes the second one, and cancels its poller. -/
theorem unsubscribe_of_renewed :
    let notes : DocumentKey := ⟨.uniform 7, "notes"⟩
    let subscribes : Action := .subscribe notes "ann" { background := true }
    let first : Subscription := ⟨notes, 0, true⟩
    let v := (initial Settings.standard []).run [subscribes, .unsubscribe first, subscribes]
    let u := v.act (.unsubscribe first)
    (v.records.registry.has notes 0 = true ∧ u.records.registry.has notes 0 = false) ∧
      (v.pollers.map Poller.cancelled = [true, false] ∧
        u.pollers.map Poller.cancelled = [true, true]) ∧
      (v.records.tally.unsubscriptions = 1 ∧ u.records.tally.unsubscriptions = 2) := by
  decide

end Watch

end EditionWatch
