import EditionWatch.Proofs.Roster

/-!
# The steps behind an action

Each function of a watch takes its pollers through a sequence of steps, and the changes of the
records on the way say who began or ceased to want a document polled. There is one lemma for
each function, put together from those of the functions it calls.
-/

namespace EditionWatch

/-- What a change of the records means for polling. -/
def Records.Change.interest? : Records.Change → Option Watch.Interest
  | .subscribe key callback _ polls => if polls then some (.begins key callback) else none
  | .unsubscribe key callback => some (.ends key callback)
  | .resolve _ key _ => some (.looksUp key)
  | _ => none

/-- A change that has nothing to do with pollers means nothing for polling. -/
theorem Records.Change.interest?_of_sparesPollers {change : Records.Change}
    (h : change.sparesPollers = true) :
    change.interest? = none := by
  cases change with
  | subscribe key callback requested polls =>
    cases polls with
    | false => rfl
    | true => cases h
  | unsubscribe key callback => cases h
  | resolve now key prefetch => cases h
  | _ => rfl

namespace Watch

variable {smooth : Bool} {u v w : Watch} {story later : List Interest}

/-- The pollers of one watch come to be those of another by steps that amount to a story. -/
def Leads (smooth : Bool) (w : Watch) (story : List Interest) (v : Watch) : Prop :=
  ∃ changes, Roster.Steps smooth w.roster changes v.roster ∧
    changes.filterMap Records.Change.interest? = story

namespace Leads

/-- A watch whose pollers are as they were. -/
theorem same (h : v.roster = w.roster) : Leads smooth w [] v :=
  ⟨[], by rw [h]; exact .refl w.roster, rfl⟩

theorem refl (w : Watch) : Leads smooth w [] w := same rfl

theorem trans (h : Leads smooth w story v) (h' : Leads smooth v later u) :
    Leads smooth w (story ++ later) u := by
  obtain ⟨changes, hs, hc⟩ := h
  obtain ⟨changes', hs', hc'⟩ := h'
  exact ⟨changes ++ changes', hs.trans hs', by rw [List.filterMap_append, hc, hc']⟩

/-- Steps before which nothing happens to the story. -/
theorem after (h : Leads smooth w [] v) (h' : Leads smooth v story u) :
    Leads smooth w story u := h.trans h'

/-- Steps after which nothing happens to the story. -/
theorem before (h : Leads smooth w story v) (h' : Leads smooth v [] u) :
    Leads smooth w story u := List.append_nil story ▸ h.trans h'

/-- A single step amounts to a story. -/
theorem of_step {changes : List Records.Change} {t : Roster}
    (h : Roster.Step smooth w.roster changes t) (ht : v.roster = t)
    (hc : changes.filterMap Records.Change.interest? = story) : Leads smooth w story v :=
  ⟨changes, ht ▸ h.steps, hc⟩

/-- The records change in a way that has nothing to do with pollers. -/
theorem record (w : Watch) (change : Records.Change) (spares : change.sparesPollers = true) :
    Leads smooth w [] { w with records := w.records.apply change } := by
  refine ⟨[change], (Roster.Step.record w.roster change spares).steps, ?_⟩
  rw [List.filterMap_cons, Records.Change.interest?_of_sparesPollers spares]
  rfl

end Leads

/-! ## Calls -/

/-- To submit the delivery job has nothing to do with pollers. -/
theorem leads_flush (w : Watch) : Leads smooth w [] w.flush := by
  unfold flush
  split
  case isTrue =>
    refine (Leads.record w .claimQueue rfl).after (Leads.same ?_)
    unfold submitJob
    split <;> rfl
  case isFalse => exact Leads.refl w

/-- A slot is noted without a change of what is polled. -/
theorem leads_noteSlot (w : Watch) (uri : EditionUri) : Leads smooth w [] (w.noteSlot uri) :=
  (Leads.record w (.noteSlot w.now uri) rfl).after (leads_flush _)

theorem leads_noteGood (w : Watch) (uri : EditionUri) : Leads smooth w [] (w.noteGood uri) :=
  (Leads.record w (.noteGood w.now uri) rfl).after (leads_flush _)

theorem leads_noteFetched (w : Watch) (uri : EditionUri) (metadata : Bool) :
    Leads smooth w [] (w.noteFetched uri metadata) := by
  cases metadata with
  | true => exact leads_noteSlot w uri
  | false => exact leads_noteGood w uri

/-- Cancelling pollers changes nothing but the pollers. -/
theorem cancelPollers_eq (w : Watch) (ids : List PollerId) :
    w.cancelPollers ids = { w with pollers := Roster.cancelAll ids w.pollers } := by
  induction ids generalizing w with
  | nil => rfl
  | cons id rest ih => exact ih (w.cancelPoller id)

/-- Someone who is unsubscribed ceases to want the document. -/
theorem leads_unsubscribe (w : Watch) (s : Subscription) :
    Leads smooth w [farewell s] (w.unsubscribe s) := by
  have h : (w.unsubscribe s).roster =
      (w.roster.change (.unsubscribe s.key s.callback)).cancel
        (w.records.idleWithout s.key s.callback).toList := by
    rw [unsubscribe, cancelPollers_eq]
    rfl
  exact Leads.of_step (.leaves w.roster s.key s.callback) h rfl

theorem leads_unsubscribeContent (w : Watch) (s : ContentSubscription) :
    Leads smooth w [farewell s.inner] (w.unsubscribeContent s) :=
  (leads_unsubscribe w s.inner).before (Leads.same rfl)

/-- A command that is sent to a poller changes nothing of what is polled. -/
theorem leads_send (w : Watch) (id : PollerId) (command : Poller.Command) :
    Leads smooth w [] (w.modifyPoller id (·.send command)) :=
  Leads.of_step (.send w.roster id command) rfl rfl

/-- A poller that was submitted is fresh. -/
theorem fresh_submitPoller (w : Watch) (poller : Poller) (hc : poller.cancelled = false)
    (evicted : List PollerId) :
    ∃ p, Roster.Fresh (w.takes .poller) poller.key evicted p ∧
      (w.submitPoller poller evicted).roster =
        w.roster.add p := by
  unfold submitPoller
  dsimp only
  split
  case isTrue => exact ⟨{ poller with stage := .submitted evicted }, ⟨rfl, hc, .inl rfl⟩, rfl⟩
  case isFalse ht =>
    have ht : w.takes .poller = false := Bool.eq_false_iff.mpr ht
    exact ⟨{ poller with stage := .ended }, ⟨rfl, hc, .inr ⟨ht, rfl⟩⟩, rfl⟩

/-- To look for a delivery job first and then to submit a poller is the same for pollers as the
other way round. -/
theorem leads_start {w : Watch} {key : DocumentKey} {callback : CallbackId}
    {requested : Edition} (alive : w.isAlive = true)
    (hp : w.records.pool.poller? key = none) (hc : w.records.cache.poller? key = none) :
    Leads smooth w [.begins key callback]
      ({ w with
          records := w.records.apply (.subscribe key callback requested true) }.flush.submitPoller
        (.create w.settings key requested .forever) []) := by
  let v : Watch := { w with records := w.records.apply (.subscribe key callback requested true) }
  obtain ⟨p, hfresh, hroster⟩ :=
    fresh_submitPoller v.flush (.create w.settings key requested .forever) rfl []
  have hflush : v.flush.roster = v.roster ∨
      v.flush.roster = v.roster.change .claimQueue := by
    unfold flush submitJob
    split
    · split <;> exact .inr rfl
    · exact .inl rfl
  have haccepts : v.flush.roster.accepts = w.roster.accepts := by
    rcases hflush with hr | hr <;> rw [hr] <;> rfl
  have habsent : ∀ id, ¬w.roster.Stores key id := Roster.Sound.not_stores_iff.mpr ⟨hp, hc⟩
  change Roster.Fresh v.flush.roster.accepts _ _ p at hfresh
  rw [haccepts] at hfresh
  have hstart : Leads smooth w [.begins key callback] { v with pollers := w.pollers ++ [p] } :=
    Leads.of_step (.starts w.roster key callback requested p alive habsent hfresh) rfl rfl
  rcases hflush with hr | hr
  · refine hstart.before (Leads.same ?_)
    rw [hroster, hr]
    rfl
  · refine hstart.before ((Leads.record _ .claimQueue rfl).before (Leads.same ?_))
    rw [hroster, hr]
    rfl

/-- What a background subscription does: the records change at once, and its poller is there
already, told to go on, or made. -/
theorem leads_cover (w : Watch) (key : DocumentKey) (callback : CallbackId)
    (requested : Edition) (alive : w.isAlive = true) :
    Leads smooth w [.begins key callback]
      ({ w with records := w.records.register key callback requested }.cover key callback
        requested) := by
  let change : Records.Change := .subscribe key callback requested true
  let v : Watch := { w with records := w.records.apply change }
  have hk := Records.keepsPollers_register w.records key callback requested
  have hcoverage : (w.records.register key callback requested).coverage key =
      w.records.coverage key := by
    rw [Records.coverage, Records.coverage, hk.pool, hk.cache, hk.made]
  have hjoin (hpresent : ∃ id, w.roster.Stores key id) :
      Leads smooth w [.begins key callback] v :=
    Leads.of_step (.joins w.roster key callback requested hpresent) rfl rfl
  unfold cover
  dsimp only
  rw [hcoverage]
  cases hp : w.records.pool.poller? key with
  | some id =>
    have hc : w.records.coverage key = .joined := by rw [Records.coverage, hp]
    rw [hc]
    exact (hjoin ⟨id, .inl hp⟩).before (leads_flush v)
  | none =>
    cases hcache : w.records.cache.poller? key with
    | some id =>
      have hc : w.records.coverage key = .promoted id := by
        rw [Records.coverage, hp, hcache]
      rw [hc]
      exact ((hjoin ⟨id, .inr hcache⟩).before (leads_send v id .pollForever)).before
        (leads_flush _)
    | none =>
      have hc : w.records.coverage key = .started w.records.pollersMade := by
        rw [Records.coverage, hp, hcache]
      rw [hc]
      exact leads_start alive hp hcache

/-- Someone who subscribes with background polling begins to want the document. -/
theorem leads_attach (w : Watch) (key : DocumentKey) (callback : CallbackId)
    (options : SubscribeOptions) (alive : w.isAlive = true) :
    Leads smooth w (interestOf ⟨key, callback, options.polls⟩)
      (w.attach key callback options) := by
  unfold attach interestOf
  dsimp only
  split
  case isTrue => exact leads_cover w key callback options.requested alive
  case isFalse =>
    exact (Leads.record w (.subscribe key callback options.requested false) rfl).after
      (leads_flush _)

/-- To choose a callback has nothing to do with pollers. -/
theorem roster_callbackFor (w : Watch) (target : Target) (sparse : Bool) :
    (w.callbackFor target sparse).watch.roster = w.roster := by
  unfold callbackFor
  split
  · rfl
  · split <;> rfl

/-- A target that is subscribed with background polling begins to want the document. -/
theorem leads_subscribeTarget (w : Watch) (key : DocumentKey) (target : Target)
    (options : SubscribeOptions) (alive : w.isAlive = true) :
    Leads smooth w (interestOf (w.subscribeTarget key target options).subscription)
      (w.subscribeTarget key target options).watch :=
  (Leads.same (roster_callbackFor w target options.sparse)).after
    (leads_attach _ _ _ _
      ((congrArg Roster.alive (roster_callbackFor w target options.sparse)).trans alive))

/-- To add a listener has nothing to do with pollers. -/
theorem roster_addListener (w : Watch) (name : String) :
    (w.addListener name).roster = w.roster := by
  unfold addListener
  split <;> rfl

/-- A listener that is subscribed begins to want the document if it asks for background polling. -/
theorem leads_subscribe (w : Watch) (key : DocumentKey) (name : String)
    (options : SubscribeOptions) (alive : w.isAlive = true) :
    Leads smooth w (w.meaning (.subscribe key name options))
      (w.perform (.subscribe key name options)) := by
  simp only [meaning, perform]
  cases hs : w.subscribe key name options with
  | error _ => exact Leads.refl w
  | ok result =>
    rw [subscribe] at hs
    split at hs
    · cases hs
    cases hs
    have hl : (w.addListener name).isAlive = true :=
      (congrArg Roster.alive (roster_addListener w name)).trans alive
    exact ((Leads.same (roster_addListener w name)).after
      (leads_subscribeTarget _ _ _ _ hl)).before (Leads.same rfl)

theorem leads_subscribeContent (w : Watch) (key : DocumentKey) (name : String) (quiet : Bool)
    (options : SubscribeOptions) (alive : w.isAlive = true) :
    Leads smooth w (w.meaning (.subscribeContent key name quiet options))
      (w.perform (.subscribeContent key name quiet options)) := by
  simp only [meaning, perform]
  cases hs : w.subscribeContent key name quiet options with
  | error _ => exact Leads.refl w
  | ok result =>
    rw [subscribeContent] at hs
    split at hs
    · cases hs
    cases hs
    let v : Watch := { w with feeds := w.feeds ++ [ContentFeed.fresh name quiet] }
    have hv : Leads smooth w [] v := Leads.same rfl
    exact hv.after (leads_subscribeTarget v _ _ _ alive)

/-- A lookup is served by a poller that is there, or by a new temporary one. -/
theorem leads_resolve (w : Watch) (uri : EditionUri) (prefetch : Bool)
    (alive : w.isAlive = true) :
    Leads smooth w [.looksUp uri.key] (w.resolve uri prefetch).watch := by
  let v : Watch := { w with records := w.records.apply (.resolve w.now uri.key prefetch) }
  unfold resolve
  dsimp only
  cases hl : w.records.lookup uri.key with
  | hinted id =>
    have hv : Leads smooth w [.looksUp uri.key] v :=
      Leads.of_step (.hints w.roster w.now uri.key prefetch ⟨id, hl⟩) rfl rfl
    exact hv.before (leads_send v id (.hint uri.edition))
  | started id evicted =>
    have hnone : w.records.pool.poller? uri.key = none ∧
        w.records.cache.poller? uri.key = none ∧
        evicted = (w.records.cache.insert uri.key w.records.pollersMade).evicted.map Prod.snd := by
      unfold Records.lookup at hl
      cases hp : w.records.pool.poller? uri.key with
      | some _ => rw [hp] at hl; cases hl
      | none =>
        cases hc : w.records.cache.poller? uri.key with
        | some _ => rw [hp, hc] at hl; cases hl
        | none =>
          rw [hp, hc] at hl
          injection hl with _ he
          exact ⟨rfl, rfl, he.symm⟩
    obtain ⟨hp, hc, rfl⟩ := hnone
    have habsent : ∀ id, ¬w.roster.Stores uri.key id :=
      Roster.Sound.not_stores_iff.mpr ⟨hp, hc⟩
    obtain ⟨p, hfresh, hroster⟩ :=
      fresh_submitPoller v (.create w.settings uri.key uri.edition .once) rfl
        ((w.records.cache.insert uri.key w.records.pollersMade).evicted.map Prod.snd).toList
    exact Leads.of_step (.looksUp w.roster w.now uri.key prefetch p alive habsent hfresh)
      hroster rfl

/-- Nobody ceases to want a document because of a shutdown. -/
theorem leads_shutdown (w : Watch) : Leads smooth w [] w.shutdown := by
  have h : w.shutdown.roster =
      { (w.roster.change .removePollers).cancel w.records.pollers with stopped := true } := by
    rw [shutdown, cancelPollers_eq]
    rfl
  exact Leads.of_step (.shutsDown w.roster) h rfl

/-- To look whether someone still holds the watch, after holds may have gone. -/
theorem leads_reap (w v : Watch) (records : v.records = w.records)
    (pollers : v.pollers = w.pollers) (stopped : v.stopped = w.stopped)
    (refused : v.refused = w.refused) (alive : v.isAlive = true → w.isAlive = true) :
    Leads smooth w [] v.reap := by
  have htakes : v.takes .poller = w.takes .poller := by rw [takes, takes, refused]
  unfold reap
  split
  case isTrue ha =>
    refine Leads.same ?_
    rw [roster, roster, records, pollers, stopped, ha, alive ha, htakes]
  case isFalse ha =>
    have ha : v.isAlive = false := Bool.eq_false_iff.mpr ha
    refine Leads.of_step (.stops w.roster) ?_ rfl
    change Roster.mk v.records.forgetPollers v.pollers true v.isAlive (v.takes .poller) =
      Roster.mk w.records.forgetPollers w.pollers true false (w.takes .poller)
    rw [records, pollers, ha, htakes]

/-- To give up the watch stops everything unless an errand holds it. -/
theorem leads_release (w : Watch) : Leads smooth w [] w.release :=
  leads_reap w { w with held := false } rfl rfl rfl rfl fun h => by
    rw [isAlive, Bool.false_or] at h
    rw [isAlive, h, Bool.or_true]

/-- An errand that does not hold the watch, or is sent by someone who does, changes nothing
about who holds it. -/
theorem roster_addErrand (w : Watch) (purpose : Purpose) (uri : EditionUri)
    (h : w.isAlive = true ∨ purpose.holds = false) :
    (w.addErrand purpose uri).roster = w.roster := by
  have ha : (w.addErrand purpose uri).isAlive = w.isAlive := by
    have he : (w.addErrand purpose uri).isAlive = (w.isAlive || purpose.holds) := by
      simp [isAlive, addErrand, Bool.or_assoc]
    rw [he]
    rcases h with h | h <;> simp [h]
  rw [roster, roster, ha]
  rfl

theorem leads_submitErrand (w : Watch) (kind : JobKind) (purpose : Purpose) (uri : EditionUri)
    (h : w.isAlive = true ∨ purpose.holds = false) :
    Leads smooth w [] (w.submitErrand kind purpose uri) := by
  unfold submitErrand
  split
  · exact Leads.same (roster_addErrand w purpose uri h)
  · exact Leads.refl w

/-- A hint becomes an errand at most, which changes nothing of what is polled. -/
theorem leads_hint (w : Watch) (uri : EditionUri) (h : w.isAlive = true) :
    Leads smooth w [] (w.hint uri) := by
  unfold hint
  split
  · split
    · exact Leads.refl w
    · exact leads_submitErrand w _ _ _ (.inl h)
  · exact leads_submitErrand w _ _ _ (.inl h)

/-! ## Handing out deliveries -/

/-- Only a listener that leaves in reply ceases to want its document. -/
theorem leads_react (w : Watch) (l : Listener) (found : Found) :
    Leads smooth w
      (if w.isAlive && l.reaction = some .leave then l.subscription.toList.map farewell else [])
      (w.react l found) := by
  unfold react
  cases ha : w.isAlive with
  | false => exact Leads.refl w
  | true =>
    cases hr : l.reaction with
    | none => exact Leads.refl w
    | some reaction =>
      cases reaction with
      | vouch => exact leads_noteGood w found.uri
      | announceNext limit =>
        change Leads smooth w [] (if found.edition < limit then _ else w)
        split
        · exact leads_noteSlot w _
        · exact Leads.refl w
      | leave =>
        cases hs : l.subscription with
        | none => exact Leads.refl w
        | some s => exact leads_unsubscribe w s
      | hint uri => exact leads_hint w uri ha
      | stop => exact leads_shutdown w

/-- A listener that is told something ceases to want its document if it leaves. -/
theorem leads_callListener (w : Watch) (name : String) (signal : Signal) :
    Leads smooth w (w.leaving name signal) (w.callListener name signal).watch := by
  cases signal with
  | round key => exact Leads.same rfl
  | found found =>
    have hlog : Leads smooth w [] (w.log (.found name found)) := Leads.same rfl
    have hl : (w.log (.found name found)).listener? name = w.listener? name := rfl
    simp only [callListener, leaving, hl]
    cases w.listener? name with
    | none => exact hlog
    | some l =>
      dsimp only
      cases hf : l.failsAt.contains found.edition with
      | true => exact hlog
      | false =>
        simp only [Bool.false_eq_true, if_false, Bool.not_false, Bool.true_and]
        exact hlog.after (leads_react (w.log (.found name found)) l found)

/-- A feed goes for content without a change of what is polled. -/
theorem leads_callFeed (w : Watch) (id : FeedId) (signal : Signal) :
    Leads smooth w [] (w.callFeed id signal) := by
  cases signal with
  | round key => exact Leads.refl w
  | found found =>
    unfold callFeed
    cases w.feeds[id]? with
    | none => exact Leads.refl w
    | some feed =>
      dsimp only
      split
      · let v : Watch := { w with feeds := w.feeds.modify id (·.pursue found.edition) }
        have hv : Leads smooth w [] v := Leads.same rfl
        exact hv.after (leads_submitErrand v _ _ _ (.inr rfl))
      · exact Leads.refl w

/-- What follows from telling a target one thing. -/
theorem leads_callTarget (w : Watch) (target : Target) (signal : Signal) :
    Leads smooth w
      (match target with
        | .listener name => w.leaving name signal
        | .feed _ => [])
      (w.callTarget target signal).watch := by
  cases target with
  | listener name => exact leads_callListener w name signal
  | feed id => exact leads_callFeed w id signal

/-- Those who leave while a target is told one thing after the other cease to want their
documents. -/
theorem leads_callAll (w : Watch) (target : Target) (signals : List Signal) :
    Leads smooth w (w.leavings target signals) (w.callAll target signals).watch := by
  induction signals generalizing w with
  | nil => exact Leads.refl w
  | cons signal rest ih =>
    have hfirst : Leads smooth w _ _ := leads_callTarget w target signal
    unfold leavings callAll
    dsimp only
    cases hr : (w.callTarget target signal).returned with
    | true => exact hfirst.trans (ih (w.callTarget target signal).watch)
    | false => exact hfirst.trans (Leads.refl _)

/-- Those who leave while a callback is told something cease to want their documents. -/
theorem leads_callBack (w : Watch) (id : CallbackId) (signal : Signal) :
    Leads smooth w (w.farewells id signal) (w.callBack id signal).watch := by
  unfold farewells callBack
  cases w.callbacks[id]? with
  | none => exact Leads.refl w
  | some callback =>
    obtain ⟨gate, target⟩ := callback
    cases gate with
    | none =>
      have hone : Leads smooth w _ _ := leads_callAll w target [signal]
      have hcall : (w.callAll target [signal]).watch = (w.callTarget target signal).watch := by
        unfold callAll
        dsimp only
        split <;> rfl
      rw [hcall] at hone
      exact hone
    | some gate =>
      let v : Watch :=
        { w with
          callbacks :=
            w.callbacks.modify id fun c => { c with gate := some (gate.feed signal).gate } }
      have hv : Leads smooth w [] v := Leads.same rfl
      exact hv.after (leads_callAll v target (gate.feed signal).through)

/-- To count a call or report its failure has nothing to do with pollers. -/
theorem leads_settleCall {call : Call} (h : Leads smooth w story call.watch) :
    Leads smooth w story (settleCall call) := by
  unfold settleCall
  split
  · exact h.before (Leads.record call.watch .countDelivered rfl)
  · exact h.before (Leads.same rfl)

/-- Taking out a delivery has nothing to do with pollers. -/
theorem leads_takeDelivery {delivery : Delivery} (h : w.takeDelivery? = some (delivery, v)) :
    Leads smooth w [] v := by
  obtain ⟨taken, ht, he⟩ := Option.map_eq_some_iff.mp h
  have hv : v = { w with records := w.records.apply .takeDelivery } := by
    cases he
    simp only [Records.apply, ht]
    rfl
  rw [hv]
  exact Leads.record w .takeDelivery rfl

/-- Those who leave over a delivery cease to want their documents. -/
theorem leads_deliverNext (w : Watch) :
    Leads smooth w w.farewellsOfNext w.deliverNext.watch := by
  unfold farewellsOfNext deliverNext
  cases h : w.takeDelivery? with
  | none => exact (Leads.record w .releaseQueue rfl).before (Leads.same rfl)
  | some taken =>
    obtain ⟨delivery, v⟩ := taken
    have hv : Leads smooth w [] v := leads_takeDelivery h
    cases delivery with
    | found callback found => exact hv.after (leads_settleCall (leads_callBack v callback _))
    | round callback key => exact hv.after (leads_settleCall (leads_callBack v callback _))

/-! ## Polling -/

/-- To modify an entry that is known is to replace it. -/
theorem modify_eq_set {α : Type} {l : List α} {i : Nat} {a : α} (h : l[i]? = some a)
    (f : α → α) : l.modify i f = l.set i (f a) := by
  refine List.ext_getElem? fun j => ?_
  rw [List.getElem?_modify]
  by_cases hj : i = j
  · subst hj
    rw [List.getElem?_set_self (List.getElem?_eq_some_iff.mp h).1, h]
    simp
  · rw [List.getElem?_set_ne hj]
    simp [hj]

/-- An entry that is modified is found in its place. -/
theorem getElem?_modify_self {α : Type} {l : List α} {i : Nat} {a : α} (h : l[i]? = some a)
    (f : α → α) : (l.modify i f)[i]? = some (f a) := by
  rw [List.getElem?_modify, h]
  simp

/-- To submit the delivery job changes no poller. -/
@[simp] theorem pollers_flush (w : Watch) : w.flush.pollers = w.pollers := by
  unfold flush submitJob
  split
  · split <;> rfl
  · rfl

@[simp] theorem settings_flush (w : Watch) : w.flush.settings = w.settings := by
  unfold flush submitJob
  split
  · split <;> rfl
  · rfl

/-- No poller changes when a slot is noted. -/
@[simp] theorem pollers_noteSlot (w : Watch) (uri : EditionUri) :
    (w.noteSlot uri).pollers = w.pollers := pollers_flush _

@[simp] theorem pollers_noteGood (w : Watch) (uri : EditionUri) :
    (w.noteGood uri).pollers = w.pollers := pollers_flush _

/-- To submit the delivery job changes no temporary poller. -/
theorem cache_flush (w : Watch) : w.flush.records.cache = w.records.cache := by
  unfold flush submitJob
  split
  · split <;> rfl
  · rfl

/-- To submit a poller changes no record. -/
theorem records_submitPoller (w : Watch) (poller : Poller) (evicted : List PollerId) :
    (w.submitPoller poller evicted).records = w.records := by
  unfold submitPoller
  dsimp only
  split <;> rfl

/-- No poller changes when a watch is given up for good: each finds out in its next turn. -/
theorem pollers_reap (w : Watch) : w.reap.pollers = w.pollers := by
  unfold reap
  split <;> rfl

section Underway

variable {id : PollerId} {p : Poller}

/-- A poller that has begun goes on with its work. -/
theorem leads_turn (found : w.pollers[id]? = some p) (underway : p.isUnderway = true)
    {change : Poller → Poller} (after : (change p).isUnderway = true)
    (key : (change p).key = p.key) (cancelled : (change p).cancelled = p.cancelled) :
    Leads smooth w [] (w.modifyPoller id change) := by
  refine Leads.of_step (.turn w.roster id p (change p) found underway after key cancelled) ?_ rfl
  change Roster.mk _ (w.pollers.modify id change) _ _ _ = _
  rw [modify_eq_set found]
  rfl

/-- A poller that is under way goes on in its round. -/
theorem leads_setRound (found : w.pollers[id]? = some p) (underway : p.isUnderway = true)
    (round : Round) : Leads smooth w [] (w.setRound id round).watch :=
  leads_turn found underway rfl rfl rfl

/-- A poller that finds the watch gone is over. -/
theorem leads_abandon (found : w.pollers[id]? = some p) (underway : p.isUnderway = true)
    (cause : smooth = false ∨ w.isAlive = false) :
    Leads smooth w [] (w.abandon id).watch := by
  refine Leads.of_step (.collapses w.roster id p found underway cause) ?_ rfl
  change Roster.mk _ (w.pollers.modify id _) _ _ _ = _
  rw [modify_eq_set found]
  rfl

/-- A poller to which nobody can send a command is neither stored nor listed. -/
theorem unreferred_of_not_isReferred (h : w.isReferred id = false) : w.roster.Unreferred id := by
  rw [isReferred, Bool.or_eq_false_iff, Bool.or_eq_false_iff] at h
  obtain ⟨⟨hstored, -⟩, he⟩ := h
  have hout : ¬(id ∈ w.records.pollers) := of_decide_eq_false hstored
  rw [Records.pollers, List.mem_append, PollerPool.mem_pollers_iff,
    LookupCache.mem_pollers_iff, not_or, not_exists, not_exists] at hout
  obtain ⟨hp, hc⟩ := hout
  refine ⟨fun key hst => hst.elim (hp key) (hc key), fun q hq hin => ?_⟩
  have hq' := List.any_eq_false.mp he q hq
  exact hq' (decide_eq_true hin)

/-- A poller may end if it is free to, and is honest about why. -/
theorem leads_endPoller (found : w.pollers[id]? = some p) (underway : p.isUnderway = true)
    (free : p.cancelled = true ∨ w.stopped = true ∨ w.roster.Unreferred id) {cancelled : Bool}
    (honest : cancelled = true ∨ w.roster.Unreferred id) :
    Leads smooth w [] (w.endPoller id p.key cancelled).watch := by
  unfold endPoller
  dsimp only
  split
  case isTrue =>
    refine Leads.of_step (.quits w.roster id p cancelled found underway free honest) ?_ rfl
    change Roster.mk _ ((w.pollers.modify id _).modify id Poller.cancel) _ _ _ = _
    rw [modify_eq_set found, modify_eq_set (List.getElem?_set_self
      (List.getElem?_eq_some_iff.mp found).1), List.set_set]
    rfl
  case isFalse hn =>
    have hout : w.isAlive = false ∨ w.records.indexes p.key id = false :=
      Bool.and_eq_false_iff.mp (Bool.eq_false_iff.mpr hn)
    refine Leads.of_step (.ends w.roster id p found underway hout) ?_ rfl
    change Roster.mk _ (w.pollers.modify id _) _ _ _ = _
    rw [modify_eq_set found]
    rfl

/-- A verdict that is counted changes nothing of what is polled. -/
theorem leads_countVerdict (w : Watch) (verdict : Verdict) :
    Leads smooth w [] { w with records := w.records.countVerdict verdict } :=
  Leads.record w (.countVerdict verdict) rfl

/-- A poller that is under way takes a reply. -/
theorem leads_takeReply (found : w.pollers[id]? = some p) (underway : p.isUnderway = true)
    (key : DocumentKey) (round : Round) (reply : Reply) :
    Leads smooth w [] (w.takeReply id key round reply).watch := by
  let v : Watch := { w with records := w.records.countVerdict reply.verdict }
  have hv : Leads smooth w [] v := leads_countVerdict w reply.verdict
  have hfound : v.pollers[id]? = some p := found
  have hnoted (e : Edition) : (v.noteSlot ⟨key, e⟩).pollers[id]? = some p := by
    rw [pollers_noteSlot]
    exact found
  unfold takeReply
  cases round with
  | askingHint e hints =>
    dsimp only
    split
    · split
      · exact (hv.after (leads_noteSlot v _)).after (leads_setRound (hnoted e) underway _)
      case isFalse ha =>
        exact hv.after (leads_abandon hfound underway (.inr (Bool.eq_false_iff.mpr ha)))
    · exact hv.after (leads_setRound hfound underway _)
  | asking raised e misses probes =>
    dsimp only
    split
    · split
      · exact (hv.after (leads_noteSlot v _)).after (leads_setRound (hnoted e) underway _)
      case isFalse ha =>
        exact hv.after (leads_abandon hfound underway (.inr (Bool.eq_false_iff.mpr ha)))
    · exact hv.after (leads_setRound hfound underway _)
  | fetching slot =>
    dsimp only
    split
    · refine (leads_noteGood _ _).after (leads_setRound (p := p) ?_ underway _)
      rw [pollers_noteGood]
      exact found
    · exact leads_setRound found underway _
  | _ => exact leads_setRound found underway _

theorem leads_issue (w : Watch) (request : Request) :
    Leads smooth w [] (w.issue request).watch := by
  have hcount (v : Watch) : Leads smooth v [] { v with records := v.records.countProbe } :=
    Leads.record v .countProbe rfl
  have hlast (v : Watch) :
      Leads smooth v [] (if v.network.releases request then v.release else v) := by
    split
    · exact leads_release v
    · exact Leads.refl v
  have hlog : Leads smooth w [] (w.log (.fetched w.now request)) := Leads.same rfl
  unfold issue
  cases request.kind with
  | block => exact (hlog.after (hcount _)).after (hlast _)
  | content => exact hlog.after (hlast _)

/-- To issue a fetch changes no poller. -/
@[simp] theorem pollers_issue (w : Watch) (request : Request) :
    (w.issue request).watch.pollers = w.pollers := by
  have hlast (v : Watch) :
      (if v.network.releases request then v.release else v).pollers = v.pollers := by
    split
    · exact pollers_reap _
    · rfl
  unfold issue
  cases request.kind with
  | block => exact hlast _
  | content => exact hlast _

/-- A poller that is under way sends its request. -/
theorem leads_sendRequest (found : w.pollers[id]? = some p) (underway : p.isUnderway = true)
    (key : DocumentKey) (round : Round) (request : Request) :
    Leads smooth w [] (w.sendRequest id key round request).watch := by
  have hfound : (w.issue request).watch.pollers[id]? = some p := by
    rw [pollers_issue]
    exact found
  unfold sendRequest
  dsimp only
  split
  · exact (leads_issue w request).after (leads_takeReply hfound underway key round _)
  · exact (leads_issue w request).after (leads_turn hfound underway rfl rfl rfl)

/-- A poller that closes its round rests, or ends if it is free to or cannot say how long to
rest. -/
theorem leads_closeRound (found : w.pollers[id]? = some p) (underway : p.isUnderway = true)
    (raised : Bool)
    (short : smooth = true → p.mode = .forever →
      (Backoff.pause? w.settings p.backoff raised).isSome = true) :
    Leads smooth w [] (w.closeRound id p raised).watch := by
  let counted : Watch := { w with records := w.records.countRound }
  let closed : Watch := counted.modifyPoller id fun p => { p with rounds := p.rounds + 1 }
  let told : Watch := { closed with records := closed.records.finishRound p.key }
  have hcounted : Leads smooth w [] counted := Leads.record w .countRound rfl
  have hfound : counted.pollers[id]? = some p := found
  have hclosed : Leads smooth counted [] closed := leads_turn hfound underway underway rfl rfl
  have hq : closed.pollers[id]? = some { p with rounds := p.rounds + 1 } :=
    getElem?_modify_self found _
  have htold : Leads smooth closed [] told.flush :=
    (Leads.record closed (.finishRound p.key) rfl).after (leads_flush told)
  have hf : told.flush.pollers[id]? = some { p with rounds := p.rounds + 1 } := by
    rw [pollers_flush]
    exact hq
  have hstart := hcounted.after hclosed
  unfold closeRound
  change Leads smooth w [] (if closed.isAlive then _ else closed.abandon id).watch
  split
  case isFalse ha =>
    exact hstart.after (leads_abandon hq underway (.inr (Bool.eq_false_iff.mpr ha)))
  case isTrue =>
    refine (hstart.after htold).after ?_
    cases hm : p.mode with
    | once => exact leads_turn hf underway rfl rfl rfl
    | forever =>
      dsimp only
      rw [settings_flush]
      cases hp : Backoff.pause? w.settings p.backoff raised with
      | none =>
        change Backoff.pause? told.settings p.backoff raised = none at hp
        rw [hp]
        refine leads_abandon hf underway (.inl (Bool.eq_false_iff.mpr fun hs => ?_))
        have hsome := short hs hm
        change (Backoff.pause? told.settings p.backoff raised).isSome = true at hsome
        rw [hp] at hsome
        cases hsome
      | some pause =>
        change Backoff.pause? told.settings p.backoff raised = some pause at hp
        rw [hp]
        let paused : Watch := told.flush.modifyPoller id fun p => { p with backoff := pause.next }
        have hpaused : Leads smooth told.flush [] paused :=
          leads_turn hf underway underway rfl rfl
        let q : Poller := { p with rounds := p.rounds + 1, backoff := pause.next }
        have hlast : paused.pollers[id]? = some q := getElem?_modify_self hf _
        have hq : q.isUnderway = true := underway
        have hrest (wake : Option Instant) : Leads smooth paused [] (paused.rest id p wake).watch :=
          leads_turn hlast hq rfl rfl rfl
        exact hpaused.after (hrest _)

/-- A poller that is under way takes a step in its round. -/
theorem leads_stepRound (found : w.pollers[id]? = some p) (underway : p.isUnderway = true)
    (round : Round)
    (short : ∀ raised, round = .over raised → smooth = true → p.mode = .forever →
      (Backoff.pause? w.settings p.backoff raised).isSome = true) :
    Leads smooth w [] (w.stepRound id p round).watch := by
  have hset (round : Round) : Leads smooth w [] (w.setRound id round).watch :=
    leads_setRound found underway round
  have hgone (ha : ¬w.isAlive = true) : Leads smooth w [] (w.abandon id).watch :=
    leads_abandon found underway (.inr (Bool.eq_false_iff.mpr ha))
  unfold stepRound
  cases round with
  | opening hints =>
    dsimp only
    split
    · exact hset _
    case isFalse ha => exact hgone ha
  | hinting hints =>
    cases hints with
    | nil => exact hset _
    | cons e hints =>
      dsimp only
      split
      · exact hset _
      case isFalse ha => exact hgone ha
  | aligning raised =>
    dsimp only
    split
    · exact hset _
    case isFalse ha => exact hgone ha
  | walking raised e misses probes => exact hset _
  | confirming => exact hset _
  | «over» raised => exact leads_closeRound found underway raised (short raised rfl)
  | askingHint e hints => exact leads_sendRequest found underway _ _ _
  | asking raised e misses probes => exact leads_sendRequest found underway _ _ _
  | fetching slot => exact leads_sendRequest found underway _ _ _

/-- A poller that is under way begins a round. -/
theorem leads_beginRound (found : w.pollers[id]? = some p) (underway : p.isUnderway = true) :
    Leads smooth w [] (w.beginRound id).watch :=
  leads_turn found underway rfl rfl rfl

/-- A poller that is cancelled, by itself or along with everything else, may end. -/
theorem free_of_isCancelled (h : w.isCancelled p = true) :
    p.cancelled = true ∨ w.stopped = true ∨ w.roster.Unreferred id := by
  rw [isCancelled, Bool.or_eq_true] at h
  exact h.imp (fun hc => hc) .inl

/-- A poller that was submitted cancels those that it pushed out, and begins. -/
theorem leads_stepSubmitted (found : w.pollers[id]? = some p) {evicted : List PollerId}
    (stage : p.stage = .submitted evicted) :
    let v := (w.setStage id (.resting none)).cancelPollers evicted
    Leads smooth w []
      (if v.isCancelled p then v.endPoller id p.key true else v.beginRound id).watch := by
  intro v
  have hset : w.pollers.modify id (fun p => { p with stage := .resting none }) =
      w.pollers.set id { p with stage := .resting none } := modify_eq_set found _
  have hpollers : v.pollers =
      Roster.cancelAll evicted (w.pollers.set id { p with stage := .resting none }) := by
    rw [← hset]
    exact congrArg pollers (cancelPollers_eq _ evicted)
  have hv : Leads smooth w [] v := by
    refine Leads.of_step (.begins w.roster id p evicted found stage) ?_ rfl
    change Watch.roster (Watch.cancelPollers _ evicted) = _
    rw [cancelPollers_eq]
    change Roster.mk _ (Roster.cancelAll evicted (w.pollers.modify id _)) _ _ _ = _
    rw [hset]
    rfl
  let q : Poller := { p with stage := .resting none }
  have hq : v.pollers[id]? = some (if id ∈ evicted then q.cancel else q) := by
    rw [hpollers, Roster.getElem?_cancelAll, List.getElem?_set_self
      (List.getElem?_eq_some_iff.mp found).1]
    rfl
  have hunderway : (if id ∈ evicted then q.cancel else q).isUnderway = true := by
    split <;> rfl
  have hkey : (if id ∈ evicted then q.cancel else q).key = p.key := by
    split <;> rfl
  split
  case isTrue hc =>
    refine hv.after (hkey ▸ leads_endPoller hq hunderway ?_ (.inl rfl))
    rcases free_of_isCancelled hc with hp | hfree
    · refine .inl ?_
      split
      · rfl
      · exact hp
    · exact .inr hfree
  case isFalse => exact hv.after (leads_beginRound hq hunderway)

/-- A poller takes a turn by steps that change nothing of what is wanted. -/
theorem leads_stepPoller (w : Watch) (id : PollerId)
    (short : smooth = true → w.overflows id = false) :
    Leads smooth w [] (w.stepPoller id).watch := by
  unfold stepPoller
  cases found : w.pollers[id]? with
  | none => exact Leads.refl w
  | some p =>
    dsimp only
    cases hs : p.stage with
    | submitted evicted => exact leads_stepSubmitted found hs
    | rounding round =>
      have underway : p.isUnderway = true := by rw [Poller.isUnderway, hs]
      refine leads_stepRound found underway round fun raised hr hsmooth hm => ?_
      have ho := short hsmooth
      rw [overflows, found] at ho
      simp only [hs, hr, hm] at ho
      cases hp : Backoff.pause? w.settings p.backoff raised with
      | none => rw [hp] at ho; cases ho
      | some _ => rfl
    | waiting round flight =>
      have underway : p.isUnderway = true := by rw [Poller.isUnderway, hs]
      dsimp only
      split
      case isTrue hc => exact leads_endPoller found underway (free_of_isCancelled hc) (.inl rfl)
      case isFalse =>
        cases flight.answer w.now with
        | none => exact Leads.refl w
        | some reply => exact leads_takeReply found underway _ _ _
    | resting wake =>
      have underway : p.isUnderway = true := by rw [Poller.isUnderway, hs]
      dsimp only
      split
      case isTrue hc => exact leads_endPoller found underway (free_of_isCancelled hc) (.inl rfl)
      case isFalse =>
        split
        · obtain ⟨hk, hc, hst⟩ := Poller.takeCommands_same w.settings p
          have hu : (p.takeCommands w.settings).isUnderway = true := by
            rw [Poller.isUnderway, hst, hs]
          exact (leads_turn found underway hu hk hc).after
            (leads_beginRound (getElem?_modify_self found _) hu)
        · split
          case isTrue hn =>
            have hr : w.isReferred id = false := by simpa using hn
            have hu : w.roster.Unreferred id := unreferred_of_not_isReferred hr
            exact leads_endPoller found underway (.inr (.inr hu)) (.inr hu)
          case isFalse =>
            split
            · exact leads_beginRound found underway
            · exact Leads.refl w
    | ended => exact Leads.refl w

end Underway

/-- A poller that notices its time to wake changes nothing but itself. -/
theorem leads_wake (w : Watch) (id : PollerId) : Leads smooth w [] (w.wake id) := by
  rcases w.wake_cases id with hsame | ⟨p, due, found, stage, -, -, hbegins⟩
  · rw [hsame]
    exact .refl w
  · rw [hbegins]
    exact leads_beginRound found (by rw [Poller.isUnderway, stage])

/-! ## Errands -/

/-- To dismiss an errand may give up the watch, but changes nothing of what is wanted. -/
theorem leads_dismiss (w : Watch) (id : Nat) : Leads smooth w [] (w.dismiss id) := by
  refine leads_reap w { w with errands := w.errands.filter fun errand => errand.id ≠ id }
    rfl rfl rfl rfl fun h => ?_
  rw [isAlive, Bool.or_eq_true, List.any_eq_true] at h
  rw [isAlive, Bool.or_eq_true, List.any_eq_true]
  exact h.imp_right fun ⟨errand, hm, hh⟩ => ⟨errand, (List.mem_filter.mp hm).1, hh⟩

theorem leads_bringContent (w : Watch) (feed : ContentFeed) (uri : EditionUri) (reply : Reply) :
    Leads smooth w [] (w.bringContent feed uri reply) := by
  unfold bringContent
  cases reply with
  | data =>
    dsimp only
    split
    · exact (leads_noteGood w uri).before (Leads.same rfl)
    · exact Leads.same rfl
  | fault cause =>
    dsimp only
    split
    · exact Leads.refl w
    · exact Leads.same rfl

theorem leads_conclude (w : Watch) (errand : Errand) (reply : Reply) :
    Leads smooth w [] (w.conclude errand reply) := by
  let counted : Watch := { w with records := w.records.countVerdict reply.verdict }
  have hc : Leads smooth w [] counted := leads_countVerdict w reply.verdict
  have hslot : Leads smooth w [] (counted.noteSlot errand.uri) :=
    hc.after (leads_noteSlot counted _)
  unfold conclude
  cases errand.purpose with
  | hint =>
    dsimp only
    split
    · exact hslot
    · exact hc
  | check listener =>
    dsimp only
    split
    · exact hslot.before (Leads.same rfl)
    · exact hc.before (Leads.same rfl)
  | probe good =>
    dsimp only
    split
    · split
      · exact (hc.after (leads_noteGood counted _)).before (Leads.same rfl)
      · exact hslot.before (Leads.same rfl)
    · exact hc.before (Leads.same rfl)
  | prefetch =>
    dsimp only
    split
    · exact (Leads.record w .countPrefetched rfl).after (leads_noteGood _ _)
    · exact Leads.refl w
  | retrieval id =>
    dsimp only
    split
    · exact Leads.refl w
    · exact leads_bringContent w _ _ _

/-- What is done to errands matters only as far as they hold the watch. -/
theorem roster_mapErrands (w : Watch) (change : Errand → Errand)
    (h : ∀ errand, (change errand).purpose = errand.purpose) :
    Watch.roster { w with errands := w.errands.map change } = w.roster := by
  have ha : Watch.isAlive { w with errands := w.errands.map change } = w.isAlive := by
    simp only [isAlive, List.any_map, Function.comp_def, h]
  change Roster.mk _ _ _ (Watch.isAlive { w with errands := w.errands.map change }) _ = _
  rw [ha]
  rfl

theorem leads_beginErrand (w : Watch) (errand : Errand) :
    Leads smooth w [] (w.beginErrand errand).watch := by
  have hissue : Leads smooth w [] (w.issue ⟨errand.purpose.fetches, errand.uri⟩).watch :=
    leads_issue w _
  unfold beginErrand
  dsimp only
  split
  · exact hissue.after (leads_dismiss _ _)
  · split
    · exact hissue.after ((leads_conclude _ _ _).after (leads_dismiss _ _))
    · refine hissue.before (Leads.same (roster_mapErrands _ _ fun e => ?_))
      split <;> rfl

theorem leads_stepErrand (w : Watch) (id : Nat) : Leads smooth w [] (w.stepErrand id).watch := by
  unfold stepErrand
  split
  · exact Leads.refl w
  · split
    · exact leads_beginErrand w _
    · split
      · exact leads_dismiss w id
      · split
        · exact Leads.refl w
        · exact (leads_conclude w _ _).after (leads_dismiss _ id)

theorem leads_probe (w : Watch) (uri : EditionUri) (good : Bool) (h : w.isAlive = true) :
    Leads smooth w [] (w.probe uri good) := by
  let v : Watch := { w with probed := none }
  have hv : Leads smooth w [] v := Leads.same rfl
  have hsent : Leads smooth v [] (v.addErrand (.probe good) uri) :=
    Leads.same (roster_addErrand v _ uri (.inl h))
  exact (hv.after hsent).after (leads_stepErrand _ _)

theorem leads_dropProbe (w : Watch) : Leads smooth w [] w.dropProbe := by
  refine leads_reap w _ rfl rfl rfl rfl fun h => ?_
  rw [isAlive, Bool.or_eq_true, List.any_eq_true] at h
  rw [isAlive, Bool.or_eq_true, List.any_eq_true]
  exact h.imp_right fun ⟨errand, hm, hh⟩ => ⟨errand, (List.mem_filter.mp hm).1, hh⟩

/-! ## The sweeper -/

theorem leads_sweep (w : Watch) : Leads smooth w [] w.sweep := by
  have hsend (due : List EditionUri) (v : Watch) :
      Leads smooth v []
        (due.foldl (fun w uri => w.submitErrand .prefetch .prefetch uri) v) := by
    induction due generalizing v with
    | nil => exact Leads.refl v
    | cons uri rest ih => exact (leads_submitErrand v _ _ uri (.inr rfl)).after (ih _)
  exact (Leads.record w (.sweep w.now w.settings.prefetchDelay.nanoseconds) rfl).after (hsend _ _)

theorem leads_stepSweeper (w : Watch) : Leads smooth w [] w.stepSweeper.watch := by
  unfold stepSweeper
  split
  · exact Leads.refl w
  · split
    · exact Leads.same rfl
    · exact Leads.same rfl
  · split
    · exact Leads.same rfl
    · split
      · exact (leads_sweep w).before (Leads.same rfl)
      · exact Leads.refl w

/-! ## Actions -/

/-- The turn of a job leads to what it means. -/
theorem leads_takeTurn (w : Watch) (job : Job)
    (h : smooth = true → w.isSmooth (.work job) = true) :
    Leads smooth w (w.meaning (.work job)) (w.takeTurn job) := by
  cases job with
  | sweeper => exact leads_stepSweeper w
  | delivery =>
    unfold takeTurn meaning
    dsimp only
    split
    · exact leads_deliverNext w
    · exact Leads.refl w
  | poller id =>
    refine leads_stepPoller w id fun hs => ?_
    have ho := h hs
    simpa [isSmooth] using ho
  | errand id => exact leads_stepErrand w id

/-- When a job breaks down, nobody ceases to want a document, but a poller may end too soon. -/
theorem leads_crash (w : Watch) (job : Job) : Leads false w [] (w.crash job) := by
  unfold crash
  cases job with
  | sweeper => exact Leads.refl w
  | delivery => exact Leads.refl w
  | poller id =>
    dsimp only
    cases found : w.pollers[id]? with
    | none => exact Leads.refl w
    | some p =>
      dsimp only [Option.bind_some]
      cases hf : p.flight? with
      | none => exact Leads.refl w
      | some flight =>
        have underway : p.isUnderway = true := by
          rw [Poller.flight?] at hf
          rw [Poller.isUnderway]
          cases hs : p.stage <;> simp_all
        exact leads_abandon found underway (.inl rfl)
  | errand id =>
    dsimp only
    split
    · exact leads_dismiss w id
    · exact Leads.refl w

/-- An action that is not ignored leads to what it means. -/
theorem leads_perform (w : Watch) (action : Action)
    (call : action.isCall = true → w.isAlive = true)
    (h : smooth = true → w.isSmooth action = true) :
    Leads smooth w (w.meaning action) (w.perform action) := by
  cases action with
  | work job => exact leads_takeTurn w job h
  | wake id => exact leads_wake w id
  | crash job =>
    cases smooth with
    | false => exact leads_crash w job
    | true => exact Bool.noConfusion (h rfl)
  | elapse span => exact Leads.same rfl
  | setNetwork network => exact Leads.same rfl
  | refuse kinds =>
    have hcause : smooth = false ∨ (!kinds.contains .poller) = true := by
      cases smooth with
      | false => exact .inl rfl
      | true => exact .inr (h rfl)
    exact Leads.of_step (.refuses w.roster _ hcause) rfl rfl
  | letGo name => exact Leads.same rfl
  | dropProbe => exact leads_dropProbe w
  | release => exact leads_release w
  | subscribe key listener options => exact leads_subscribe w key listener options (call rfl)
  | unsubscribe subscription => exact leads_unsubscribe w subscription
  | subscribeContent key listener quiet options =>
    exact leads_subscribeContent w key listener quiet options (call rfl)
  | unsubscribeContent subscription => exact leads_unsubscribeContent w subscription
  | noteSlot uri => exact leads_noteSlot w uri
  | noteGood uri => exact leads_noteGood w uri
  | noteFetched uri metadata => exact leads_noteFetched w uri metadata
  | resolve uri prefetch name =>
    exact (leads_resolve w uri prefetch (call rfl)).before (Leads.same rfl)
  | probe uri good => exact leads_probe w uri good (call rfl)
  | hint uri => exact leads_hint w uri (call rfl)
  | check uri listener => exact leads_submitErrand w _ _ uri (.inl (call rfl))
  | shutdown => exact leads_shutdown w

/-- A call is heeded as long as the owner holds the watch. -/
theorem act_of_held {w : Watch} {action : Action} (held : w.held = true) :
    w.act action = w.perform action := by
  rw [act, held, Bool.not_true, Bool.and_false, if_neg Bool.false_ne_true]

/-- Every action takes the pollers through steps that amount to what the action means; if it
goes without mishap, the steps are smooth. -/
theorem leads_act (w : Watch) (action : Action) (h : smooth = true → w.isSmooth action = true) :
    Leads smooth w (w.interests action) (w.act action) := by
  unfold interests act
  split
  case isTrue => exact Leads.refl w
  case isFalse hn =>
    refine leads_perform w action (fun hc => ?_) h
    rw [hc, Bool.true_and, Bool.not_eq_true', Bool.not_eq_false] at hn
    rw [isAlive, hn, Bool.true_or]

/-- Several actions take the pollers through steps that amount to their story. -/
theorem leads_run (w : Watch) (actions : List Action)
    (h : smooth = true → w.runsSmoothly actions = true) :
    Leads smooth w (w.story actions) (w.run actions) := by
  induction actions generalizing w with
  | nil => exact Leads.refl w
  | cons action rest ih =>
    refine (leads_act w action fun hs => ?_).trans (ih (w.act action) fun hs => ?_)
    · exact (Bool.and_eq_true_iff.mp (h hs)).1
    · exact (Bool.and_eq_true_iff.mp (h hs)).2

/-- An action takes the pollers through such steps with or without mishap. -/
theorem leads_act_anyhow (w : Watch) (action : Action) :
    Leads false w (w.interests action) (w.act action) :=
  leads_act w action fun h => Bool.noConfusion h

/-- A run leads to what its story tells, smooth or not. -/
theorem leads_run_anyhow (w : Watch) (actions : List Action) :
    Leads false w (w.story actions) (w.run actions) :=
  leads_run w actions fun h => Bool.noConfusion h

/-- The records of a watch have a history of undivided changes, whatever happens to it, and the
story of the watch is that of the changes. -/
theorem records_run (w : Watch) (actions : List Action) :
    ∃ history, (w.run actions).records = w.records.run history ∧
      history.filterMap Records.Change.interest? = w.story actions := by
  obtain ⟨changes, hs, hstory⟩ := leads_run_anyhow w actions
  exact ⟨changes, hs.records_eq, hstory⟩

end Watch

end EditionWatch
