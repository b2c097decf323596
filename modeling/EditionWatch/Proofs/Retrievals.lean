import EditionWatch.Proofs.Coverage
import EditionWatch.Proofs.Effects
import EditionWatch.Proofs.Peaks

/-!
# Content comes newest first and once

A feed goes only for editions newer than all it went for before, and each time it gives up on the
edition before. So of its errands one at most is of use, the one for the newest edition it went
for; no edition is fetched twice; and what its listener hears of, be it content or a failure,
are newer and newer editions. What carries this from turn to turn is a ledger: the editions
asked for and told of so far, against the errands that are left. Once a feed is cancelled, or
everything is stopped, its errands are of no use, and none is sent any more.
-/

namespace EditionWatch

/-- What the listener of a feed hears of the reply to a fetch of content. -/
def ContentFeed.news (feed : ContentFeed) (uri : EditionUri) : Reply → List Event
  | .data => [.content feed.listener uri]
  | .fault cause => if feed.quiet then [] else [.failed feed.listener uri cause]

/-- The request of a fetch that was issued. -/
def Event.request? : Event → Option Request
  | .fetched _ request => some request
  | _ => none

namespace Watch

variable {u v w : Watch} {id : FeedId} {errand : Errand}

/-- All that was heard of content so far. -/
def contentNews (w : Watch) : List Event := w.journal.toList.filter Event.isContentNews

/-- All that was fetched so far. -/
def fetches (w : Watch) : List Request := w.journal.toList.filterMap Event.request?

/-- The newest edition that a feed went for. -/
def latest (w : Watch) (id : FeedId) : Option Edition := (w.feeds[id]?).bind ContentFeed.latest

/-- The errands that are to bring content to a feed. -/
def retrievals (w : Watch) (id : FeedId) : List Errand :=
  w.errands.filter fun errand => errand.purpose = .retrieval id

/-- What is retrieved for a feed depends on the errands only. -/
theorem retrievals_congr (errands : v.errands = w.errands) (id : FeedId) :
    v.retrievals id = w.retrievals id := by
  rw [retrievals, retrievals, errands]

/-- What is retrieved for a feed are the errands with this purpose. -/
theorem mem_retrievals_iff :
    errand ∈ w.retrievals id ↔ errand ∈ w.errands ∧ errand.purpose = .retrieval id := by
  simp [retrievals]

/-- A feed goes for nothing any more. -/
def IsClosed (w : Watch) (id : FeedId) : Prop :=
  w.stopped = true ∨ ∃ feed, w.feeds[id]? = some feed ∧ feed.cancelled = true

/-! ## The turn of an errand that brings content -/

/-- An errand is of use as long as its feed goes for its edition, and not everything is
stopped. -/
theorem isPointless_eq_false_iff (purpose : errand.purpose = .retrieval id) :
    w.isPointless errand = false ↔
      w.stopped = false ∧ ∃ feed, w.feeds[id]? = some feed ∧ feed.cancelled = false ∧
        feed.latest = some errand.uri.edition := by
  simp only [isPointless, purpose]
  cases w.feeds[id]? with
  | none => simp
  | some feed => simp [ContentFeed.pursues]

/-- An errand for a feed that is closed is pointless. -/
theorem isPointless_of_isClosed (purpose : errand.purpose = .retrieval id)
    (closed : w.IsClosed id) : w.isPointless errand = true := by
  rw [← Bool.not_eq_false]
  intro hof
  obtain ⟨hrunning, feed, hfeed, hcancelled, -⟩ := (isPointless_eq_false_iff purpose).mp hof
  rcases closed with hstopped | ⟨other, hother, hc⟩
  · rw [hstopped] at hrunning
    cases hrunning
  · rw [hfeed, Option.some.injEq] at hother
    rw [← hother, hcancelled] at hc
    cases hc

/-- The fetch of an errand, and the watch that has it: it is under way, or issued now. -/
def fetchFor (w : Watch) (errand : Errand) : Issue :=
  match errand.flight with
  | none => w.issue ⟨errand.purpose.fetches, errand.uri⟩
  | some flight => ⟨w, flight⟩

/-- The reply that an errand takes in its turn, if it takes one. -/
def replyTo (w : Watch) (errand : Errand) : Option Reply :=
  let fetch := w.fetchFor errand
  if fetch.watch.isPointless errand then none else fetch.flight.answer fetch.watch.now

/-- An errand takes a reply only if it is of use. -/
theorem useful_of_replyTo {reply : Reply} (h : w.replyTo errand = some reply) :
    (w.fetchFor errand).watch.isPointless errand = false := by
  rw [replyTo] at h
  split at h
  case isTrue => cases h
  case isFalse hof => exact Bool.eq_false_iff.mpr hof

/-- An errand that is of no use is dropped in its turn, another one takes its reply if that is
there, and else it waits. -/
theorem stepErrand_eq {number : Nat}
    (found : (w.errands.find? fun errand => errand.id = number) = some errand) :
    (w.stepErrand number).watch =
      let fetch := w.fetchFor errand
      match w.replyTo errand with
      | some reply => (fetch.watch.conclude errand reply).dismiss number
      | none =>
        if fetch.watch.isPointless errand then fetch.watch.dismiss number
        else if errand.flight.isNone then fetch.watch.depart number fetch.flight
        else w := by
  have hnumber : errand.id = number := by simpa using List.find?_some found
  subst hnumber
  unfold stepErrand replyTo fetchFor
  cases hflight : errand.flight with
  | none =>
    let issue := w.issue ⟨errand.purpose.fetches, errand.uri⟩
    simp only [found, hflight, beginErrand]
    cases issue.watch.isPointless errand with
    | true => simp
    | false =>
      cases issue.flight.answer issue.watch.now with
      | none => simp [depart, Errand.departed]
      | some reply => simp
  | some flight =>
    simp only [found, hflight]
    cases w.isPointless errand with
    | true => simp
    | false =>
      cases flight.answer w.now with
      | none => simp
      | some reply => simp

/-- Feeds and errands are the same in two watches, and so is all that was heard of content. -/
structure KeepsFeeds (w v : Watch) : Prop where
  feeds : v.feeds = w.feeds
  errands : v.errands = w.errands
  news : v.contentNews = w.contentNews

theorem KeepsFeeds.trans (h : KeepsFeeds w v) (h' : KeepsFeeds v u) : KeepsFeeds w u :=
  ⟨h'.feeds.trans h.feeds, h'.errands.trans h.errands, h'.news.trans h.news⟩

/-- What is seen is content news if it is the content of an edition, or its failure. -/
theorem contentNews_log (w : Watch) (event : Event) :
    (w.log event).contentNews =
      w.contentNews ++ if event.isContentNews then [event] else [] := by
  unfold contentNews log
  rw [Array.toList_push, List.filter_append]
  cases h : event.isContentNews <;> simp [h]

/-- What is seen is a fetch if it issues a request. -/
theorem fetches_log (w : Watch) (event : Event) :
    (w.log event).fetches = w.fetches ++ event.request?.toList := by
  unfold fetches log
  rw [Array.toList_push, List.filterMap_append]
  cases h : event.request? <;> simp [h]

theorem keepsFeeds_reap (w : Watch) : KeepsFeeds w w.reap := by
  unfold reap
  split <;> exact ⟨rfl, rfl, rfl⟩

theorem keepsFeeds_release (w : Watch) : KeepsFeeds w w.release :=
  KeepsFeeds.trans (v := { w with held := false }) ⟨rfl, rfl, rfl⟩ (keepsFeeds_reap _)

theorem keepsFeeds_issue (w : Watch) (request : Request) :
    KeepsFeeds w (w.issue request).watch := by
  have hlogged : (w.log (.fetched w.now request)).contentNews = w.contentNews := by
    rw [contentNews_log]
    exact List.append_nil _
  have hrelease (probed : Watch) (h : KeepsFeeds w probed) :
      KeepsFeeds w (if w.network.releases request then probed.release else probed) := by
    split
    · exact h.trans (keepsFeeds_release probed)
    · exact h
  unfold issue
  dsimp only
  cases request.kind with
  | block => exact hrelease _ ⟨rfl, rfl, hlogged⟩
  | content => exact hrelease _ ⟨rfl, rfl, hlogged⟩

theorem keepsFeeds_noteGood (w : Watch) (uri : EditionUri) : KeepsFeeds w (w.noteGood uri) := by
  unfold noteGood flush
  split
  · unfold submitJob
    split <;> exact ⟨rfl, rfl, rfl⟩
  · exact ⟨rfl, rfl, rfl⟩

theorem keepsFeeds_fetchFor (w : Watch) (errand : Errand) :
    KeepsFeeds w (w.fetchFor errand).watch := by
  unfold fetchFor
  split
  · exact keepsFeeds_issue w _
  · exact ⟨rfl, rfl, rfl⟩

/-- The reply to a fetch of content is news for the listener of the feed, and nothing else about
feeds. -/
theorem conclude_retrieval {feed : ContentFeed} (purpose : errand.purpose = .retrieval id)
    (found : w.feeds[id]? = some feed) (reply : Reply) :
    (w.conclude errand reply).feeds = w.feeds ∧ (w.conclude errand reply).errands = w.errands ∧
      (w.conclude errand reply).contentNews = w.contentNews ++ feed.news errand.uri reply := by
  have hconclude : w.conclude errand reply = w.bringContent feed errand.uri reply := by
    unfold conclude
    simp only [purpose, found]
  rw [hconclude]
  cases reply with
  | data =>
    unfold bringContent
    dsimp only
    split
    · have hgood := keepsFeeds_noteGood w errand.uri
      exact ⟨hgood.feeds, hgood.errands, by rw [contentNews_log, hgood.news]; rfl⟩
    · exact ⟨rfl, rfl, contentNews_log _ _⟩
  | fault cause =>
    unfold bringContent ContentFeed.news
    dsimp only
    split
    · exact ⟨rfl, rfl, (List.append_nil _).symm⟩
    · exact ⟨rfl, rfl, contentNews_log _ _⟩

/-- An edition that was noted as fetched is at or below the known good edition. -/
theorem some_le_good_noteGood (r : Records) (now : Instant) (uri : EditionUri) :
    some uri.edition ≤ ((r.noteGood now uri).frontier uri.key).good := by
  unfold Records.noteGood Frontier.raiseGood?
  cases habove : isAbove uri.edition (r.frontier uri.key).good with
  | false =>
    change some uri.edition ≤ (r.frontier uri.key).good
    rw [← raised_of_not_isAbove habove]
    exact some_le_raised _ _
  | true =>
    have hset (frontier : Frontier) :
        (r.setFrontier uri.key frontier).frontier uri.key = frontier := by
      rw [Records.frontier_setFrontier, if_pos rfl]
    have hle (slot : Option Edition) :
        some uri.edition ≤
          ((r.setFrontier uri.key ⟨slot, some uri.edition⟩).frontier uri.key).good := by
      rw [hset]
      exact slot_le_refl _
    dsimp only
    cases isAbove uri.edition (r.frontier uri.key).slot with
    | false => exact hle _
    | true => exact hle _

/-- What may come of the turn of an errand that brings content to a feed. -/
inductive Outcome (w : Watch) (errand : Errand) (id : FeedId) (v : Watch) : Prop where
  /-- The errand is dropped. -/
  | drops (unheard : w.replyTo errand = none) (news : v.contentNews = w.contentNews)
      (errands : v.errands = w.errands.filter fun other => other.id ≠ errand.id)
  /-- The fetch of the errand is under way from now on. -/
  | departs (flight : Flight) (unheard : w.replyTo errand = none)
      (news : v.contentNews = w.contentNews) (before : errand.flight = none)
      (useful : (w.fetchFor errand).watch.isPointless errand = false)
      (errands : v.errands = w.errands.map (·.departed errand.id flight))
  /-- The errand goes on waiting. -/
  | waits (unheard : w.replyTo errand = none) (before : errand.flight ≠ none)
      (useful : (w.fetchFor errand).watch.isPointless errand = false) (same : v = w)
  /-- The listener of the feed is told of the reply, and the errand is over. -/
  | tells (reply : Reply) (feed : ContentFeed) (heard : w.replyTo errand = some reply)
      (found : w.feeds[id]? = some feed) (newest : w.latest id = some errand.uri.edition)
      (news : v.contentNews = w.contentNews ++ feed.news errand.uri reply)
      (errands : v.errands = w.errands.filter fun other => other.id ≠ errand.id)

/-- The turn of an errand for a feed comes to one of its outcomes. -/
theorem stepErrand_outcome (numbered : w.Numbered) (mem : errand ∈ w.retrievals id) :
    (w.stepErrand errand.id).watch.feeds = w.feeds ∧
      Outcome w errand id (w.stepErrand errand.id).watch := by
  obtain ⟨hmem, purpose⟩ := mem_retrievals_iff.mp mem
  have hfetch := keepsFeeds_fetchFor w errand
  have hdismiss (v : Watch) : (v.dismiss errand.id).feeds = v.feeds ∧
      (v.dismiss errand.id).contentNews = v.contentNews ∧
      (v.dismiss errand.id).errands = v.errands.filter fun other => other.id ≠ errand.id := by
    have hreap := keepsFeeds_reap
      { v with errands := v.errands.filter fun other => other.id ≠ errand.id }
    exact ⟨hreap.feeds, hreap.news, hreap.errands⟩
  rw [stepErrand_eq (numbered.find?_eq hmem)]
  cases hreply : w.replyTo errand with
  | some reply =>
    obtain ⟨-, feed, hfeed, -, hlatest⟩ :=
      (isPointless_eq_false_iff purpose).mp (useful_of_replyTo hreply)
    obtain ⟨hfeeds, herrands, hnews⟩ := conclude_retrieval purpose hfeed reply
    let concluded := (w.fetchFor errand).watch.conclude errand reply
    obtain ⟨hfeeds', hnews', herrands'⟩ := hdismiss concluded
    rw [hfetch.feeds] at hfeed
    refine ⟨hfeeds'.trans (hfeeds.trans hfetch.feeds), .tells reply feed hreply hfeed ?_ ?_ ?_⟩
    · rw [latest, hfeed, Option.bind_some, hlatest]
    · rw [hnews', hnews, hfetch.news]
    · rw [herrands', herrands, hfetch.errands]
  | none =>
    dsimp only
    split
    case isTrue =>
      obtain ⟨hfeeds', hnews', herrands'⟩ := hdismiss (w.fetchFor errand).watch
      refine ⟨hfeeds'.trans hfetch.feeds, .drops hreply (hnews'.trans hfetch.news) ?_⟩
      rw [herrands', hfetch.errands]
    case isFalse hof =>
      have huse := Bool.eq_false_iff.mpr hof
      split
      case isTrue hnew =>
        refine ⟨hfetch.feeds, .departs (w.fetchFor errand).flight hreply hfetch.news
          (Option.isNone_iff_eq_none.mp hnew) huse ?_⟩
        rw [depart, hfetch.errands]
      case isFalse hold =>
        have hbegun : errand.flight ≠ none := fun hn => hold (Option.isNone_iff_eq_none.mpr hn)
        exact ⟨rfl, .waits hreply hbegun huse rfl⟩

/-! ## What other actions do to feeds -/

/-- A feed may go for newer editions, sending one more errand or not, and it may lose errands. -/
inductive Attends (id : FeedId) : Watch → Watch → Prop where
  /-- The feed goes for nothing new, and loses errands perhaps. -/
  | loses (w v : Watch) (latest : v.latest id = w.latest id)
      (fewer : (v.retrievals id).Sublist (w.retrievals id)) : Attends id w v
  /-- The feed goes for a newer edition and sends an errand. -/
  | sends (w v : Watch) (number : Nat) (uri : EditionUri) (running : w.IsClosed id → False)
      (newer : isAbove uri.edition (w.latest id) = true)
      (latest : v.latest id = some uri.edition)
      (errands : v.retrievals id =
        w.retrievals id ++ [⟨number, .retrieval id, uri, none⟩]) : Attends id w v
  /-- The feed goes for a newer edition, but the errand is refused. -/
  | misses (w v : Watch) (e : Edition) (running : w.IsClosed id → False)
      (newer : isAbove e (w.latest id) = true) (latest : v.latest id = some e)
      (errands : v.retrievals id = w.retrievals id) : Attends id w v

/-- What concerns neither feeds nor errands attends to no feed. -/
theorem attends_of_same (w v : Watch) (feeds : v.feeds = w.feeds)
    (errands : v.errands = w.errands) (id : FeedId) : Attends id w v := by
  refine .loses w v ?_ ?_
  · rw [latest, latest, feeds]
  · rw [retrievals_congr errands]

/-- A feed that is modified shows its own latest edition, and no other. -/
theorem latest_modify (w : Watch) {other : FeedId} {feed : ContentFeed}
    (found : w.feeds[other]? = some feed) (change : ContentFeed → ContentFeed) (id : FeedId) :
    Watch.latest { w with feeds := w.feeds.modify other change } id =
      if other = id then (change feed).latest else w.latest id := by
  unfold latest
  rw [List.getElem?_modify]
  by_cases ho : other = id
  · subst ho
    simp [found]
  · simp [ho]

/-- An errand that is added is retrieved for its own feed only. -/
theorem retrievals_addErrand (w : Watch) (purpose : Purpose) (uri : EditionUri) (id : FeedId) :
    (w.addErrand purpose uri).retrievals id =
      if purpose = .retrieval id then
        w.retrievals id ++ [⟨w.errandsSent, .retrieval id, uri, none⟩]
      else w.retrievals id := by
  unfold retrievals addErrand
  rw [List.filter_append]
  split
  case isTrue hp => simp [hp]
  case isFalse hp => simp [hp]

/-- An errand that departs is still retrieved for its feed. -/
theorem retrievals_depart (w : Watch) (number : Nat) (flight : Flight) (id : FeedId) :
    (w.depart number flight).retrievals id =
      (w.retrievals id).map (·.departed number flight) := by
  have hpurpose (errand : Errand) :
      (errand.departed number flight).purpose = errand.purpose := by
    unfold Errand.departed
    split <;> rfl
  unfold retrievals depart
  rw [List.filter_map]
  simp only [Function.comp_def, hpurpose]

/-- The departure of an errand that is not for a feed leaves the feed its errands. -/
theorem retrievals_depart_of_other {number : Nat}
    (other : ∀ errand ∈ w.errands, errand.id = number → errand.purpose ≠ .retrieval id)
    (flight : Flight) : (w.depart number flight).retrievals id = w.retrievals id := by
  rw [retrievals_depart]
  refine (List.map_congr_left fun errand mem => ?_).trans (List.map_id _)
  obtain ⟨hmem, hfor⟩ := mem_retrievals_iff.mp mem
  rw [Errand.departed, if_neg fun hid => other errand hmem hid hfor]
  rfl

/-- A feed that wants something is open as long as not everything was stopped. -/
theorem not_isClosed_of_wants {feed : ContentFeed} {e : Edition} (found : w.feeds[id]? = some feed)
    (wants : feed.wants e = true) (running : w.stopped = false) : ¬w.IsClosed id := by
  rw [ContentFeed.wants, Bool.and_eq_true, Bool.not_eq_true'] at wants
  rintro (hstopped | ⟨same, hsame, hcancelled⟩)
  · rw [running] at hstopped
    cases hstopped
  · rw [found, Option.some.injEq] at hsame
    rw [← hsame, wants.1] at hcancelled
    cases hcancelled

/-- When a feed goes for an edition that it wants, an errand is sent for it or refused, and other
feeds are left alone. -/
theorem attends_pursue {other : FeedId} {feed : ContentFeed} {uri : EditionUri}
    (found : w.feeds[other]? = some feed) (wants : feed.wants uri.edition = true)
    (running : w.stopped = false) (id : FeedId) :
    Attends id w ({ w with feeds := w.feeds.modify other (·.pursue uri.edition) }.submitErrand
      .retrieval (.retrieval other) uri) := by
  let pursuing : Watch := { w with feeds := w.feeds.modify other (·.pursue uri.edition) }
  let sent : Watch := pursuing.submitErrand .retrieval (.retrieval other) uri
  change Attends id w sent
  have hlatest : sent.latest id = if other = id then some uri.edition else w.latest id := by
    refine Eq.trans ?_ (latest_modify w found (·.pursue uri.edition) id)
    obtain ⟨_, _, _, hs⟩ := submitErrand_eq pursuing .retrieval (.retrieval other) uri
    change (pursuing.submitErrand .retrieval (.retrieval other) uri).latest id = _
    rw [hs]
    rfl
  have hadd := retrievals_addErrand pursuing (.retrieval other) uri id
  have hsent : sent.retrievals id = (pursuing.addErrand (.retrieval other) uri).retrievals id ∨
      sent.retrievals id = w.retrievals id := by
    rcases submitErrand_cases pursuing .retrieval (.retrieval other) uri with hs | hs
    · have herrands := congrArg Watch.errands hs
      exact .inl (retrievals_congr herrands id)
    · have herrands := congrArg Watch.errands hs
      exact .inr (retrievals_congr herrands id)
  by_cases ho : other = id
  · subst ho
    rw [if_pos rfl] at hlatest hadd
    have hopen := not_isClosed_of_wants found wants running
    have hnewer : isAbove uri.edition (w.latest other) = true := by
      rw [ContentFeed.wants, Bool.and_eq_true] at wants
      rw [latest, found, Option.bind_some]
      exact wants.2
    rcases hsent with hs | hs
    · exact .sends _ _ w.errandsSent uri hopen hnewer hlatest (hs.trans hadd)
    · exact .misses _ _ uri.edition hopen hnewer hlatest hs
  · have hne : Purpose.retrieval other ≠ .retrieval id := fun he => ho (Purpose.retrieval.inj he)
    rw [if_neg ho] at hlatest
    rw [if_neg hne] at hadd
    have hsame : sent.retrievals id = w.retrievals id :=
      hsent.elim (fun hs => hs.trans hadd) fun hs => hs
    refine .loses _ _ hlatest ?_
    rw [hsame]

/-- Every effect but the departure of an errand for content leaves a feed its errands, loses
some, or goes for a newer edition. -/
theorem attends_effect {actor : Option PollerId} (effect : Effect actor false w v) (id : FeedId) :
    Attends id w v := by
  cases effect with
  | alike _ same => exact attends_of_same w v same.feeds same.errands id
  | send purpose uri other =>
    refine .loses _ _ rfl ?_
    have hne : purpose ≠ .retrieval id := fun he => by rw [he] at other; cases other
    rw [retrievals_addErrand, if_neg hne]
  | pursue other feed uri found wants running => exact attends_pursue found wants running id
  | openFeed name quiet =>
    refine .loses _ _ ?_ (List.Sublist.refl _)
    unfold latest
    rw [List.getElem?_append]
    split
    case isTrue => rfl
    case isFalse hlen =>
      rw [List.getElem?_eq_none (Nat.le_of_not_lt hlen)]
      cases hone : [ContentFeed.fresh name quiet][id - w.feeds.length]? with
      | none => rfl
      | some feed =>
        rw [List.mem_singleton.mp (List.mem_of_getElem? hone)]
        rfl
  | cancelFeed other =>
    refine .loses _ _ ?_ (List.Sublist.refl _)
    unfold latest cancelFeed
    dsimp only
    rw [List.getElem?_modify]
    cases w.feeds[id]? with
    | none => rfl
    | some feed =>
      by_cases ho : other = id
      · subst ho; simp
      · simp [ho]
  | depart number flight own =>
    refine .loses _ _ rfl ?_
    rw [retrievals_depart_of_other]
    intro errand mem hid hpurpose
    have hfalse := own errand mem hid (by rw [hpurpose]; rfl)
    cases hfalse
  | giveUp keep => exact .loses _ _ rfl (List.filter_sublist.filter _)
  | _ => refine attends_of_same _ _ ?_ ?_ id <;> rfl

/-- No effect but that of an errand for content is news of content. -/
theorem contentNews_effect {actor : Option PollerId} (effect : Effect actor false w v) :
    v.contentNews = w.contentNews := by
  cases effect with
  | alike _ same => rw [contentNews, same.journal, contentNews]
  | see event own =>
    have hother : event.isContentNews = false := by
      cases h : event.isContentNews with
      | false => rfl
      | true => cases own h
    rw [contentNews_log, hother]
    exact List.append_nil _
  | pursue id feed uri found wants running =>
    obtain ⟨_, _, _, hs⟩ := submitErrand_eq
      { w with feeds := w.feeds.modify id (·.pursue uri.edition) } .retrieval (.retrieval id) uri
    rw [hs]
    rfl
  | _ => rfl

/-- A feed that is closed stays closed. -/
theorem isClosed_effect {actor : Option PollerId} {bearing : Bool}
    (effect : Effect actor bearing w v) (closed : w.IsClosed id) : v.IsClosed id := by
  rcases closed with hstopped | ⟨feed, hfeed, hcancelled⟩
  · exact .inl (stopped_effect effect hstopped)
  · cases effect with
    | alike _ same => exact .inr ⟨feed, by rw [same.feeds, hfeed], hcancelled⟩
    | pursue other old uri found wants running =>
      have hfeeds : ((w.feeds.modify other (·.pursue uri.edition))[id]?).map
          ContentFeed.cancelled = some true := by
        rw [List.getElem?_modify, hfeed]
        by_cases ho : other = id <;> simp [ho, ContentFeed.pursue, hcancelled]
      obtain ⟨next, hnext, hc⟩ := Option.map_eq_some_iff.mp hfeeds
      obtain ⟨_, _, _, hs⟩ := submitErrand_eq
        { w with feeds := w.feeds.modify other (·.pursue uri.edition) } .retrieval
        (.retrieval other) uri
      rw [hs]
      exact .inr ⟨next, hnext, hc⟩
    | openFeed name quiet =>
      have hlt : id < w.feeds.length := (List.getElem?_eq_some_iff.mp hfeed).1
      exact .inr ⟨feed, by rw [List.getElem?_append_left hlt, hfeed], hcancelled⟩
    | cancelFeed other =>
      have hfeeds : ((w.feeds.modify other fun f => { f with cancelled := true })[id]?).map
          ContentFeed.cancelled = some true := by
        rw [List.getElem?_modify, hfeed]
        by_cases ho : other = id <;> simp [ho, hcancelled]
      obtain ⟨next, hnext, hc⟩ := Option.map_eq_some_iff.mp hfeeds
      exact .inr ⟨next, hnext, hc⟩
    | _ => exact .inr ⟨feed, hfeed, hcancelled⟩

/-! ## Actions -/

/-- The errand for a feed whose turn an action is. -/
def turnFor? (w : Watch) (id : FeedId) : Action → Option Errand
  | .work (.errand number) => (w.retrievals id).find? fun errand => errand.id = number
  | _ => none

/-- The edition whose content an action requests for a feed. -/
def requests? (id : FeedId) (w : Watch) (action : Action) : Option EditionUri :=
  (w.turnFor? id action).bind fun errand =>
    if errand.flight.isNone then some errand.uri else none

/-- What the listener of a feed is told of in an action: an edition, and the reply to its
fetch. -/
def tells? (id : FeedId) (w : Watch) (action : Action) : Option (EditionUri × Reply) :=
  (w.turnFor? id action).bind fun errand => (w.replyTo errand).map fun reply => (errand.uri, reply)

/-- What can be seen of several actions, one after the other. -/
def along {α : Type} (look : Watch → Action → Option α) (w : Watch) : List Action → List α
  | [] => []
  | action :: rest => (look w action).toList ++ along look (w.act action) rest

/-- The turn for a feed is the turn of an errand that is retrieved for it. -/
theorem act_of_turnFor? {action : Action} (turn : w.turnFor? id action = some errand) :
    errand ∈ w.retrievals id ∧ action = .work (.errand errand.id) ∧
      w.act action = (w.stepErrand errand.id).watch := by
  cases action with
  | work job =>
    cases job with
    | errand number =>
      have hnumber : errand.id = number := by simpa using List.find?_some turn
      subst hnumber
      exact ⟨List.mem_of_find?_eq_some turn, rfl, rfl⟩
    | sweeper => cases turn
    | delivery => cases turn
    | poller id => cases turn
  | _ => cases turn

/-- The turn of an errand of some number is the turn of that errand. -/
theorem turnFor?_of_mem (numbered : w.Numbered) (mem : errand ∈ w.retrievals id) :
    w.turnFor? id (.work (.errand errand.id)) = some errand := by
  cases hturn : w.turnFor? id (.work (.errand errand.id)) with
  | none => exact absurd (decide_eq_true rfl) (List.find?_eq_none.mp hturn errand mem)
  | some other =>
    obtain ⟨hother, hnumber, -⟩ := act_of_turnFor? hturn
    have hid : other.id = errand.id := by
      injection hnumber with hjob
      injection hjob with hid
      exact hid.symm
    rw [numbered.eq_of_id (mem_retrievals_iff.mp mem).1 (mem_retrievals_iff.mp hother).1 hid]

/-- Only a turn of an errand for some feed bears content. -/
theorem turnFor?_of_bears (numbered : w.Numbered) {action : Action}
    (bears : w.bears action = true) : ∃ other errand, w.turnFor? other action = some errand := by
  cases action with
  | work job =>
    cases job with
    | errand number =>
      rw [Watch.bears, Option.any_eq_true] at bears
      obtain ⟨errand, hfound, hretrieval⟩ := bears
      have hnumber : errand.id = number := by simpa using List.find?_some hfound
      subst hnumber
      cases hpurpose : errand.purpose with
      | retrieval other =>
        have hmem := mem_retrievals_iff.mpr ⟨List.mem_of_find?_eq_some hfound, hpurpose⟩
        exact ⟨other, errand, turnFor?_of_mem numbered hmem⟩
      | _ => rw [hpurpose] at hretrieval; cases hretrieval
    | _ => cases bears
  | _ => cases bears

/-- Nothing is seen of a watch that is given up for good. -/
theorem journal_reap (w : Watch) : w.reap.journal = w.journal := by
  unfold reap
  split <;> rfl

/-- A fetch that is issued is the last one. -/
theorem fetches_issue (w : Watch) (request : Request) :
    (w.issue request).watch.fetches = w.fetches ++ [request] := by
  have hlogged : (w.log (.fetched w.now request)).fetches = w.fetches ++ [request] :=
    fetches_log w _
  have hrelease (probed : Watch) (h : probed.fetches = w.fetches ++ [request]) :
      (if w.network.releases request then probed.release else probed).fetches =
        w.fetches ++ [request] := by
    split
    · rw [← h, fetches, release, journal_reap, fetches]
    · exact h
  unfold issue
  dsimp only
  cases request.kind with
  | block => exact hrelease _ hlogged
  | content => exact hrelease _ hlogged

/-- An errand for a feed issues nothing when it is concluded. -/
theorem fetches_conclude (purpose : errand.purpose = .retrieval id) (reply : Reply) :
    (w.conclude errand reply).fetches = w.fetches := by
  have hgood : (w.noteGood errand.uri).journal = w.journal := by
    unfold noteGood flush
    split
    · unfold submitJob
      split <;> rfl
    · rfl
  have hlog (v : Watch) (h : v.journal = w.journal) {event : Event}
      (other : event.request? = none) : (v.log event).fetches = w.fetches := by
    rw [fetches_log, other, fetches, h, fetches]
    exact List.append_nil _
  unfold conclude
  simp only [purpose]
  split
  · rfl
  · unfold bringContent
    cases reply with
    | data =>
      dsimp only
      split
      · exact hlog _ hgood rfl
      · exact hlog w rfl rfl
    | fault cause =>
      dsimp only
      split
      · rfl
      · exact hlog w rfl rfl

/-- In its turn an errand for a feed fetches what it requests, and nothing else. -/
theorem fetches_act (numbered : w.Numbered) {action : Action}
    (turn : w.turnFor? id action = some errand) :
    (w.act action).fetches =
      w.fetches ++ (requests? id w action).toList.map fun uri => ⟨.content, uri⟩ := by
  obtain ⟨hmem, -, hact⟩ := act_of_turnFor? turn
  obtain ⟨hin, purpose⟩ := mem_retrievals_iff.mp hmem
  have hfetch : (w.fetchFor errand).watch.fetches =
      w.fetches ++ (requests? id w action).toList.map fun uri => ⟨.content, uri⟩ := by
    rw [requests?, turn]
    unfold fetchFor
    cases hflight : errand.flight with
    | none =>
      simp only [Option.bind_some, hflight, Option.isNone_none, if_true]
      rw [fetches_issue, purpose]
      rfl
    | some flight => simp [hflight]
  have hdismiss (v : Watch) : (v.dismiss errand.id).fetches = v.fetches := by
    rw [fetches, dismiss, journal_reap, fetches]
  rw [hact, stepErrand_eq (numbered.find?_eq hin), ← hfetch]
  dsimp only
  split
  · rw [hdismiss, fetches_conclude purpose]
  · split
    · exact hdismiss _
    · split
      · rfl
      case isFalse hbegun =>
        obtain ⟨flight, hflight⟩ := Option.ne_none_iff_exists'.mp
          (fun hnone => hbegun (Option.isNone_iff_eq_none.mpr hnone))
        rw [fetchFor, hflight]

/-- What comes of the turn of an errand for one feed is no matter for another feed. -/
theorem attends_outcome {other : FeedId} (mem : errand ∈ w.retrievals other) (ne : other ≠ id)
    (numbered : w.Numbered) (feeds : v.feeds = w.feeds) (outcome : Outcome w errand other v) :
    Attends id w v := by
  have hlatest : v.latest id = w.latest id := by rw [latest, latest, feeds]
  have hfilter (errands : v.errands = w.errands.filter fun other => other.id ≠ errand.id) :
      Attends id w v := by
    refine .loses w v hlatest ?_
    rw [retrievals, errands]
    exact List.filter_sublist.filter _
  cases outcome with
  | drops unheard news errands => exact hfilter errands
  | tells reply feed heard found newest news errands => exact hfilter errands
  | waits unheard before useful same =>
    rw [same]
    exact attends_of_same w w rfl rfl id
  | departs flight unheard news before useful errands =>
    have hsame : v.retrievals id = (w.depart errand.id flight).retrievals id := by
      rw [retrievals, errands, retrievals, depart]
    refine .loses w v hlatest ?_
    rw [hsame, retrievals_depart_of_other]
    intro departing hdeparting hid hpurpose
    obtain ⟨hmem, hfor⟩ := mem_retrievals_iff.mp mem
    rw [numbered.eq_of_id hmem hdeparting hid, hfor] at hpurpose
    exact ne (Purpose.retrieval.inj hpurpose)

/-- A feed that is closed stays closed. -/
theorem isClosed_act (numbered : w.Numbered) (action : Action) (closed : w.IsClosed id) :
    (w.act action).IsClosed id := by
  cases houtside : action.isOutside with
  | true =>
    have same := alike_act (w := w) houtside
    rw [IsClosed, same.stopped, same.feeds]
    exact closed
  | false =>
    exact (effects_act numbered houtside).keep (fun _ _ effect => isClosed_effect effect) closed

/-- What is kept as a feed goes for editions is kept by every action but the turn of an errand
for that feed. -/
theorem keep_act (numbered : w.Numbered) {P : Watch → Prop}
    (step : ∀ v u, Attends id v u → (v.IsClosed id → u.IsClosed id) → P v → P u)
    {action : Action} (idle : w.turnFor? id action = none) (hw : P w) : P (w.act action) := by
  have hclosed : w.IsClosed id → (w.act action).IsClosed id := isClosed_act numbered action
  cases houtside : action.isOutside with
  | true =>
    have same := alike_act (w := w) houtside
    exact step w _ (attends_of_same w _ same.feeds same.errands id) hclosed hw
  | false =>
    cases hbears : w.bears action with
    | false =>
      have heffects := effects_act numbered houtside
      rw [hbears] at heffects
      exact heffects.keep
        (fun v u effect => step v u (attends_effect effect id) (isClosed_effect effect)) hw
    | true =>
      obtain ⟨other, errand, hturn⟩ := turnFor?_of_bears numbered hbears
      have hne : other ≠ id := fun he => by rw [← he, hturn] at idle; cases idle
      obtain ⟨hmem, -, hact⟩ := act_of_turnFor? hturn
      obtain ⟨hfeeds, houtcome⟩ := stepErrand_outcome numbered hmem
      rw [hact]
      rw [hact] at hclosed
      exact step w _ (attends_outcome hmem hne numbered hfeeds houtcome) hclosed hw

/-! ## The ledger of a feed -/

/-- The editions that were requested for a feed and told of so far, against the errands that are
left. -/
structure FeedLedger (id : FeedId) (requested told : List Edition) (w : Watch) : Prop where
  /-- Errands are sent for newer and newer editions. -/
  rising : (w.retrievals id).Pairwise fun errand later => errand.uri.edition < later.uri.edition
  /-- No edition was requested twice. -/
  once : requested.Nodup
  /-- What is yet to be requested was not requested before. -/
  unbegun : ∀ errand ∈ w.retrievals id, errand.flight = none → errand.uri.edition ∉ requested
  /-- The listener was told of newer and newer editions. -/
  ascending : told.Pairwise (· < ·)
  /-- What the listener was told of is done with. -/
  settled : ∀ errand ∈ w.retrievals id, errand.uri.edition ∉ told
  /-- The feed has gone for everything that errands were sent for. -/
  bounded : ∀ errand ∈ w.retrievals id, some errand.uri.edition ≤ w.latest id
  requested_bounded : ∀ e ∈ requested, some e ≤ w.latest id
  told_bounded : ∀ e ∈ told, some e ≤ w.latest id

namespace FeedLedger

variable {requested told : List Edition}

/-- Errands for one edition are one errand. -/
theorem eq_of_edition (h : FeedLedger id requested told w) {other : Errand}
    (mem : errand ∈ w.retrievals id) (mem' : other ∈ w.retrievals id)
    (same : other.uri.edition = errand.uri.edition) : other = errand := by
  have hdistinct : ((w.retrievals id).map fun errand => errand.uri.edition).Nodup :=
    List.pairwise_map.mpr (h.rising.imp UInt64.ne_of_lt)
  exact List.inj_on_of_nodup_map hdistinct mem' mem same

/-- What attends to a feed keeps its ledger. -/
theorem attends (h : FeedLedger id requested told w) (attends : Attends id w v) :
    FeedLedger id requested told v := by
  cases attends with
  | loses latest fewer =>
    exact {
      rising := h.rising.sublist fewer
      once := h.once
      unbegun := fun errand mem => h.unbegun errand (fewer.subset mem)
      ascending := h.ascending
      settled := fun errand mem => h.settled errand (fewer.subset mem)
      bounded := fun errand mem => latest ▸ h.bounded errand (fewer.subset mem)
      requested_bounded := fun e mem => latest ▸ h.requested_bounded e mem
      told_bounded := fun e mem => latest ▸ h.told_bounded e mem }
  | misses e running newer latest errands =>
    have hle (old : Edition) (hold : some old ≤ w.latest id) : some old ≤ v.latest id :=
      latest ▸ slot_le_trans hold (le_of_isAbove newer)
    exact {
      rising := errands ▸ h.rising
      once := h.once
      unbegun := errands ▸ h.unbegun
      ascending := h.ascending
      settled := errands ▸ h.settled
      bounded := fun errand mem => hle _ (h.bounded errand (errands ▸ mem))
      requested_bounded := fun e mem => hle _ (h.requested_bounded e mem)
      told_bounded := fun e mem => hle _ (h.told_bounded e mem) }
  | sends number uri running newer latest errands =>
    have hlt (old : Edition) (hold : some old ≤ w.latest id) : old < uri.edition :=
      Frontier.lt_of_isAbove (isAbove_of_le hold newer)
    have hle (old : Edition) (hold : some old ≤ w.latest id) : some old ≤ v.latest id :=
      latest ▸ slot_le_trans hold (le_of_isAbove newer)
    -- The errand that is sent is for a newer edition than all that was there.
    have hcases (errand : Errand) (mem : errand ∈ v.retrievals id) :
        errand ∈ w.retrievals id ∨ errand.uri.edition = uri.edition := by
      rw [errands] at mem
      rcases List.mem_append.mp mem with hold | hnew
      · exact .inl hold
      · exact .inr (by rw [List.mem_singleton.mp hnew])
    have hnew (l : List Edition) (hl : ∀ e ∈ l, some e ≤ w.latest id) : uri.edition ∉ l :=
      fun mem => UInt64.lt_irrefl _ (hlt _ (hl _ mem))
    exact {
      rising := by
        rw [errands, List.pairwise_append]
        refine ⟨h.rising, List.pairwise_singleton _ _, fun errand mem later mem' => ?_⟩
        rw [List.mem_singleton.mp mem']
        exact hlt _ (h.bounded errand mem)
      once := h.once
      unbegun := fun errand mem flight => by
        rcases hcases errand mem with hold | he
        · exact h.unbegun errand hold flight
        · exact he ▸ hnew _ h.requested_bounded
      ascending := h.ascending
      settled := fun errand mem => by
        rcases hcases errand mem with hold | he
        · exact h.settled errand hold
        · exact he ▸ hnew _ h.told_bounded
      bounded := fun errand mem => by
        rcases hcases errand mem with hold | he
        · exact hle _ (h.bounded errand hold)
        · rw [he, latest]
          exact slot_le_refl _
      requested_bounded := fun e mem => hle _ (h.requested_bounded e mem)
      told_bounded := fun e mem => hle _ (h.told_bounded e mem) }

end FeedLedger

/-- In its turn an errand changes none of the editions that errands are for. -/
theorem Outcome.uris (h : Outcome w errand id v) :
    ((v.retrievals id).map Errand.uri).Sublist ((w.retrievals id).map Errand.uri) := by
  have hfilter (errands : v.errands = w.errands.filter fun other => other.id ≠ errand.id) :
      ((v.retrievals id).map Errand.uri).Sublist ((w.retrievals id).map Errand.uri) := by
    rw [retrievals, errands]
    exact (List.filter_sublist.filter _).map _
  cases h with
  | drops unheard news errands => exact hfilter errands
  | tells reply feed heard found newest news errands => exact hfilter errands
  | waits unheard before useful same => rw [same]
  | departs flight unheard news before useful errands =>
    have hsame : v.retrievals id = (w.retrievals id).map (·.departed errand.id flight) :=
      (retrievals_congr errands id).trans (retrievals_depart w errand.id flight id)
    have huri (other : Errand) : (other.departed errand.id flight).uri = other.uri := by
      unfold Errand.departed
      split <;> rfl
    rw [hsame, List.map_map]
    simp only [Function.comp_def, huri]
    exact List.Sublist.refl _

/-- Whatever is retrieved after the turn of an errand was so before. -/
theorem Outcome.errand_before (h : Outcome w errand id v) {other : Errand}
    (mem : other ∈ v.retrievals id) : ∃ old ∈ w.retrievals id, old.uri = other.uri :=
  List.mem_map.mp (h.uris.subset (List.mem_map_of_mem mem))

/-- An errand that is given up is retrieved no more. -/
theorem mem_retrievals_of_filter
    (errands : v.errands = w.errands.filter fun other => other.id ≠ errand.id) {other : Errand}
    (mem : other ∈ v.retrievals id) : other ∈ w.retrievals id ∧ other ≠ errand := by
  obtain ⟨hmem, hpurpose⟩ := mem_retrievals_iff.mp mem
  rw [errands] at hmem
  obtain ⟨hold, hid⟩ := List.mem_filter.mp hmem
  exact ⟨mem_retrievals_iff.mpr ⟨hold, hpurpose⟩, fun he => of_decide_eq_true hid (he ▸ rfl)⟩

/-- The errands that are yet to begin after the turn of one were there before, and are others. -/
theorem Outcome.unbegun (h : Outcome w errand id v) {other : Errand}
    (mem : other ∈ v.retrievals id) (flight : other.flight = none) :
    other ∈ w.retrievals id ∧ other ≠ errand := by
  cases h with
  | drops unheard news errands => exact mem_retrievals_of_filter errands mem
  | tells reply feed heard found newest news errands => exact mem_retrievals_of_filter errands mem
  | waits unheard before useful same =>
    rw [same] at mem
    exact ⟨mem, fun he => before (he ▸ flight)⟩
  | departs sent unheard news before useful errands =>
    have hsame : v.retrievals id = (w.retrievals id).map (·.departed errand.id sent) :=
      (retrievals_congr errands id).trans (retrievals_depart w errand.id sent id)
    rw [hsame] at mem
    obtain ⟨old, hold, rfl⟩ := List.mem_map.mp mem
    unfold Errand.departed at flight ⊢
    split at flight
    case isTrue => cases flight
    case isFalse hid =>
      rw [if_neg hid]
      exact ⟨hold, fun he => hid (he ▸ rfl)⟩

/-- An errand takes a reply only for the newest edition, and it is over then. -/
theorem Outcome.heard (h : Outcome w errand id v) :
    w.replyTo errand = none ∨
      (w.replyTo errand).isSome ∧ w.latest id = some errand.uri.edition ∧
        ∀ other ∈ v.retrievals id, other ∈ w.retrievals id ∧ other ≠ errand := by
  cases h with
  | drops unheard news errands => exact .inl unheard
  | departs flight unheard news before useful errands => exact .inl unheard
  | waits unheard before useful same => exact .inl unheard
  | tells reply feed heard found newest news errands =>
    exact .inr ⟨heard ▸ rfl, newest, fun _ => mem_retrievals_of_filter errands⟩

namespace FeedLedger

variable {requested told : List Edition}

/-- What the listener is told of in a turn of an errand is newer than all it was told of before,
and done with. -/
theorem told_turn (h : FeedLedger id requested told w) (mem : errand ∈ w.retrievals id)
    (outcome : Outcome w errand id v) :
    (told ++ if (w.replyTo errand).isSome then [errand.uri.edition] else []).Pairwise (· < ·) ∧
      ∀ other ∈ v.retrievals id, other.uri.edition ∉
        told ++ if (w.replyTo errand).isSome then [errand.uri.edition] else [] := by
  rcases outcome.heard with hnone | ⟨hsome, hnewest, hothers⟩
  · rw [hnone, Option.isSome_none, if_neg Bool.false_ne_true, List.append_nil]
    refine ⟨h.ascending, fun other hother => ?_⟩
    obtain ⟨old, hmem, huri⟩ := outcome.errand_before hother
    exact huri ▸ h.settled old hmem
  · rw [if_pos hsome]
    refine ⟨List.pairwise_append.mpr ⟨h.ascending, List.pairwise_singleton _ _, ?_⟩, ?_⟩
    · intro e he e' he'
      rw [List.mem_singleton.mp he']
      have hle : e ≤ errand.uri.edition :=
        Option.some_le_some.mp (hnewest ▸ h.told_bounded e he)
      exact UInt64.lt_of_le_of_ne hle fun hsame => h.settled errand mem (hsame ▸ he)
    · intro other hother
      obtain ⟨hbefore, hne⟩ := hothers other hother
      rw [List.mem_append, not_or]
      exact ⟨h.settled other hbefore,
        fun he => hne (h.eq_of_edition mem hbefore (List.mem_singleton.mp he))⟩

/-- The turn of an errand enters in the ledger what it requests and what it tells. -/
theorem turn (h : FeedLedger id requested told w) (mem : errand ∈ w.retrievals id)
    (feeds : v.feeds = w.feeds) (outcome : Outcome w errand id v) :
    FeedLedger id (requested ++ if errand.flight.isNone then [errand.uri.edition] else [])
      (told ++ if (w.replyTo errand).isSome then [errand.uri.edition] else []) v := by
  have hlatest : v.latest id = w.latest id := by rw [latest, latest, feeds]
  have hmore {l : List Edition} {asks : Bool} (hl : ∀ e ∈ l, some e ≤ w.latest id) :
      ∀ e ∈ l ++ (if asks then [errand.uri.edition] else []), some e ≤ v.latest id := by
    intro e he
    rw [hlatest]
    rcases List.mem_append.mp he with hbefore | hnew
    · exact hl e hbefore
    · split at hnew
      · rw [List.mem_singleton.mp hnew]
        exact h.bounded errand mem
      · cases hnew
  have htold := h.told_turn mem outcome
  exact {
    rising := by
      have hrising : ((w.retrievals id).map Errand.uri).Pairwise
          fun uri later => uri.edition < later.edition := List.pairwise_map.mpr h.rising
      have hfewer := hrising.sublist outcome.uris
      rwa [List.pairwise_map] at hfewer
    once := by
      cases hflight : errand.flight with
      | some flight => simpa using h.once
      | none =>
        refine List.nodup_append.mpr ⟨h.once, List.nodup_singleton _, fun e he e' he' => ?_⟩
        rw [List.mem_singleton.mp he']
        exact fun hsame => h.unbegun errand mem hflight (hsame ▸ he)
    unbegun := fun other hother flight => by
      obtain ⟨hbefore, hne⟩ := outcome.unbegun hother flight
      rw [List.mem_append, not_or]
      refine ⟨h.unbegun other hbefore flight, fun he => ?_⟩
      split at he
      · exact hne (h.eq_of_edition mem hbefore (List.mem_singleton.mp he))
      · cases he
    ascending := htold.1
    settled := htold.2
    bounded := fun other hother => by
      obtain ⟨old, hmem, huri⟩ := outcome.errand_before hother
      rw [hlatest, ← huri]
      exact h.bounded old hmem
    requested_bounded := hmore h.requested_bounded
    told_bounded := hmore h.told_bounded }

/-- An action enters in the ledger what it requests and what it tells. -/
theorem act (h : FeedLedger id requested told w) (numbered : w.Numbered) (action : Action) :
    FeedLedger id (requested ++ (requests? id w action).toList.map fun uri => uri.edition)
      (told ++ (tells? id w action).toList.map fun news => news.1.edition) (w.act action) := by
  cases hturn : w.turnFor? id action with
  | none =>
    simp only [requests?, tells?, hturn, Option.bind_none, Option.toList_none, List.map_nil,
      List.append_nil]
    exact keep_act numbered (fun _ _ attends _ h => FeedLedger.attends h attends) hturn h
  | some errand =>
    obtain ⟨hmem, -, hact⟩ := act_of_turnFor? hturn
    obtain ⟨hfeeds, houtcome⟩ := stepErrand_outcome numbered hmem
    have hrequest : ((requests? id w action).toList.map fun uri => uri.edition) =
        if errand.flight.isNone then [errand.uri.edition] else [] := by
      rw [requests?, hturn]
      cases hflight : errand.flight <;> simp [hflight]
    have htell : ((tells? id w action).toList.map fun news => news.1.edition) =
        if (w.replyTo errand).isSome then [errand.uri.edition] else [] := by
      rw [tells?, hturn]
      cases hreply : w.replyTo errand <;> simp [hreply]
    rw [hact, hrequest, htell]
    exact h.turn hmem hfeeds houtcome

/-- A run enters in the ledger what it requests and what it tells. -/
theorem run (h : FeedLedger id requested told w) (numbered : w.Numbered) (actions : List Action) :
    FeedLedger id (requested ++ (along (requests? id) w actions).map fun uri => uri.edition)
      (told ++ (along (tells? id) w actions).map fun news => news.1.edition) (w.run actions) := by
  induction actions generalizing w requested told with
  | nil => simpa [along] using h
  | cons action rest ih =>
    have hrest := ih (h.act numbered action) (numbered_act numbered action)
    rwa [List.append_assoc, List.append_assoc, ← List.map_append, ← List.map_append] at hrest

end FeedLedger

/-- The first ledger of a feed is empty. -/
theorem feedLedger_initial (settings : Settings) (listeners : List Listener) (id : FeedId) :
    FeedLedger id [] [] (initial settings listeners) where
  rising := List.Pairwise.nil
  once := List.nodup_nil
  unbegun _ mem := absurd mem List.not_mem_nil
  ascending := List.Pairwise.nil
  settled _ mem := absurd mem List.not_mem_nil
  bounded _ mem := absurd mem List.not_mem_nil
  requested_bounded _ mem := absurd mem List.not_mem_nil
  told_bounded _ mem := absurd mem List.not_mem_nil

/-- After every run, the ledger of a feed holds what was requested and told in it. -/
theorem feedLedger_run (settings : Settings) (listeners : List Listener) (actions : List Action)
    (id : FeedId) :
    FeedLedger id
      ((along (requests? id) (initial settings listeners) actions).map fun uri => uri.edition)
      ((along (tells? id) (initial settings listeners) actions).map fun news => news.1.edition)
      ((initial settings listeners).run actions) :=
  (feedLedger_initial settings listeners id).run (numbered_run settings listeners []) actions

/-! ## What a listener hears -/

/-- What an action tells a feed is the reply to an errand that has its turn. -/
theorem tells?_eq_some_iff {action : Action} {uri : EditionUri} {reply : Reply} :
    tells? id w action = some (uri, reply) ↔
      ∃ errand, w.turnFor? id action = some errand ∧ w.replyTo errand = some reply ∧
        errand.uri = uri := by
  simp [tells?, Option.bind_eq_some_iff]

/-- All that listeners of content hear is what the feeds have to tell them. -/
theorem contentNews_act (numbered : w.Numbered) (action : Action) :
    ((∀ id, tells? id w action = none) → (w.act action).contentNews = w.contentNews) ∧
      ∀ id uri reply, tells? id w action = some (uri, reply) → ∃ feed, w.feeds[id]? = some feed ∧
        (w.act action).contentNews = w.contentNews ++ feed.news uri reply := by
  constructor
  · intro hnone
    cases houtside : action.isOutside with
    | true => rw [contentNews, (alike_act houtside).journal, contentNews]
    | false =>
      cases hbears : w.bears action with
      | false =>
        have heffects := effects_act numbered houtside
        rw [hbears] at heffects
        exact heffects.keep (P := fun v => v.contentNews = w.contentNews)
          (fun _ _ effect h => (contentNews_effect effect).trans h) rfl
      | true =>
        obtain ⟨id, errand, hturn⟩ := turnFor?_of_bears numbered hbears
        obtain ⟨hmem, -, hact⟩ := act_of_turnFor? hturn
        rw [hact]
        cases (stepErrand_outcome numbered hmem).2 with
        | drops unheard news errands => exact news
        | departs flight unheard news before useful errands => exact news
        | waits unheard before useful same => rw [same]
        | tells reply feed heard found newest news errands =>
          have htells := tells?_eq_some_iff.mpr ⟨errand, hturn, heard, rfl⟩
          rw [hnone id] at htells
          cases htells
  · intro id uri reply htells
    obtain ⟨errand, hturn, hreply, rfl⟩ := tells?_eq_some_iff.mp htells
    obtain ⟨hmem, -, hact⟩ := act_of_turnFor? hturn
    rw [hact]
    cases (stepErrand_outcome numbered hmem).2 with
    | tells reply' feed heard found newest news errands =>
      rw [hreply, Option.some.injEq] at heard
      exact ⟨feed, found, heard ▸ news⟩
    | drops unheard => rw [hreply] at unheard; cases unheard
    | departs flight unheard => rw [hreply] at unheard; cases unheard
    | waits unheard => rw [hreply] at unheard; cases unheard

/-- The fetch of an errand leaves the roster sound. -/
theorem sound_fetchFor (sound : w.roster.Sound) (errand : Errand) :
    (w.fetchFor errand).watch.roster.Sound := by
  unfold fetchFor
  split
  · have hissue : Leads false w [] (w.issue ⟨errand.purpose.fetches, errand.uri⟩).watch :=
      leads_issue w _
    obtain ⟨changes, hsteps, -⟩ := hissue
    exact sound.steps hsteps
  · exact sound

/-- As long as someone holds the watch, content that was fetched is known to be good once its
errand is done. -/
theorem some_le_good_conclude (purpose : errand.purpose = .retrieval id) {feed : ContentFeed}
    (found : w.feeds[id]? = some feed) (alive : w.isAlive = true) :
    some errand.uri.edition ≤
      ((w.conclude errand .data).records.frontier errand.uri.key).good := by
  have hconclude : (w.conclude errand .data).records = (w.noteGood errand.uri).records := by
    unfold conclude
    simp only [purpose, found, bringContent, alive, if_true]
    rfl
  have hnoted := some_le_good_noteGood w.records w.now errand.uri
  rw [hconclude, noteGood]
  rcases records_flush { w with records := w.records.noteGood w.now errand.uri } with hf | hf
  · rw [hf]
    exact hnoted
  · rw [hf]
    exact hnoted

/-- Content that a listener hears of is known to be good by then. -/
theorem some_le_good_of_tells (sound : w.roster.Sound) (numbered : w.Numbered) {action : Action}
    {uri : EditionUri} (tells : tells? id w action = some (uri, .data)) :
    some uri.edition ≤ ((w.act action).records.frontier uri.key).good := by
  obtain ⟨errand, hturn, hreply, rfl⟩ := tells?_eq_some_iff.mp tells
  obtain ⟨hmem, -, hact⟩ := act_of_turnFor? hturn
  obtain ⟨hin, purpose⟩ := mem_retrievals_iff.mp hmem
  let fetching := (w.fetchFor errand).watch
  have huse : fetching.isPointless errand = false := useful_of_replyTo hreply
  obtain ⟨hrunning, feed, hfeed, -, -⟩ := (isPointless_eq_false_iff purpose).mp huse
  -- Nothing is stopped yet, so someone holds the watch, and the content is noted.
  have halive : fetching.isAlive = true := (sound_fetchFor sound errand).alive_of_running hrunning
  have hgood := some_le_good_conclude purpose hfeed halive
  rw [hact, stepErrand_eq (numbered.find?_eq hin)]
  dsimp only
  rw [hreply]
  dsimp only
  unfold dismiss reap
  split
  · exact hgood
  · exact hgood

/-! ## Feeds that are closed -/

/-- A feed that was closed goes for nothing from one watch to the other, and no errand is sent for
it. -/
structure Idles (id : FeedId) (w v : Watch) : Prop where
  closed : v.IsClosed id
  latest : v.latest id = w.latest id
  errands : ∀ errand ∈ v.retrievals id, errand ∈ w.retrievals id

/-- A feed that idles does so still after what attends to it, as long as it stays closed. -/
theorem Idles.attends (h : Idles id w v) (attends : Attends id v u)
    (closing : v.IsClosed id → u.IsClosed id) : Idles id w u := by
  have hclosed := closing h.closed
  cases attends with
  | loses latest fewer =>
    exact ⟨hclosed, latest.trans h.latest, fun errand mem => h.errands errand (fewer.subset mem)⟩
  | sends number uri running newer latest errands => exact absurd h.closed running
  | misses e running newer latest errands => exact absurd h.closed running

/-- The turn of an errand for a feed that is closed is its last, and no reply is taken in it. -/
theorem stepErrand_of_isClosed (numbered : w.Numbered) (mem : errand ∈ w.retrievals id)
    (closed : w.IsClosed id) :
    (w.fetchFor errand).watch.isPointless errand = true ∧ w.replyTo errand = none ∧
      (w.stepErrand errand.id).watch.errands =
        w.errands.filter fun other => other.id ≠ errand.id := by
  obtain ⟨-, purpose⟩ := mem_retrievals_iff.mp mem
  have hclosed : (w.fetchFor errand).watch.IsClosed id := by
    unfold fetchFor
    split
    · let request : Request := ⟨errand.purpose.fetches, errand.uri⟩
      have hissue : Effects none false w (w.issue request).watch := Effects.issue w request
      exact hissue.keep (fun _ _ effect => isClosed_effect effect) closed
    · exact closed
  have hpointless := isPointless_of_isClosed purpose hclosed
  have hunheard : w.replyTo errand = none := by
    rw [replyTo]
    exact if_pos hpointless
  refine ⟨hpointless, hunheard, ?_⟩
  cases (stepErrand_outcome numbered mem).2 with
  | drops unheard news errands => exact errands
  | departs flight unheard news before useful => rw [hpointless] at useful; cases useful
  | waits unheard before useful => rw [hpointless] at useful; cases useful
  | tells reply feed heard => rw [hunheard] at heard; cases heard

/-- A feed that is closed idles in every action. -/
theorem idles_act (numbered : w.Numbered) (closed : w.IsClosed id) (action : Action) :
    Idles id w (w.act action) := by
  have hsame : Idles id w w := ⟨closed, rfl, fun _ mem => mem⟩
  cases hturn : w.turnFor? id action with
  | none =>
    exact keep_act numbered (fun _ _ attends closing h => h.attends attends closing) hturn hsame
  | some errand =>
    have hclosed := isClosed_act numbered action closed
    obtain ⟨hmem, -, hact⟩ := act_of_turnFor? hturn
    obtain ⟨-, -, herrands⟩ := stepErrand_of_isClosed numbered hmem closed
    have hfeeds := (stepErrand_outcome numbered hmem).1
    rw [hact] at hclosed ⊢
    refine ⟨hclosed, by rw [latest, latest, hfeeds], fun other hother => ?_⟩
    exact (mem_retrievals_of_filter herrands hother).1

/-- What an errand does in a turn once its feed is closed: it takes no reply, and it is gone after
the turn, even if it issued its fetch only in this turn. -/
structure LastTurn (w : Watch) (errand : Errand) (v : Watch) : Prop where
  pointless : (w.fetchFor errand).watch.isPointless errand = true
  unheard : w.replyTo errand = none
  gone : v.errands = w.errands.filter fun other => other.id ≠ errand.id

/-- An errand for a feed that is closed has its last turn. -/
theorem lastTurn_of_isClosed (numbered : w.Numbered) (closed : w.IsClosed id) {action : Action}
    (turn : w.turnFor? id action = some errand) : w.LastTurn errand (w.act action) := by
  obtain ⟨hmem, -, hact⟩ := act_of_turnFor? turn
  obtain ⟨hpointless, hunheard, herrands⟩ := stepErrand_of_isClosed numbered hmem closed
  exact ⟨hpointless, hunheard, hact ▸ herrands⟩

/-- No more content comes to a feed along some actions. -/
structure Silent (id : FeedId) (w : Watch) (later : List Action) : Prop where
  /-- The listener of the feed hears of nothing. -/
  told : along (tells? id) w later = []
  /-- What is still requested is for an errand that had yet to begin. -/
  requested : ∀ uri ∈ along (requests? id) w later,
    ∃ errand ∈ w.retrievals id, errand.flight = none ∧ errand.uri = uri
  /-- Each turn of an errand is its last, so what it requests it drops at once. -/
  dropped : ∀ early action late errand, later = early ++ action :: late →
    (w.run early).turnFor? id action = some errand →
      (w.run early).LastTurn errand ((w.run early).act action)
  /-- The feed goes for nothing, whatever was found. -/
  idles : Idles id w (w.run later)
  /-- The errands that are left are of no use, and the next turn of each is its last. -/
  lasts : ∀ errand ∈ (w.run later).retrievals id, (w.run later).isPointless errand = true ∧
    errand ∉ ((w.run later).act (.work (.errand errand.id))).retrievals id

/-- A feed that is closed is silent as long as nothing happens. -/
theorem silent_nil (numbered : w.Numbered) (closed : w.IsClosed id) : Silent id w [] where
  told := rfl
  requested _ mem := absurd mem List.not_mem_nil
  dropped _ _ _ _ split := absurd split.symm (List.append_ne_nil_of_right_ne_nil _ nofun)
  idles := ⟨closed, rfl, fun _ mem => mem⟩
  lasts errand mem := by
    refine ⟨isPointless_of_isClosed (mem_retrievals_iff.mp mem).2 closed, fun hleft => ?_⟩
    obtain ⟨-, -, herrands⟩ := stepErrand_of_isClosed numbered mem closed
    exact (mem_retrievals_of_filter herrands hleft).2 rfl

/-- A feed that is closed is silent whatever happens later. -/
theorem silent_run (numbered : w.Numbered) (closed : w.IsClosed id) (later : List Action) :
    Silent id w later := by
  induction later generalizing w with
  | nil => exact silent_nil numbered closed
  | cons action rest ih =>
    have hidles := idles_act numbered closed action
    have hrest := ih (numbered_act numbered action) hidles.closed
    have hfirst : tells? id w action = none ∧
        ∀ uri, requests? id w action = some uri →
          ∃ errand ∈ w.retrievals id, errand.flight = none ∧ errand.uri = uri := by
      unfold tells? requests?
      cases hturn : w.turnFor? id action with
      | none => exact ⟨rfl, fun _ h => by cases h⟩
      | some errand =>
        have hunheard := (lastTurn_of_isClosed numbered closed hturn).unheard
        refine ⟨by simp [hunheard], fun uri huri => ?_⟩
        have hnew : errand.flight = none ∧ errand.uri = uri := by simpa using huri
        exact ⟨errand, (act_of_turnFor? hturn).1, hnew⟩
    exact {
      told := by rw [along, hfirst.1, hrest.told]; rfl
      requested := fun uri mem => by
        rcases List.mem_append.mp mem with hnow | hlater
        · exact hfirst.2 uri (Option.mem_toList.mp hnow)
        · obtain ⟨errand, hmem, hnew⟩ := hrest.requested uri hlater
          exact ⟨errand, hidles.errands errand hmem, hnew⟩
      dropped := fun early other late errand split turn => by
        cases early with
        | nil =>
          obtain ⟨rfl, rfl⟩ := List.cons.inj split
          exact lastTurn_of_isClosed numbered closed turn
        | cons first early =>
          obtain ⟨rfl, hsplit⟩ := List.cons.inj split
          exact hrest.dropped early other late errand hsplit turn
      idles := ⟨hrest.idles.closed, hrest.idles.latest.trans hidles.latest,
        fun errand mem => hidles.errands errand (hrest.idles.errands errand mem)⟩
      lasts := hrest.lasts }

/-- Whether an action closes a feed: it ends the subscription of the feed, or stops everything. -/
def ClosesFeed (w : Watch) (id : FeedId) : Action → Prop
  | .shutdown => True
  | .unsubscribeContent s => s.feed = id ∧ id < w.feeds.length
  | _ => False

/-- A call that closes a feed leaves it closed. -/
theorem isClosed_of_closesFeed (held : w.held = true) {action : Action}
    (closes : w.ClosesFeed id action) : (w.act action).IsClosed id := by
  cases action with
  | shutdown =>
    rw [act_of_held held, perform, shutdown, cancelPollers_eq]
    exact .inl rfl
  | unsubscribeContent s =>
    obtain ⟨rfl, hlt⟩ := closes
    have hfeeds : (w.act (.unsubscribeContent s)).feeds =
        w.feeds.modify s.feed fun f => { f with cancelled := true } := by
      rw [act_of_held held, perform, unsubscribeContent, unsubscribe, cancelPollers_eq]
      rfl
    refine .inr ⟨{ w.feeds[s.feed] with cancelled := true }, ?_, rfl⟩
    rw [hfeeds, List.getElem?_modify, List.getElem?_eq_getElem hlt]
    simp
  | _ => cases closes

/-! ## Content comes newest first and once -/

/-- Whatever happens to a watch, of the errands for a feed one at most is of use, the one for the
newest edition that the feed went for. No edition is requested twice for a feed, and its listener
hears of newer and newer editions; of content only when the edition is known to be good. Listeners
hear of nothing else, and the errands of a feed fetch what they request. Once a feed was closed its
listener hears of nothing more, and no errand is sent for content. An errand that had yet to begin
by then still issues its fetch when it takes its turn, and drops it in the same turn. -/
theorem content_exact (settings : Settings) (listeners : List Listener) (actions : List Action)
    (id : FeedId) :
    let start := initial settings listeners
    let w := start.run actions
    (∀ errand ∈ w.retrievals id, w.isPointless errand = false →
      w.latest id = some errand.uri.edition ∧
        ∀ other ∈ w.retrievals id, w.isPointless other = false → other = errand) ∧
    ((along (requests? id) start actions).map fun uri => uri.edition).Nodup ∧
    ((along (tells? id) start actions).map fun news => news.1.edition).Pairwise (· < ·) ∧
    (∀ action uri, tells? id w action = some (uri, .data) → ∃ good,
      ((w.act action).records.frontier uri.key).good = some good ∧ uri.edition ≤ good) ∧
    (∀ action,
      ((∀ id, tells? id w action = none) → (w.act action).contentNews = w.contentNews) ∧
      ∀ uri reply, tells? id w action = some (uri, reply) → ∃ feed, w.feeds[id]? = some feed ∧
        (w.act action).contentNews = w.contentNews ++ feed.news uri reply) ∧
    (∀ action errand, w.turnFor? id action = some errand → (w.act action).fetches =
      w.fetches ++ (requests? id w action).toList.map fun uri => ⟨.content, uri⟩) ∧
    (∀ ending, w.held = true → w.ClosesFeed id ending →
      ∀ later, Silent id (w.act ending) later) := by
  intro start w
  have hnumbered : w.Numbered := numbered_run settings listeners actions
  have hledger := feedLedger_run settings listeners actions id
  refine ⟨fun errand mem useful => ?_, hledger.once, hledger.ascending, fun action uri tells => ?_,
    fun action => ?_, fun action errand turn => fetches_act hnumbered turn,
    fun ending held closes later => ?_⟩
  · have hnewest (other : Errand) (hother : other ∈ w.retrievals id)
        (huse : w.isPointless other = false) : w.latest id = some other.uri.edition := by
      obtain ⟨-, feed, hfeed, -, hlatest⟩ :=
        (isPointless_eq_false_iff (mem_retrievals_iff.mp hother).2).mp huse
      rw [latest, hfeed, Option.bind_some, hlatest]
    refine ⟨hnewest errand mem useful, fun other hother huse => ?_⟩
    refine hledger.eq_of_edition mem hother ?_
    have hsame := (hnewest other hother huse).symm.trans (hnewest errand mem useful)
    exact Option.some.inj hsame
  · have hgood := some_le_good_of_tells (sound_run settings listeners actions) hnumbered tells
    cases hknown : ((w.act action).records.frontier uri.key).good with
    | none =>
      rw [hknown] at hgood
      exact absurd hgood Option.not_some_le_none
    | some good =>
      rw [hknown] at hgood
      exact ⟨good, rfl, Option.some_le_some.mp hgood⟩
  · obtain ⟨hunheard, hheard⟩ := contentNews_act hnumbered action
    exact ⟨hunheard, hheard id⟩
  · exact silent_run (numbered_act hnumbered ending) (isClosed_of_closesFeed held closes) later

/-- The second edition that was found supersedes the first one. Its content is told of, and once
the feed is unsubscribed nothing comes of the third edition. -/
theorem content_exact_of_three_editions :
    let notes : DocumentKey := ⟨.uniform 7, "notes"⟩
    let network : Network := ⟨[⟨notes, 0, 9, some .data, some .data, []⟩], 0, 0⟩
    let find (e : Edition) : List Action := [.noteSlot ⟨notes, e⟩, .work .delivery, .work .delivery]
    let actions : List Action :=
      [.setNetwork network, .subscribeContent notes "ann" false {}] ++ find 1 ++ find 2
    let second : EditionUri := ⟨notes, 2⟩
    let turn : Action := .work (.errand 1)
    let ending : Action := .unsubscribeContent ⟨⟨notes, 0, false⟩, 0⟩
    let w := (initial .standard []).run actions
    (∃ errand ∈ w.retrievals 0, w.isPointless errand = false ∧
      w.latest 0 = some errand.uri.edition ∧
        ∀ other ∈ w.retrievals 0, w.isPointless other = false → other = errand) ∧
      (w.act turn).contentNews = [.content "ann" second] ∧
      (∃ good, ((w.act turn).records.frontier second.key).good = some good ∧
        second.edition ≤ good) ∧
      w.held = true ∧ w.ClosesFeed 0 ending ∧ Silent 0 (w.act ending) (find 3) := by
  intro notes network find actions second turn ending
  obtain ⟨huse, -, -, hgood, hheard, -, hend⟩ := content_exact .standard [] actions 0
  intro w
  have hbegins : (w.turnFor? 0 turn).any fun errand => !w.isPointless errand := by decide
  obtain ⟨errand, hturn, huseful⟩ := (Option.any_eq_true _ _).mp hbegins
  rw [Bool.not_eq_true'] at huseful
  have hmem := (act_of_turnFor? hturn).1
  have htells : tells? 0 w turn = some (second, .data) := by decide
  obtain ⟨feed, hfeed, hnews⟩ := (hheard turn).2 second .data htells
  have hann : (w.feeds[0]?).map ContentFeed.listener = some "ann" := by decide
  have hlistener : feed.listener = "ann" :=
    Option.some.inj ((congrArg (Option.map ContentFeed.listener) hfeed).symm.trans hann)
  have htold : feed.news second .data = [.content "ann" second] := by
    rw [ContentFeed.news, hlistener]
  have hunheard : w.contentNews = [] := by decide
  have hheld : w.held = true := by decide
  have hcloses : w.ClosesFeed 0 ending := ⟨rfl, by decide⟩
  refine ⟨⟨errand, hmem, huseful, huse errand hmem huseful⟩, ?_, ?_, hheld, hcloses, ?_⟩
  · exact hnews.trans (congrArg₂ (· ++ ·) hunheard htold)
  · exact hgood turn second htells
  · exact hend ending hheld hcloses (find 3)

/-- Two ways to close a feed while an errand for it has yet to begin: its subscription ends, or
everything stops. Either way the errand issues its fetch afterwards, though it drops it at once. -/
theorem content_fetched_after_closing :
    let notes : DocumentKey := ⟨.uniform 7, "notes"⟩
    let unsubscribe : Action := .unsubscribeContent ⟨⟨notes, 0, false⟩, 0⟩
    let turn : Action := .work (.errand 0)
    let w := (initial .standard []).run
      [.subscribeContent notes "ann" false {}, .noteSlot ⟨notes, 1⟩, .work .delivery]
    let ended := w.act unsubscribe
    let stopped := w.act .shutdown
    w.held = true ∧ w.ClosesFeed 0 unsubscribe ∧ w.ClosesFeed 0 .shutdown ∧
      (ended.fetches = [] ∧ (ended.act turn).fetches = [⟨.content, ⟨notes, 1⟩⟩] ∧
        (ended.act turn).errands = [] ∧ (ended.act turn).contentNews = []) ∧
      stopped.fetches = [] ∧ (stopped.act turn).fetches = [⟨.content, ⟨notes, 1⟩⟩] ∧
        (stopped.act turn).errands = [] ∧ (stopped.act turn).contentNews = [] := by
  intro notes unsubscribe turn w ended stopped
  refine ⟨by decide, ⟨rfl, by decide⟩, trivial, ⟨by decide, by decide, ?_, by decide⟩, by decide,
    by decide, ?_, by decide⟩
  · exact List.isEmpty_iff.mp (by decide)
  · exact List.isEmpty_iff.mp (by decide)

end Watch

end EditionWatch
