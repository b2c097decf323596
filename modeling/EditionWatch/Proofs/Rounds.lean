import EditionWatch.Proofs.Convergence

/-!
# What a round fetches

A round is taken apart into moves: each takes it one step further, and a fetch is issued and
answered in one of them. What is to come of a round is said without moves: it probes the hints that
are not known, from the newest down to the first that exists, and then one edition after the other,
until the last probes all missed or there were as many as may be. The slot in the end is the newest
of the old slot and the probed editions that exist; and the content of the slot is fetched if the
slot rose and is ahead of the known good edition. Every round comes to just that.
-/

namespace EditionWatch

/-- The edition so many further on; behind the last edition of all there is none. -/
def Edition.after (e : Edition) : Nat → Edition
  | 0 => e
  | n + 1 => Edition.next (e.after n)

namespace Round

/-- A round in progress: where it stands, what is known of its document by now, and what it fetched
so far, in order. -/
structure Progress where
  /-- Where the round stands. -/
  round : Round
  /-- What is known of the document. -/
  frontier : Frontier
  /-- What the round fetched. -/
  fetches : List Request

/-- What comes of a round. -/
structure Report where
  /-- The editions that were probed, in order. -/
  probes : List Edition
  /-- The editions whose content was fetched, in order. -/
  contents : List Edition
  /-- Whether something new was found. -/
  found : Bool
  /-- What is known of the document in the end. -/
  frontier : Frontier

/-- The hints that a round probes: those that are not known, down to the first that exists. -/
def hintProbes (holds : Edition → Bool) (slot : Option Edition) (hints : List Edition) :
    List Edition :=
  let unknown := hints.filter fun e => Frontier.nextUnknown ⟨slot, none⟩ ≤ e
  unknown.takeWhile (fun e => !holds e) ++ (unknown.find? holds).toList

/-- The first editions of a walk. -/
def walkProbes (start : Edition) (n : Nat) : List Edition := (List.range n).map start.after

/-- A walk stops after so many probes: the last ones all missed, or there were as many as may be. -/
def Stops (settings : Settings) (holds : Edition → Bool) (start : Edition) (n : Nat) : Prop :=
  settings.maxProbes.toNat ≤ n ∨ settings.minFailures.toNat ≤ n ∧
    ∀ k, n - settings.minFailures.toNat ≤ k → k < n → holds (start.after k) = false

/-- The newest of a slot and of those among some probed editions that exist. -/
def newest (holds : Edition → Bool) (slot : Option Edition) (probes : List Edition) :
    Option Edition := (slot.toList ++ probes.filter holds).max?

end Round

namespace Course

variable (c : Course)

/-- Whether an edition of the document exists. -/
def holds (e : Edition) : Bool := c.network.holds c.key e

/-- Whether fetching the content of an edition brings it. -/
def brings (e : Edition) : Bool := c.network.reply ⟨.content, ⟨c.key, e⟩⟩ = some .data

/-- The fetch of a block. -/
def block (e : Edition) : Request := ⟨.block, ⟨c.key, e⟩⟩

/-- The fetch of content. -/
def content (e : Edition) : Request := ⟨.content, ⟨c.key, e⟩⟩

/-- A round one move further. -/
def move (s : Round.Progress) : Round.Progress :=
  match s.round with
  | .opening hints => { s with round := .selectHints s.frontier hints }
  | .hinting [] => { s with round := .aligning false }
  | .hinting (e :: hints) => { s with round := .tryHint s.frontier e hints }
  | .askingHint e hints =>
    if c.holds e then
      ⟨.aligning (isAbove e s.frontier.slot), { s.frontier with slot := raised s.frontier.slot e },
        s.fetches ++ [c.block e]⟩
    else ⟨.hinting hints, s.frontier, s.fetches ++ [c.block e]⟩
  | .aligning found => { s with round := .align s.frontier c.origin found }
  | .walking found e misses probes =>
    { s with round := .proceed c.settings found e misses probes }
  | .asking found e misses probes =>
    if c.holds e then
      ⟨.hit found (isAbove e s.frontier.slot) e probes,
        { s.frontier with slot := raised s.frontier.slot e }, s.fetches ++ [c.block e]⟩
    else ⟨.miss found e misses probes, s.frontier, s.fetches ++ [c.block e]⟩
  | .confirming => { s with round := .confirm s.frontier }
  | .fetching e =>
    ⟨.over true,
      if c.brings e then ⟨raised s.frontier.slot e, raised s.frontier.good e⟩ else s.frontier,
      s.fetches ++ [c.content e]⟩
  | .over _ => s

/-- A round so many moves further. -/
def moves (s : Round.Progress) : Nat → Round.Progress
  | 0 => s
  | n + 1 => moves (c.move s) n

/-- What is to come of a round with these hints if so much is known of the document before. -/
structure Scans (before : Frontier) (hints : List Edition) (report : Round.Report) : Prop where
  /-- It probes hints, and then it walks from the first edition that is unknown by then, or from
  the origin if that is further on, to where a walk stops first. -/
  probes : ∃ n, let hinted := Round.hintProbes c.holds before.slot hints
    let start := Round.walkStart (Round.newest c.holds before.slot hinted) c.origin
    report.probes = hinted ++ Round.walkProbes start n ∧
      Round.Stops c.settings c.holds start n ∧ ∀ m < n, ¬Round.Stops c.settings c.holds start m
  /-- The slot in the end is the newest edition. -/
  slot : report.frontier.slot = Round.newest c.holds before.slot report.probes
  /-- Something new was found if the slot rose. -/
  found : report.found = true ↔ before.slot < report.frontier.slot
  /-- The content of the slot is fetched if the slot rose and is ahead of the known good edition. -/
  confirms : before.slot < report.frontier.slot → before.good < report.frontier.slot →
    report.contents = report.frontier.slot.toList
  /-- Else no content is fetched. -/
  rests : ¬(before.slot < report.frontier.slot ∧ before.good < report.frontier.slot) →
    report.contents = []
  /-- If the content was fetched and came, the slot is known good, else nothing changes. -/
  good : report.frontier.good =
    if report.contents.any c.brings then report.frontier.slot else before.good

end Course

/-! ## Newest editions -/

/-- A slot is below an edition that is above it. -/
theorem lt_some_iff {slot : Option Edition} {e : Edition} :
    slot < some e ↔ isAbove e slot = true := by
  cases slot with
  | none => exact iff_of_true Option.none_lt_some rfl
  | some old => exact Option.some_lt_some.trans decide_eq_true_iff.symm

theorem slot_lt_irrefl (slot : Option Edition) : ¬slot < slot := by
  cases slot with
  | none => exact id
  | some e => exact fun h => UInt64.lt_irrefl e (Option.some_lt_some.mp h)

/-- A slot that rose before or rises now is above the one that there was. -/
theorem lt_raised_iff {before slot : Option Edition} (rose : before ≤ slot) (e : Edition) :
    before < raised slot e ↔ before < slot ∨ isAbove e slot = true := by
  cases habove : isAbove e slot with
  | true =>
    rw [raised_of_isAbove habove, lt_some_iff]
    exact iff_of_true (isAbove_of_le rose habove) (.inr rfl)
  | false =>
    rw [raised_of_not_isAbove habove]
    simp

namespace Round

variable {holds : Edition → Bool} {slot : Option Edition} {probes : List Edition} {e : Edition}

theorem newest_nil (holds : Edition → Bool) (slot : Option Edition) :
    newest holds slot [] = slot := by
  cases slot <;> rfl

/-- A probe that finds something may raise the newest edition. -/
theorem newest_concat_of_present (present : holds e = true) :
    newest holds slot (probes ++ [e]) = raised (newest holds slot probes) e := by
  unfold newest
  rw [List.filter_append, List.filter_cons_of_pos present, List.filter_nil, ← List.append_assoc,
    max?_concat]

/-- A probe that finds nothing leaves the newest edition. -/
theorem newest_concat_of_absent (absent : holds e = false) :
    newest holds slot (probes ++ [e]) = newest holds slot probes := by
  unfold newest
  rw [List.filter_append, List.filter_cons_of_neg (by rw [absent]; exact Bool.false_ne_true),
    List.filter_nil, List.append_nil]

end Round

/-! ## Where a walk stops -/

namespace Round

variable {settings : Settings} {holds : Edition → Bool} {start : Edition} {n misses : Nat}

/-- A walk with one probe more comes to one edition more. -/
theorem walkProbes_succ (start : Edition) (n : Nat) :
    walkProbes start (n + 1) = walkProbes start n ++ [start.after n] := by
  rw [walkProbes, List.range_succ, List.map_append]
  rfl

/-- A walk that went on so far: how many probes it made, and how many of the last ones missed in a
row. -/
structure Walked (settings : Settings) (holds : Edition → Bool) (start : Edition)
    (n misses : Nat) : Prop where
  fits : misses ≤ n
  missed : ∀ k, n - misses ≤ k → k < n → holds (start.after k) = false
  hit : misses < n → holds (start.after (n - misses - 1)) = true
  going : ∀ m < n, ¬Stops settings holds start m

/-- A walk that begins has neither probed nor missed anything. -/
theorem Walked.begin (settings : Settings) (holds : Edition → Bool) (start : Edition) :
    Walked settings holds start 0 0 where
  fits := Nat.le_refl 0
  missed _ _ below := absurd below (Nat.not_lt_zero _)
  hit below := absurd below (Nat.not_lt_zero 0)
  going _ below := absurd below (Nat.not_lt_zero _)

/-- It is enough to count the misses in a row to see whether a walk stops. -/
theorem Walked.stops_iff (h : Walked settings holds start n misses) :
    Stops settings holds start n ↔ goesOn settings misses n = false := by
  rw [goesOn, Bool.and_eq_false_iff, decide_eq_false_iff_not, decide_eq_false_iff_not, Nat.not_lt,
    Nat.not_lt]
  constructor
  · rintro (hprobes | ⟨hfits, hmissed⟩)
    · exact .inr hprobes
    · by_cases hfew : misses < settings.minFailures.toNat
      -- with fewer misses, the last hit would be among the probes that missed
      · have hhit := h.hit (by omega)
        rw [hmissed (n - misses - 1) (by omega) (by omega)] at hhit
        cases hhit
      · exact .inl (Nat.le_of_not_lt hfew)
  · rintro (hmisses | hprobes)
    · exact .inr ⟨Nat.le_trans hmisses h.fits, fun k hk hlt => h.missed k (by omega) hlt⟩
    · exact .inl hprobes

/-- A walk that goes on has not stopped anywhere before. -/
theorem Walked.going_succ (h : Walked settings holds start n misses)
    (goes : goesOn settings misses n = true) (m : Nat) (below : m < n + 1) :
    ¬Stops settings holds start m := by
  rcases Nat.lt_succ_iff_lt_or_eq.mp below with hlt | rfl
  · exact h.going m hlt
  · rw [h.stops_iff, goes]
    exact Bool.noConfusion

/-- After a hit the walk has no misses in a row. -/
theorem Walked.after_hit (h : Walked settings holds start n misses)
    (goes : goesOn settings misses n = true) (present : holds (start.after n) = true) :
    Walked settings holds start (n + 1) 0 where
  fits := Nat.zero_le _
  missed k above below := absurd above (by omega)
  hit _ := present
  going := h.going_succ goes

/-- After a miss the walk has one miss more in a row. -/
theorem Walked.after_miss (h : Walked settings holds start n misses)
    (goes : goesOn settings misses n = true) (absent : holds (start.after n) = false) :
    Walked settings holds start (n + 1) (misses + 1) where
  fits := Nat.succ_le_succ h.fits
  missed k above below := by
    rcases Nat.lt_succ_iff_lt_or_eq.mp below with hlt | rfl
    · exact h.missed k (by omega) hlt
    · exact absent
  hit below := by
    have hindex : n + 1 - (misses + 1) - 1 = n - misses - 1 := by omega
    rw [hindex]
    exact h.hit (by omega)
  going := h.going_succ goes

end Round

/-- A round fetches only of its document. -/
theorem Round.key_of_request? {key : DocumentKey} {round : Round} {request : Request}
    (asks : round.request? key = some request) : request.uri.key = key := by
  cases round <;> cases asks <;> rfl

/-! ## Moves and what they come to -/

namespace Course

variable {c : Course} {s t u : Round.Progress} {before frontier : Frontier}
  {probes hints : List Edition} {found : Bool} {fetches : List Request} {e : Edition}

/-- A round comes from where it is to somewhere else after some moves. -/
def Comes (c : Course) (s t : Round.Progress) : Prop := ∃ n, c.moves s n = t

theorem Comes.refl (c : Course) (s : Round.Progress) : c.Comes s s := ⟨0, rfl⟩

/-- A round comes to where it comes to after its next move. -/
theorem Comes.step (h : c.Comes (c.move s) t) : c.Comes s t := by
  obtain ⟨n, hn⟩ := h
  exact ⟨n + 1, hn⟩

theorem Comes.trans (h : c.Comes s t) (h' : c.Comes t u) : c.Comes s u := by
  obtain ⟨n, hn⟩ := h
  induction n generalizing s with
  | zero =>
    have hs : s = t := hn
    exact hs ▸ h'
  | succ n ih => exact (ih hn).step

/-- A round that is over does not move. -/
theorem move_over (h : s.round = .over found) : c.move s = s := by
  rw [move, h]

/-- A hint that exists is noted, and the round goes over to its walk. -/
theorem move_askingHint_of_present (present : c.holds e = true) :
    c.move ⟨.askingHint e hints, frontier, fetches⟩ =
      ⟨.aligning (isAbove e frontier.slot), { frontier with slot := raised frontier.slot e },
        fetches ++ [c.block e]⟩ := if_pos present

theorem move_askingHint_of_absent (absent : c.holds e = false) :
    c.move ⟨.askingHint e hints, frontier, fetches⟩ =
      ⟨.hinting hints, frontier, fetches ++ [c.block e]⟩ := if_neg (absent ▸ Bool.false_ne_true)

/-- An edition that exists is noted as a hit of the walk. -/
theorem move_asking_of_present (present : c.holds e = true) (misses n : Nat) :
    c.move ⟨.asking found e misses n, frontier, fetches⟩ =
      ⟨.hit found (isAbove e frontier.slot) e n,
        { frontier with slot := raised frontier.slot e }, fetches ++ [c.block e]⟩ :=
  if_pos present

/-- An edition that does not exist is a miss of the walk. -/
theorem move_asking_of_absent (absent : c.holds e = false) (misses n : Nat) :
    c.move ⟨.asking found e misses n, frontier, fetches⟩ =
      ⟨.miss found e misses n, frontier, fetches ++ [c.block e]⟩ :=
  if_neg (absent ▸ Bool.false_ne_true)

/-- A move adds the fetch that the round waits for before it. -/
theorem fetches_move (c : Course) (s : Round.Progress) :
    (c.move s).fetches = s.fetches ++ (s.round.request? c.key).toList := by
  obtain ⟨round, frontier, fetches⟩ := s
  cases round with
  | askingHint e hints =>
    change (if c.holds e then _ else _ : Round.Progress).fetches = _
    split <;> rfl
  | asking raised e misses probes =>
    change (if c.holds e then _ else _ : Round.Progress).fetches = _
    split <;> rfl
  | fetching e => rfl
  | hinting hints => cases hints <;> exact (List.append_nil fetches).symm
  | _ => exact (List.append_nil fetches).symm

/-- A round that is over stays where it is. -/
theorem moves_over (h : s.round = .over found) (n : Nat) : c.moves s n = s := by
  induction n with
  | zero => rfl
  | succ n ih => rw [moves, move_over h, ih]

/-- Each move is one on the way to the end of a round. -/
theorem Comes.forward (h : c.Comes s t) (ends : t.round = .over found) : c.Comes (c.move s) t := by
  obtain ⟨n, hn⟩ := h
  cases n with
  | zero =>
    have hs : s = t := hn
    rw [hs, move_over ends]
    exact .refl c t
  | succ n => exact ⟨n, hn⟩

/-- A round that is over comes to nothing else. -/
theorem Comes.eq_of_over (h : c.Comes s t) (ends : s.round = .over found) : s = t := by
  obtain ⟨n, hn⟩ := h
  exact (moves_over ends n).symm.trans hn

/-- So much is known and was fetched after some probes, with `before` what was known before. -/
structure Probed (c : Course) (before : Frontier) (probes : List Edition) (found : Bool)
    (frontier : Frontier) (fetches : List Request) : Prop where
  slot : frontier.slot = Round.newest c.holds before.slot probes
  good : frontier.good = before.good
  rose : before.slot ≤ frontier.slot
  found : found = true ↔ before.slot < frontier.slot
  fetches : fetches = probes.map c.block

/-- A walk that begins has probed nothing. -/
theorem Probed.begin (c : Course) (before : Frontier) : c.Probed before [] false before [] where
  slot := (Round.newest_nil c.holds before.slot).symm
  good := rfl
  rose := slot_le_refl before.slot
  found := iff_of_false Bool.false_ne_true (slot_lt_irrefl before.slot)
  fetches := rfl

/-- A hit enters the probes and may raise the frontier. -/
theorem Probed.hit (h : c.Probed before probes found frontier fetches)
    (present : c.holds e = true) :
    c.Probed before (probes ++ [e]) (found || isAbove e frontier.slot)
      { frontier with slot := raised frontier.slot e } (fetches ++ [c.block e]) where
  slot := by rw [Round.newest_concat_of_present present, ← h.slot]
  good := h.good
  rose := slot_le_trans h.rose (le_raised frontier.slot e)
  found := by rw [Bool.or_eq_true, h.found, lt_raised_iff h.rose]
  fetches := by rw [h.fetches, List.map_append, List.map_singleton]

/-- A miss enters the probes and leaves the frontier. -/
theorem Probed.miss (h : c.Probed before probes found frontier fetches)
    (absent : c.holds e = false) :
    c.Probed before (probes ++ [e]) found frontier (fetches ++ [c.block e]) where
  slot := h.slot.trans (Round.newest_concat_of_absent absent).symm
  good := h.good
  rose := h.rose
  found := h.found
  fetches := by rw [h.fetches, List.map_append, List.map_singleton]

/-- A round probes its hints down to the first that exists, and goes on from there. -/
theorem comes_aligning (unknown : ∀ e ∈ hints, before.nextUnknown ≤ e)
    (probed : c.Probed before probes false before fetches) :
    ∃ found frontier fetches', c.Comes ⟨.hinting hints, before, fetches⟩
        ⟨.aligning found, frontier, fetches'⟩ ∧
      c.Probed before (probes ++ (hints.takeWhile (fun e => !c.holds e) ++
        (hints.find? c.holds).toList)) found frontier fetches' := by
  induction hints generalizing probes fetches with
  | nil =>
    refine ⟨false, before, fetches, .step (.refl c _), ?_⟩
    rw [List.takeWhile_nil, List.find?_nil, Option.toList_none, List.append_nil, List.append_nil]
    exact probed
  | cons e rest ih =>
    have htry : Round.tryHint before e rest = .askingHint e rest :=
      if_neg (UInt64.not_lt.mpr (unknown e List.mem_cons_self))
    have hasks : c.move ⟨.hinting (e :: rest), before, fetches⟩ =
        ⟨.askingHint e rest, before, fetches⟩ := by
      rw [← htry]
      rfl
    cases hholds : c.holds e with
    | true =>
      have hprobes : (e :: rest).takeWhile (fun e => !c.holds e) ++
          ((e :: rest).find? c.holds).toList = [e] := by
        rw [List.takeWhile_cons_of_neg (by simp [hholds]), List.find?_cons_of_pos hholds]
        rfl
      refine ⟨_, _, _, .step ?_, hprobes ▸ probed.hit hholds⟩
      rw [hasks, Bool.false_or, ← move_askingHint_of_present hholds]
      exact .step (.refl c _)
    | false =>
      have hprobes : (e :: rest).takeWhile (fun e => !c.holds e) ++
          ((e :: rest).find? c.holds).toList =
          e :: (rest.takeWhile (fun e => !c.holds e) ++ (rest.find? c.holds).toList) := by
        rw [List.takeWhile_cons_of_pos (by simp [hholds]),
          List.find?_cons_of_neg (by simp [hholds]), List.cons_append]
      obtain ⟨found, frontier, fetches', hcomes, hprobed⟩ :=
        ih (fun hint hm => unknown hint (List.mem_cons_of_mem e hm)) (probed.miss hholds)
      refine ⟨found, frontier, fetches', .step ?_, ?_⟩
      · rw [hasks]
        exact .step (move_askingHint_of_absent hholds ▸ hcomes)
      · rw [hprobes]
        rw [List.append_assoc] at hprobed
        exact hprobed

/-- A walk goes on to where it stops first. -/
theorem comes_walked {hinted : List Edition} {start : Edition} {n misses : Nat}
    (walked : Round.Walked c.settings c.holds start n misses)
    (probed : c.Probed before (hinted ++ Round.walkProbes start n) found frontier fetches) :
    ∃ m found' frontier' fetches', c.Comes
        ⟨.walking found (start.after n) misses n, frontier, fetches⟩
        ⟨if found' then .confirming else .over false, frontier', fetches'⟩ ∧
      c.Probed before (hinted ++ Round.walkProbes start m) found' frontier' fetches' ∧
      Round.Stops c.settings c.holds start m ∧
      ∀ k < m, ¬Round.Stops c.settings c.holds start k := by
  induction hleft : c.settings.maxProbes.toNat - n using Nat.strongRecOn
    generalizing n misses found frontier fetches with
  | ind left ih =>
    have hproceed : c.move ⟨.walking found (start.after n) misses n, frontier, fetches⟩ =
        ⟨.proceed c.settings found (start.after n) misses n, frontier, fetches⟩ := rfl
    cases hgoes : Round.goesOn c.settings misses n with
    | false =>
      refine ⟨n, found, frontier, fetches, .step ?_, probed, walked.stops_iff.mpr hgoes,
        walked.going⟩
      rw [hproceed, Round.proceed, hgoes]
      exact .refl c _
    | true =>
      have hasks : c.move ⟨.walking found (start.after n) misses n, frontier, fetches⟩ =
          ⟨.asking found (start.after n) misses n, frontier, fetches⟩ := by
        rw [hproceed, Round.proceed, hgoes, if_pos rfl]
      have hprobes : n < c.settings.maxProbes.toNat := by
        rw [Round.goesOn, Bool.and_eq_true, decide_eq_true_eq, decide_eq_true_eq] at hgoes
        exact hgoes.2
      have hless : c.settings.maxProbes.toNat - (n + 1) < left := by omega
      cases hholds : c.holds (start.after n) with
      | true =>
        have hprobed := probed.hit hholds
        rw [List.append_assoc, ← Round.walkProbes_succ] at hprobed
        obtain ⟨m, found', frontier', fetches', hcomes, hrest⟩ :=
          ih _ hless (walked.after_hit hgoes hholds) hprobed rfl
        refine ⟨m, found', frontier', fetches', .step ?_, hrest⟩
        rw [hasks]
        exact .step (move_asking_of_present hholds misses n ▸ hcomes)
      | false =>
        have hprobed := probed.miss hholds
        rw [List.append_assoc, ← Round.walkProbes_succ] at hprobed
        obtain ⟨m, found', frontier', fetches', hcomes, hrest⟩ :=
          ih _ hless (walked.after_miss hgoes hholds) hprobed rfl
        refine ⟨m, found', frontier', fetches', .step ?_, hrest⟩
        rw [hasks]
        exact .step (move_asking_of_absent hholds misses n ▸ hcomes)

/-- What a round does in the end: it fetches the content of the slot if that rose and is ahead of
the known good edition, else nothing. -/
theorem comes_confirmed (probed : c.Probed before probes found frontier fetches) :
    ∃ contents last, c.Comes ⟨if found then .confirming else .over false, frontier, fetches⟩
        ⟨.over found, last, fetches ++ contents.map c.content⟩ ∧
      last.slot = frontier.slot ∧
      (before.slot < last.slot → before.good < last.slot → contents = last.slot.toList) ∧
      (¬(before.slot < last.slot ∧ before.good < last.slot) → contents = []) ∧
      last.good = if contents.any c.brings then last.slot else before.good := by
  cases found with
  | false =>
    have hrests : ¬before.slot < frontier.slot := fun h => Bool.false_ne_true (probed.found.mpr h)
    refine ⟨[], frontier, ?_, rfl, fun rose => absurd rose hrests, fun _ => rfl, probed.good⟩
    rw [List.map_nil, List.append_nil]
    exact .refl c _
  | true =>
    have hrose : before.slot < frontier.slot := probed.found.mp rfl
    have hconfirms : c.move ⟨.confirming, frontier, fetches⟩ =
        ⟨.confirm frontier, frontier, fetches⟩ := rfl
    cases frontier with
    | mk slot good =>
      have hgood : good = before.good := probed.good
      cases slot with
      | none => exact absurd hrose Option.not_lt_none
      | some e =>
        rw [if_pos rfl]
        cases habove : isAbove e good with
        | false =>
          have hrests : ¬(before.slot < some e ∧ before.good < some e) := by
            rintro ⟨-, hahead⟩
            rw [lt_some_iff, ← hgood, habove] at hahead
            cases hahead
          refine ⟨[], ⟨some e, good⟩, .step ?_, rfl,
            fun rose ahead => absurd ⟨rose, ahead⟩ hrests, fun _ => rfl, hgood⟩
          rw [hconfirms, Round.confirm]
          simp only [habove, Bool.false_eq_true, if_false, List.map_nil, List.append_nil]
          exact .refl c _
        | true =>
          have hahead : before.good < some e := by
            rw [lt_some_iff, ← hgood]
            exact habove
          have hfetches : c.move ⟨.confirm ⟨some e, good⟩, ⟨some e, good⟩, fetches⟩ =
              ⟨.over true, if c.brings e then ⟨some e, some e⟩ else ⟨some e, good⟩,
                fetches ++ [c.content e]⟩ := by
            have hsame : raised (some e) e = some e :=
              raised_of_not_isAbove (decide_eq_false (UInt64.lt_irrefl e))
            rw [Round.confirm]
            simp only [habove, if_true, move, hsame, raised_of_isAbove habove]
          refine ⟨[e], if c.brings e then ⟨some e, some e⟩ else ⟨some e, good⟩, ?_, ?_, ?_⟩
          · refine .step ?_
            rw [hconfirms]
            exact .step (hfetches ▸ .refl c _)
          · cases c.brings e <;> rfl
          · cases hbrings : c.brings e <;>
              simp [hrose, hahead, hbrings, hgood]

/-- Every round comes to its end, and to just what is to come of it. -/
theorem comes_report (c : Course) (before : Frontier) (hints : List Edition) :
    ∃ report : Round.Report, c.Scans before hints report ∧
      c.Comes ⟨.opening hints, before, []⟩ ⟨.over report.found, report.frontier,
        report.probes.map c.block ++ report.contents.map c.content⟩ := by
  let unknown := hints.filter fun e => before.nextUnknown ≤ e
  have hunknown : ∀ e ∈ unknown, before.nextUnknown ≤ e := fun e hm =>
    of_decide_eq_true (List.mem_filter.mp hm).2
  obtain ⟨raised, hinted, fetched, haligns, hhinted⟩ :=
    comes_aligning hunknown (Probed.begin c before)
  rw [List.nil_append] at hhinted
  let start := Round.walkStart hinted.slot c.origin
  have hwalking : c.move ⟨.aligning raised, hinted, fetched⟩ =
      ⟨.walking raised (start.after 0) 0 0, hinted, fetched⟩ := rfl
  have hbegun : c.Probed before (Round.hintProbes c.holds before.slot hints ++
      Round.walkProbes start 0) raised hinted fetched := by
    rw [Round.walkProbes, List.range_zero, List.map_nil, List.append_nil]
    exact hhinted
  obtain ⟨n, found, walked, fetched', hwalks, hprobed, hstops, hgoing⟩ :=
    comes_walked (Round.Walked.begin c.settings c.holds start) hbegun
  obtain ⟨contents, last, hends, hslot, hconfirms, hrests, hgood⟩ := comes_confirmed hprobed
  have hstart : start = Round.walkStart (Round.newest c.holds before.slot
      (Round.hintProbes c.holds before.slot hints)) c.origin :=
    congrArg (fun slot => Round.walkStart slot c.origin) hhinted.slot
  refine ⟨⟨_, contents, found, last⟩, ⟨⟨n, ?_⟩, hslot.trans hprobed.slot, ?_, hconfirms, hrests,
    hgood⟩, .step ?_⟩
  · dsimp only
    rw [← hstart]
    exact ⟨rfl, hstops, hgoing⟩
  · exact hprobed.found.trans (by rw [hslot])
  · refine haligns.trans (.step ?_)
    rw [hwalking, ← hprobed.fetches]
    exact hwalks.trans hends

end Course

end EditionWatch
