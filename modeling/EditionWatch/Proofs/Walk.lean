import EditionWatch.Poller.Round
import EditionWatch.Proofs.Peaks

/-!
# Where walks end

A round without hints is a walk: it probes one edition after the other until enough misses in
a row or enough probes. An edition can be reached if no gap before it is so wide that a walk
gives up. Walks only ever stop at editions that can be reached, and one that finds nothing
new has seen a gap that is too wide, so nothing above the slot can be reached any more. Hence
walks, each begun where the last one left the slot, come to the newest edition that can be
reached.
-/

namespace EditionWatch

namespace Edition

theorem le_last (e : Edition) : e ≤ last := by
  have h := e.toNat_lt
  rw [UInt64.le_iff_toNat_le, toNat_last]
  have hsize : UInt64.size = 18446744073709551616 := rfl
  omega

/-- The greater of two editions has the greater number. -/
theorem toNat_max (a b : Edition) : (max a b).toNat = max a.toNat b.toNat := by
  have hmax : max a b = if a ≤ b then b else a := rfl
  rw [hmax]
  split
  case isTrue h =>
    rw [UInt64.le_iff_toNat_le] at h
    omega
  case isFalse h =>
    rw [UInt64.le_iff_toNat_le] at h
    omega

/-- Below the end of the range, the next edition is the one above. -/
theorem toNat_next_of_ne_last {e : Edition} (h : e ≠ last) : (next e).toNat = e.toNat + 1 := by
  have hlt := e.toNat_lt
  have hne : e.toNat ≠ UInt64.size - 1 := fun he =>
    h (UInt64.toNat_inj.mp (he.trans toNat_last.symm))
  have hsize : UInt64.size = 18446744073709551616 := rfl
  rw [toNat_next]
  omega

@[simp] theorem next_last : next last = last := rfl

theorem max_eq_right {a b : Edition} (h : a ≤ b) : max a b = b := by
  have hle := UInt64.le_iff_toNat_le.mp h
  have hmax := toNat_max a b
  exact UInt64.toNat_inj.mp (by omega)

/-- An edition is not above the next one. -/
theorem le_next (e : Edition) : e ≤ next e := by
  have hlt := e.toNat_lt
  have hnext := toNat_next e
  have hsize : UInt64.size = 18446744073709551616 := rfl
  rw [UInt64.le_iff_toNat_le]
  omega

/-- To go on to the next edition keeps the order. -/
theorem next_le_next {a b : Edition} (h : a ≤ b) : next a ≤ next b := by
  have hle := UInt64.le_iff_toNat_le.mp h
  rw [UInt64.le_iff_toNat_le, toNat_next, toNat_next]
  omega

/-- What is above an edition is not below the next one. -/
theorem next_le_of_lt {a b : Edition} (h : a < b) : next a ≤ b := by
  have hlt := UInt64.lt_iff_toNat_lt.mp h
  have hnext := toNat_next a
  rw [UInt64.le_iff_toNat_le]
  omega

/-- The next edition lies above if anything lies above the next one. -/
theorem lt_next_of_next_lt {a b : Edition} (h : next a < b) : a < next a := by
  have hne : a ≠ last := fun he => by
    rw [he, next_last] at h
    exact absurd h (UInt64.not_lt.mpr b.le_last)
  have hnext := toNat_next_of_ne_last hne
  rw [UInt64.lt_iff_toNat_lt]
  omega

end Edition

/-- No edition is above the last one. -/
theorem isAbove_last (e : Edition) : isAbove e (some Edition.last) = false :=
  decide_eq_false (UInt64.not_lt.mpr e.le_last)

namespace Frontier

/-- What is above the slot is not below the first unknown edition. -/
theorem nextUnknown_le_of_isAbove {slot : Option Edition} {e : Edition}
    (h : isAbove e slot = true) : nextUnknown ⟨slot, none⟩ ≤ e := by
  cases slot with
  | none => exact UInt64.zero_le
  | some old => exact Edition.next_le_of_lt (lt_of_isAbove h)

/-- The first unknown edition is above the slot, if there is one above at all. -/
theorem isAbove_of_nextUnknown_lt {slot : Option Edition} {e limit : Edition}
    (h : nextUnknown ⟨slot, none⟩ ≤ e) (below : nextUnknown ⟨slot, none⟩ < limit) :
    isAbove e slot = true := by
  cases slot with
  | none => rfl
  | some old =>
    exact decide_eq_true (UInt64.lt_of_lt_of_le (Edition.lt_next_of_next_lt below) h)

end Frontier

namespace Round

/-- How a round ends: whether it found something new, and with which slot. -/
structure Outcome where
  /-- Whether something new was found. -/
  found : Bool
  /-- The slot in the end. -/
  slot : Option Edition
  deriving DecidableEq

/-- The edition from which a round walks. -/
def walkStart (slot : Option Edition) (origin : Edition) : Edition :=
  max (Frontier.nextUnknown ⟨slot, none⟩) origin

/-- How a walk ends that has so many probes left and stands at an edition, after so many misses
in a row; `holds` tells which editions exist. -/
def walk (settings : Settings) (holds : Edition → Bool) :
    Nat → Bool → Option Edition → Edition → Nat → Outcome
  | 0, found, slot, _, _ => ⟨found, slot⟩
  | probes + 1, found, slot, e, misses =>
    if misses < settings.minFailures.toNat then
      if holds e then
        walk settings holds probes (found || isAbove e slot) (raised slot e) (Edition.next e) 0
      else walk settings holds probes found slot (Edition.next e) (misses + 1)
    else ⟨found, slot⟩

/-- How a round without hints ends. -/
def outcome (settings : Settings) (holds : Edition → Bool) (origin : Edition)
    (slot : Option Edition) : Outcome :=
  walk settings holds settings.maxProbes.toNat false slot (walkStart slot origin) 0

/-- The slot after so many rounds. -/
def slotAfter (settings : Settings) (holds : Edition → Bool) (origin : Edition)
    (slot : Option Edition) : Nat → Option Edition
  | 0 => slot
  | n + 1 => slotAfter settings holds origin (outcome settings holds origin slot).slot n

/-- An edition can be reached from another: it exists, and every run of missing editions on the
way, from `first` up to before `stop`, is shorter than the number of misses that ends a walk. -/
structure Reachable (settings : Settings) (holds : Edition → Bool) (start e : Edition) :
    Prop where
  above : start ≤ e
  present : holds e = true
  bridged : ∀ first stop : Edition, start ≤ first → first < stop → stop ≤ e →
    (∀ x, first ≤ x → x < stop → holds x = false) →
      stop.toNat - first.toNat < settings.minFailures.toNat

/-- A slot is the greater of the slot before and of all editions that can be reached. -/
structure IsNewest (settings : Settings) (holds : Edition → Bool) (origin : Edition)
    (slot newest : Option Edition) : Prop where
  /-- It is one of them. -/
  attained : newest = slot ∨
    ∃ e, newest = some e ∧ Reachable settings holds (walkStart slot origin) e
  /-- None of them is above it. -/
  bound : ∀ e, slot = some e ∨ Reachable settings holds (walkStart slot origin) e →
    isAbove e newest = false

section Walk

variable {settings : Settings} {holds : Edition → Bool} {origin start e : Edition}
  {slot : Option Edition} {found : Bool} {misses probes : Nat}

/-- Every run of missing editions that a walk passed is short enough, and the one it is in is no
longer than its misses. -/
structure Bridged (settings : Settings) (holds : Edition → Bool) (start e : Edition)
    (misses : Nat) : Prop where
  above : start ≤ e
  passed : ∀ first stop : Edition, start ≤ first → first < stop → stop < e →
    (∀ x, first ≤ x → x < stop → holds x = false) →
      stop.toNat - first.toNat < settings.minFailures.toNat
  last : ∀ first : Edition, start ≤ first → first < e →
    (∀ x, first ≤ x → x < e → holds x = false) → e.toNat - first.toNat ≤ misses

/-- What exists at the edition of a walk can be reached if the walk has not given up. -/
theorem Bridged.reachable (h : Bridged settings holds start e misses)
    (goes : misses < settings.minFailures.toNat) (present : holds e = true) :
    Reachable settings holds start e where
  above := h.above
  present := present
  bridged first stop hfirst hlt hle hmiss := by
    by_cases hstop : stop = e
    · subst hstop
      have hrun := h.last first hfirst hlt hmiss
      omega
    · have hbefore : stop < e := UInt64.lt_of_le_of_ne hle hstop
      exact h.passed first stop hfirst hlt hbefore hmiss

/-- A walk that begins has bridged nothing. -/
theorem Bridged.begin (settings : Settings) (holds : Edition → Bool) (start : Edition) :
    Bridged settings holds start start 0 where
  above := UInt64.le_refl start
  passed first stop hfirst hlt hbefore _ := by
    have hcycle : start < start :=
      UInt64.lt_of_le_of_lt hfirst (UInt64.lt_trans hlt hbefore)
    exact absurd hcycle (UInt64.lt_irrefl start)
  last first hfirst hlt _ := by
    exact absurd (UInt64.lt_of_le_of_lt hfirst hlt) (UInt64.lt_irrefl start)

/-- A miss makes the run one longer, or the walk stands still at the end of the range. -/
theorem Bridged.miss (h : Bridged settings holds start e misses)
    (goes : misses < settings.minFailures.toNat) :
    Bridged settings holds start (Edition.next e) (misses + 1) := by
  have habove := UInt64.le_iff_toNat_le.mp h.above
  by_cases hend : e = Edition.last
  · rw [hend, Edition.next_last, ← hend]
    refine ⟨h.above, h.passed, fun first hfirst hlt hmiss => ?_⟩
    have hrun := h.last first hfirst hlt hmiss
    omega
  · have hnext := Edition.toNat_next_of_ne_last hend
    constructor
    · rw [UInt64.le_iff_toNat_le]
      omega
    · intro first stop hfirst hlt hbefore hmiss
      rw [UInt64.lt_iff_toNat_lt, hnext] at hbefore
      by_cases hstop : stop = e
      · subst hstop
        have hrun := h.last first hfirst hlt hmiss
        omega
      · have hne : stop.toNat ≠ e.toNat := fun he => hstop (UInt64.toNat_inj.mp he)
        exact h.passed first stop hfirst hlt (UInt64.lt_iff_toNat_lt.mpr (by omega)) hmiss
    · intro first hfirst hlt hmiss
      rw [UInt64.lt_iff_toNat_lt] at hlt
      -- without `e` itself, the run ends there
      by_cases hone : first < e
      · have hrun := h.last first hfirst hone fun x hx hxe => hmiss x hx (by
          rw [UInt64.lt_iff_toNat_lt] at hxe ⊢
          omega)
        omega
      · rw [UInt64.lt_iff_toNat_lt] at hone
        omega

/-- After a hit, no run of missing editions is left open. -/
theorem Bridged.hit (h : Bridged settings holds start e misses)
    (goes : misses < settings.minFailures.toNat) (present : holds e = true)
    (hend : e ≠ Edition.last) : Bridged settings holds start (Edition.next e) 0 := by
  have hnext := Edition.toNat_next_of_ne_last hend
  have hreach := h.reachable goes present
  have habove := UInt64.le_iff_toNat_le.mp h.above
  constructor
  · rw [UInt64.le_iff_toNat_le]
    omega
  · intro first stop hfirst hlt hbefore hmiss
    rw [UInt64.lt_iff_toNat_lt, hnext] at hbefore
    exact hreach.bridged first stop hfirst hlt (UInt64.le_iff_toNat_le.mpr (by omega)) hmiss
  · intro first hfirst hlt hmiss
    rw [UInt64.lt_iff_toNat_lt, hnext] at hlt
    have hmissing := hmiss e (UInt64.le_iff_toNat_le.mpr (by omega))
      (UInt64.lt_iff_toNat_lt.mpr (by omega))
    rw [present] at hmissing
    cases hmissing

/-- A walk that does not go on ends as it stands. -/
theorem walk_of_not_goesOn (holds : Edition → Bool)
    (h : goesOn settings misses probes = false) (found : Bool) (slot : Option Edition)
    (e : Edition) :
    walk settings holds (settings.maxProbes.toNat - probes) found slot e misses =
      ⟨found, slot⟩ := by
  rw [goesOn, Bool.and_eq_false_iff, decide_eq_false_iff_not, decide_eq_false_iff_not] at h
  cases hleft : settings.maxProbes.toNat - probes with
  | zero => rfl
  | succ left =>
    have hmisses : ¬misses < settings.minFailures.toNat := by omega
    rw [walk, if_neg hmisses]

/-- A walk that goes on probes its edition. -/
theorem walk_of_goesOn (holds : Edition → Bool) (h : goesOn settings misses probes = true)
    (found : Bool) (slot : Option Edition) (e : Edition) :
    walk settings holds (settings.maxProbes.toNat - probes) found slot e misses =
      if holds e then
        walk settings holds (settings.maxProbes.toNat - (probes + 1)) (found || isAbove e slot)
          (raised slot e) (Edition.next e) 0
      else
        walk settings holds (settings.maxProbes.toNat - (probes + 1)) found slot (Edition.next e)
          (misses + 1) := by
  rw [goesOn, Bool.and_eq_true, decide_eq_true_eq, decide_eq_true_eq] at h
  have hleft : settings.maxProbes.toNat - probes =
      settings.maxProbes.toNat - (probes + 1) + 1 := by omega
  rw [hleft, walk, if_pos h.1]

/-- A walk whose slot is the last edition finds nothing more. -/
theorem walk_of_last (probes : Nat) (found : Bool) (e : Edition) (misses : Nat) :
    walk settings holds probes found (some Edition.last) e misses =
      ⟨found, some Edition.last⟩ := by
  induction probes generalizing e misses with
  | zero => rfl
  | succ probes ih =>
    have hnone := isAbove_last e
    rw [walk]
    split
    · split
      · rw [hnone, Bool.or_false, raised_of_not_isAbove hnone]
        exact ih (Edition.next e) 0
      · exact ih (Edition.next e) (misses + 1)
    · rfl

/-- What a walk has made of the slot it began with: it left it, or raised it to an edition that
can be reached. -/
structure Gains (settings : Settings) (holds : Edition → Bool) (start : Edition)
    (before : Option Edition) (o : Outcome) : Prop where
  kept : o.found = false → o.slot = before
  rose : o.found = true → ∃ e, o.slot = some e ∧ isAbove e before = true ∧
    Reachable settings holds start e

/-- A hit above the slot is gained. -/
theorem Gains.hit {before : Option Edition}
    (h : Gains settings holds start before ⟨found, slot⟩)
    (reachable : Reachable settings holds start e) (above : isAbove e slot = true) :
    Gains settings holds start before ⟨true, some e⟩ where
  kept hf := by cases hf
  rose _ := by
    refine ⟨e, rfl, ?_, reachable⟩
    cases hfound : found with
    | false =>
      have hkept : slot = before := h.kept hfound
      rw [← hkept]
      exact above
    | true =>
      obtain ⟨old, hold, holder, -⟩ := h.rose hfound
      have hslot : slot = some old := hold
      rw [hslot] at above
      have hlt : old < e := Frontier.lt_of_isAbove above
      cases before with
      | none => rfl
      | some first => exact decide_eq_true (UInt64.lt_trans (Frontier.lt_of_isAbove holder) hlt)

/-- Wherever a walk stands, it comes to a slot that it left or that can be reached. -/
theorem gains_walk {before : Option Edition} (hb : Bridged settings holds start e misses)
    (hg : Gains settings holds start before ⟨found, slot⟩)
    (ahead : ∀ old, slot = some old → old < e) :
    Gains settings holds start before (walk settings holds probes found slot e misses) := by
  induction probes generalizing found slot e misses with
  | zero => exact hg
  | succ probes ih =>
    rw [walk]
    split
    case isFalse => exact hg
    case isTrue goes =>
      have hahead : isAbove e slot = true := by
        cases slot with
        | none => rfl
        | some old => exact decide_eq_true (ahead old rfl)
      cases hpresent : holds e with
      | true =>
        rw [if_pos rfl, hahead, Bool.or_true, raised_of_isAbove hahead]
        have hgain := hg.hit (hb.reachable goes hpresent) hahead
        by_cases hend : e = Edition.last
        · subst hend
          rw [walk_of_last]
          exact hgain
        · refine ih (hb.hit goes hpresent hend) hgain fun old hold => ?_
          have hnext := Edition.toNat_next_of_ne_last hend
          rw [Option.some.inj hold.symm, UInt64.lt_iff_toNat_lt]
          omega
      | false =>
        rw [if_neg Bool.false_ne_true]
        refine ih (hb.miss goes) hg fun old hold => ?_
        have hold := UInt64.lt_iff_toNat_lt.mp (ahead old hold)
        have hnext := Edition.toNat_next e
        have hlt := e.toNat_lt
        rw [UInt64.lt_iff_toNat_lt, hnext]
        have hsize : UInt64.size = 18446744073709551616 := rfl
        omega

/-- What was found stays found. -/
theorem found_walk (probes : Nat) (slot : Option Edition) (e : Edition) (misses : Nat) :
    (walk settings holds probes true slot e misses).found = true := by
  induction probes generalizing slot e misses with
  | zero => rfl
  | succ probes ih =>
    rw [walk]
    split
    · split
      · exact ih (raised slot e) (Edition.next e) 0
      · exact ih slot (Edition.next e) (misses + 1)
    · rfl

/-- The walk has met nothing so far: it missed every edition from its start on, and perhaps
stands still at the end of the range. -/
structure Barren (holds : Edition → Bool) (start e : Edition) (misses : Nat) : Prop where
  missed : ∀ x, start ≤ x → x < e → holds x = false
  counted : e.toNat = start.toNat + misses ∨ (e = Edition.last ∧ holds Edition.last = false)

/-- A miss keeps the walk barren, one edition further on. -/
theorem Barren.miss (h : Barren holds start e misses) (absent : holds e = false) :
    Barren holds start (Edition.next e) (misses + 1) := by
  by_cases hend : e = Edition.last
  · subst hend
    exact ⟨h.missed, .inr ⟨rfl, absent⟩⟩
  · have hnext := Edition.toNat_next_of_ne_last hend
    constructor
    · intro x hx hlt
      rw [UInt64.lt_iff_toNat_lt, hnext] at hlt
      by_cases he : x = e
      · subst he
        exact absent
      · have hne : x.toNat ≠ e.toNat := fun hn => he (UInt64.toNat_inj.mp hn)
        exact h.missed x hx (UInt64.lt_iff_toNat_lt.mpr (by omega))
    · rcases h.counted with hc | ⟨hlast, -⟩
      · exact .inl (by omega)
      · exact absurd hlast hend

/-- Behind so many misses in a row nothing can be reached. -/
theorem Barren.not_reachable (h : Barren holds start e misses)
    (one : 1 ≤ settings.minFailures.toNat) (given : settings.minFailures.toNat ≤ misses)
    (x : Edition) : ¬Reachable settings holds start x := by
  intro hx
  have hahead : e ≤ x := by
    by_cases hlt : x < e
    · have hmissed := h.missed x hx.above hlt
      rw [hx.present] at hmissed
      cases hmissed
    · exact UInt64.not_lt.mp hlt
  rcases h.counted with hc | ⟨hlast, habsent⟩
  · have hstart : start < e := UInt64.lt_iff_toNat_lt.mpr (by omega)
    have hwidth := hx.bridged start e (UInt64.le_refl start) hstart hahead h.missed
    omega
  · subst hlast
    have hxlast : x = Edition.last := UInt64.le_antisymm x.le_last hahead
    rw [← hxlast, hx.present] at habsent
    cases habsent

/-- A walk that finds nothing leaves nothing that could be reached. -/
theorem not_reachable_of_walk (h : Barren holds start e misses)
    (one : 1 ≤ settings.minFailures.toNat)
    (enough : settings.minFailures.toNat ≤ misses + probes)
    (ahead : ∀ old, slot = some old → old < e)
    (nothing : (walk settings holds probes false slot e misses).found = false) (x : Edition) :
    ¬Reachable settings holds start x := by
  induction probes generalizing e misses with
  | zero => exact h.not_reachable one enough x
  | succ probes ih =>
    rw [walk] at nothing
    split at nothing
    case isFalse hgiven => exact h.not_reachable one (Nat.not_lt.mp hgiven) x
    case isTrue goes =>
      cases hpresent : holds e with
      | true =>
        have hahead : isAbove e slot = true := by
          cases slot with
          | none => rfl
          | some old => exact decide_eq_true (ahead old rfl)
        rw [hpresent, if_pos rfl, hahead, Bool.or_true, found_walk] at nothing
        cases nothing
      | false =>
        rw [hpresent, if_neg Bool.false_ne_true] at nothing
        refine ih (h.miss hpresent) (by omega) (fun old hold => ?_) nothing
        have hlt := UInt64.lt_iff_toNat_lt.mp (ahead old hold)
        have hnext := Edition.toNat_next e
        have hrange := e.toNat_lt
        rw [UInt64.lt_iff_toNat_lt, hnext]
        have hsize : UInt64.size = 18446744073709551616 := rfl
        omega

/-! ## Rounds -/

/-- A round walks from above the slot, unless the slot is at the end of the range. -/
theorem lt_walkStart {old : Edition} (hend : old ≠ Edition.last) (origin : Edition) :
    old < walkStart (some old) origin := by
  have hnext := Edition.toNat_next_of_ne_last hend
  have hmax := Edition.toNat_max (Edition.next old) origin
  rw [UInt64.lt_iff_toNat_lt]
  change old.toNat < (max (Edition.next old) origin).toNat
  omega

/-- A round raises the slot to an edition that can be reached, or leaves it, and then nothing
above it can be reached. -/
theorem outcome_cases (holds : Edition → Bool) (one : 1 ≤ settings.minFailures.toNat)
    (fits : settings.minFailures.toNat ≤ settings.maxProbes.toNat) (origin : Edition)
    (slot : Option Edition) :
    (outcome settings holds origin slot = ⟨false, slot⟩ ∧
        ∀ e, Reachable settings holds (walkStart slot origin) e → isAbove e slot = false) ∨
      ∃ e, outcome settings holds origin slot = ⟨true, some e⟩ ∧ isAbove e slot = true ∧
        Reachable settings holds (walkStart slot origin) e := by
  by_cases hlast : slot = some Edition.last
  · subst hlast
    exact .inl ⟨walk_of_last _ _ _ _, fun e _ => isAbove_last e⟩
  · have hahead (old : Edition) (hold : slot = some old) : old < walkStart slot origin := by
      subst hold
      exact lt_walkStart (fun he => hlast (congrArg some he)) origin
    have hgains : Gains settings holds (walkStart slot origin) slot
        (outcome settings holds origin slot) :=
      gains_walk (Bridged.begin settings holds _) ⟨fun _ => rfl, fun hf => by cases hf⟩ hahead
    cases ho : outcome settings holds origin slot with
    | mk found newer =>
      rw [ho] at hgains
      cases found with
      | false =>
        have hkept : newer = slot := hgains.kept rfl
        have hbarren : Barren holds (walkStart slot origin) (walkStart slot origin) 0 :=
          ⟨fun x hx hlt => absurd (UInt64.lt_of_le_of_lt hx hlt) (UInt64.lt_irrefl _),
            .inl rfl⟩
        have hnone := not_reachable_of_walk hbarren one (by omega) hahead
          (congrArg Outcome.found ho)
        exact .inl ⟨by rw [hkept], fun e he => absurd he (hnone e)⟩
      | true =>
        obtain ⟨e, he, habove, hreach⟩ := hgains.rose rfl
        have hnewer : newer = some e := he
        exact .inr ⟨e, by rw [hnewer], habove, hreach⟩

/-- Behind an edition that was reached, the next round walks from the one after it. -/
theorem walkStart_of_reachable {slot : Option Edition}
    (h : Reachable settings holds (walkStart slot origin) e) :
    walkStart (some e) origin = Edition.next e := by
  have hmax := Edition.toNat_max (Frontier.nextUnknown ⟨slot, none⟩) origin
  have hstart := UInt64.le_iff_toNat_le.mp h.above
  have hnext := Edition.toNat_next e
  have hrange := e.toNat_lt
  have hsize : UInt64.size = 18446744073709551616 := rfl
  have hle : origin.toNat ≤ (Edition.next e).toNat := by
    change (max (Frontier.nextUnknown ⟨slot, none⟩) origin).toNat ≤ e.toNat at hstart
    omega
  refine UInt64.toNat_inj.mp ((Edition.toNat_max (Edition.next e) origin).trans ?_)
  omega

/-- What can be reached from behind a reachable edition can be reached from before it. -/
theorem Reachable.trans {middle : Edition} (h : Reachable settings holds start middle)
    (h' : Reachable settings holds (Edition.next middle) e) :
    Reachable settings holds start e := by
  have hmiddle := UInt64.le_iff_toNat_le.mp h.above
  have he := UInt64.le_iff_toNat_le.mp h'.above
  have hnext := Edition.toNat_next middle
  have hrange := middle.toNat_lt
  have hsize : UInt64.size = 18446744073709551616 := rfl
  refine ⟨UInt64.le_iff_toNat_le.mpr (by omega), h'.present,
    fun first stop hfirst hlt hle hmiss => ?_⟩
  by_cases hbefore : stop ≤ middle
  · exact h.bridged first stop hfirst hlt hbefore hmiss
  · -- the run does not contain the edition in the middle, so it lies behind it
    have hbehind : middle < first := by
      by_cases hin : first ≤ middle
      · have hmissing := hmiss middle hin (UInt64.not_le.mp hbefore)
        rw [h.present] at hmissing
        cases hmissing
      · exact UInt64.not_le.mp hin
    rw [UInt64.lt_iff_toNat_lt] at hbehind
    exact h'.bridged first stop (UInt64.le_iff_toNat_le.mpr (by omega)) hlt hle hmiss

/-- What can be reached and lies behind another reachable edition can be reached from there. -/
theorem Reachable.behind {middle : Edition} (h : Reachable settings holds start e)
    (hm : start ≤ middle) (hlt : middle < e) :
    Reachable settings holds (Edition.next middle) e := by
  have hnext := Edition.toNat_next middle
  have hrange := e.toNat_lt
  have hsize : UInt64.size = 18446744073709551616 := rfl
  rw [UInt64.lt_iff_toNat_lt] at hlt
  rw [UInt64.le_iff_toNat_le] at hm
  refine ⟨UInt64.le_iff_toNat_le.mpr (by omega), h.present,
    fun first stop hfirst hbefore hle hmiss => ?_⟩
  rw [UInt64.le_iff_toNat_le] at hfirst
  exact h.bridged first stop (UInt64.le_iff_toNat_le.mpr (by omega)) hbefore hle hmiss

/-- A round that raises the slot leaves the newest reachable edition as it was. -/
theorem IsNewest.of_rose {newest : Option Edition} (above : isAbove e slot = true)
    (reachable : Reachable settings holds (walkStart slot origin) e)
    (h : IsNewest settings holds origin (some e) newest) :
    IsNewest settings holds origin slot newest := by
  have hstart := walkStart_of_reachable reachable
  obtain ⟨hattained, hbound⟩ := h
  rw [hstart] at hattained hbound
  have htop : isAbove e newest = false := hbound e (.inl rfl)
  have hbelow (x : Edition) (hx : x ≤ e) : isAbove x newest = false := by
    cases newest with
    | none => cases htop
    | some top =>
      have hle : e ≤ top := UInt64.not_lt.mp (of_decide_eq_false htop)
      exact decide_eq_false (UInt64.not_lt.mpr (UInt64.le_trans hx hle))
  constructor
  · rcases hattained with hn | ⟨x, hn, hx⟩
    · exact .inr ⟨e, hn, reachable⟩
    · exact .inr ⟨x, hn, reachable.trans hx⟩
  · intro x hx
    rcases hx with hslot | hx
    · subst hslot
      exact hbelow x (UInt64.le_of_lt (Frontier.lt_of_isAbove above))
    · by_cases hle : x ≤ e
      · exact hbelow x hle
      · exact hbound x (.inr (hx.behind reachable.above (UInt64.not_le.mp hle)))

/-- After one round more the slot is what the round makes of it. -/
theorem outcome_slotAfter (slot : Option Edition) (n : Nat) :
    (outcome settings holds origin (slotAfter settings holds origin slot n)).slot =
      slotAfter settings holds origin slot (n + 1) := by
  induction n generalizing slot with
  | zero => rfl
  | succ n ih => exact ih (outcome settings holds origin slot).slot

/-- The number of editions above a slot. -/
def room : Option Edition → Nat
  | none => UInt64.size
  | some slot => UInt64.size - 1 - slot.toNat

/-- A slot that rises has less room above it. -/
theorem room_lt (above : isAbove e slot = true) : room (some e) < room slot := by
  have hrange := e.toNat_lt
  have hsize : UInt64.size = 18446744073709551616 := rfl
  cases slot with
  | none =>
    rw [room, room]
    omega
  | some old =>
    have hlt := UInt64.lt_iff_toNat_lt.mp (Frontier.lt_of_isAbove above)
    rw [room, room]
    omega

/-- After finitely many rounds the slot is the newest edition that can be reached; exactly the
rounds before find something. -/
theorem rounds_converge (holds : Edition → Bool) (one : 1 ≤ settings.minFailures.toNat)
    (fits : settings.minFailures.toNat ≤ settings.maxProbes.toNat) (origin : Edition)
    (slot : Option Edition) :
    ∃ n newest, IsNewest settings holds origin slot newest ∧
      ∀ k, (slotAfter settings holds origin slot k = newest ↔ n ≤ k) ∧
        (outcome settings holds origin (slotAfter settings holds origin slot k)).found =
          decide (k < n) := by
  -- the slot rises with each round that finds something, so there is less and less room
  induction hroom : room slot using Nat.strongRecOn generalizing slot with
  | ind size ih =>
    rcases outcome_cases holds one fits origin slot with
      ⟨ho, hnone⟩ | ⟨e, ho, habove, hreach⟩
    · have hstays (k : Nat) : slotAfter settings holds origin slot k = slot := by
        induction k with
        | zero => rfl
        | succ k hk =>
          rw [slotAfter, ho]
          exact hk
      refine ⟨0, slot, ⟨.inl rfl, fun x hx => ?_⟩, fun k => ⟨?_, ?_⟩⟩
      · rcases hx with hslot | hx
        · rw [hslot]
          exact decide_eq_false (UInt64.lt_irrefl x)
        · exact hnone x hx
      · rw [hstays]
        simp
      · rw [hstays, ho]
        simp
    · have hless : room (some e) < size := hroom ▸ room_lt habove
      obtain ⟨n, newest, hnewest, hrounds⟩ := ih (room (some e)) hless (some e) rfl
      have hafter (k : Nat) : slotAfter settings holds origin slot (k + 1) =
          slotAfter settings holds origin (some e) k := by
        rw [slotAfter, ho]
      have hne : slot ≠ newest := by
        intro hs
        have htop := hnewest.bound e (.inl rfl)
        rw [← hs, habove] at htop
        cases htop
      refine ⟨n + 1, newest, hnewest.of_rose habove hreach, fun k => ?_⟩
      cases k with
      | zero =>
        rw [slotAfter, ho]
        simp [hne]
      | succ k =>
        obtain ⟨hslot, hfound⟩ := hrounds k
        rw [hafter, hslot, hfound]
        simp

end Walk

end Round

end EditionWatch
