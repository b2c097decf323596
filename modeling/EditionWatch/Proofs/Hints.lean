import EditionWatch.Proofs.Convergence

/-!
# Rounds with hints

A round with hints is a walk after the first hint that is not known yet and exists has raised the
slot; without such a hint it is the walk that it would have been anyway.

So an edition that is given to a poller as a hint is probed alone, and the poller walks from where
it always does. This shows at least as much as a walk from the hinted edition on, if the poller
then sets out from this edition or from the one behind it. From anywhere else, there may be
something that only the walk from the hinted edition comes to.
-/

namespace EditionWatch

namespace Round

/-- The first of some hints that is not below the first unknown edition and exists. -/
def hinted? (holds : Edition → Bool) (slot : Option Edition) (hints : List Edition) :
    Option Edition :=
  hints.find? fun e => decide (Frontier.nextUnknown ⟨slot, none⟩ ≤ e) && holds e

/-- How a round with hints ends. -/
def scan (settings : Settings) (holds : Edition → Bool) (origin : Edition)
    (slot : Option Edition) (hints : List Edition) : Outcome :=
  let hit := hinted? holds slot hints
  let raised := Records.raisedBy slot hit
  walk settings holds settings.maxProbes.toNat (hit.any fun e => isAbove e slot) raised
    (walkStart raised origin) 0

section Scan

variable {settings : Settings} {holds : Edition → Bool} {origin e : Edition}
  {slot : Option Edition} {hints : List Edition}

/-- A round without hints is a walk. -/
@[simp] theorem scan_nil :
    scan settings holds origin slot [] = outcome settings holds origin slot := rfl

/-- The first hint that is unknown and exists is the one that counts. -/
theorem hinted?_cons_of_present (unknown : Frontier.nextUnknown ⟨slot, none⟩ ≤ e)
    (present : holds e = true) : hinted? holds slot (e :: hints) = some e := by
  rw [hinted?, List.find?_cons_of_pos]
  rw [decide_eq_true unknown, present]
  rfl

/-- A hint that is known or does not exist is passed over. -/
theorem hinted?_cons_of_not
    (h : ¬(Frontier.nextUnknown ⟨slot, none⟩ ≤ e ∧ holds e = true)) :
    hinted? holds slot (e :: hints) = hinted? holds slot hints := by
  rw [hinted?, List.find?_cons_of_neg]
  · rfl
  · simpa using h

/-- Hints that are passed over because they are known make no difference. -/
theorem hinted?_filter (hints : List Edition) :
    hinted? holds slot (hints.filter fun e => Frontier.nextUnknown ⟨slot, none⟩ ≤ e) =
      hinted? holds slot hints := by
  rw [hinted?, hinted?, List.find?_filter]
  congr 1
  funext e
  cases decide (Frontier.nextUnknown ⟨slot, none⟩ ≤ e) <;> simp

/-- Of several hints only the one that counts matters. -/
theorem scan_congr {other : List Edition}
    (h : hinted? holds slot hints = hinted? holds slot other) :
    scan settings holds origin slot hints = scan settings holds origin slot other := by
  rw [scan, h, scan]

/-- Without a hint that exists and is not known, a round is the walk that it is anyway. -/
theorem scan_of_none (h : hinted? holds slot hints = none) :
    scan settings holds origin slot hints = outcome settings holds origin slot := by
  have hnil : hinted? holds slot hints = hinted? holds slot [] := h
  rw [scan_congr hnil, scan_nil]

/-- A hint that counts is raised to at once, and the walk goes on from there. -/
theorem scan_cons_of_present (unknown : Frontier.nextUnknown ⟨slot, none⟩ ≤ e)
    (present : holds e = true) :
    scan settings holds origin slot (e :: hints) =
      walk settings holds settings.maxProbes.toNat (isAbove e slot) (raised slot e)
        (walkStart (raised slot e) origin) 0 := by
  rw [scan, hinted?_cons_of_present unknown present]
  rfl

/-- Rounds that walk from the same edition come out the same. -/
theorem outcome_congr {other : Edition} (h : walkStart slot origin = walkStart slot other) :
    outcome settings holds origin slot = outcome settings holds other slot := by
  rw [outcome, h, outcome]

/-! ## Which walk shows more -/

/-- A walk never lowers the slot. -/
theorem le_slot_walk (probes : Nat) (found : Bool) (slot : Option Edition) (e : Edition)
    (misses : Nat) : slot ≤ (walk settings holds probes found slot e misses).slot := by
  induction probes generalizing found slot e misses with
  | zero => exact slot_le_refl slot
  | succ probes ih =>
    rw [walk]
    split
    · split
      · exact slot_le_trans (le_raised slot e) (ih _ _ _ _)
      · exact ih found slot (Edition.next e) (misses + 1)
    · exact slot_le_refl slot

/-- From the same edition on, a walk shows no less if its slot is no lower, if it has missed no
more and if it has as many probes left. -/
theorem slot_walk_le {probes more misses fewer : Nat} {lower upper : Option Edition}
    (left : probes ≤ more) (missed : fewer ≤ misses) (slots : lower ≤ upper)
    (found found' : Bool) (e : Edition) :
    (walk settings holds probes found lower e misses).slot ≤
      (walk settings holds more found' upper e fewer).slot := by
  induction probes generalizing more misses fewer lower upper found found' e with
  | zero => exact slot_le_trans slots (le_slot_walk more found' upper e fewer)
  | succ probes ih =>
    cases more with
    | zero => exact absurd left (Nat.not_succ_le_zero probes)
    | succ more =>
      have hleft : probes ≤ more := Nat.le_of_succ_le_succ left
      by_cases hgoes : misses < settings.minFailures.toNat
      · have hgoes' : fewer < settings.minFailures.toNat := Nat.lt_of_le_of_lt missed hgoes
        rw [walk, walk, if_pos hgoes, if_pos hgoes']
        cases holds e with
        | true => exact ih hleft (Nat.le_refl 0) (raised_le_raised slots e) _ _ _
        | false => exact ih hleft (Nat.succ_le_succ missed) slots _ _ _
      · rw [walk, if_neg hgoes]
        exact slot_le_trans slots (le_slot_walk (more + 1) found' upper e fewer)

/-- An edition that is not below the first unknown one raises the slot to itself. -/
theorem raised_of_nextUnknown_le (h : Frontier.nextUnknown ⟨slot, none⟩ ≤ e) :
    raised slot e = some e := by
  cases habove : isAbove e slot with
  | true => exact raised_of_isAbove habove
  | false =>
    rw [raised_of_not_isAbove habove]
    cases slot with
    | none => cases habove
    | some old =>
      -- only the last edition of all is not below its own next one
      have hle : e ≤ old := UInt64.not_lt.mp (of_decide_eq_false habove)
      have hold := UInt64.le_iff_toNat_le.mp hle
      have hnext := UInt64.le_iff_toNat_le.mp h
      change (Edition.next old).toNat ≤ e.toNat at hnext
      rw [Edition.toNat_next] at hnext
      have hrange := old.toNat_lt
      have hsize : UInt64.size = 18446744073709551616 := rfl
      exact congrArg some (UInt64.toNat_inj.mp (by omega))

/-- A walk from an edition on shows no more than this edition alone does and a walk from the one
behind it. -/
theorem slot_outcome_le (unknown : Frontier.nextUnknown ⟨slot, none⟩ ≤ e) (found : Bool) :
    (outcome settings holds e slot).slot ≤
      (walk settings holds settings.maxProbes.toNat found
        (if holds e then raised slot e else slot) (Edition.next e) 0).slot := by
  have hkept : slot ≤ if holds e then raised slot e else slot := by
    cases holds e with
    | true => exact le_raised slot e
    | false => exact slot_le_refl slot
  rw [outcome, walkStart, Edition.max_eq_right unknown]
  cases settings.maxProbes.toNat with
  | zero => exact hkept
  | succ probes =>
    rw [walk]
    split
    case isTrue =>
      have hmore : probes ≤ probes + 1 := Nat.le_succ probes
      cases holds e with
      | true => exact slot_walk_le hmore (Nat.le_refl 0) (slot_le_refl _) _ found _
      | false => exact slot_walk_le hmore (Nat.zero_le 1) (slot_le_refl _) _ found _
    case isFalse => exact slot_le_trans hkept (le_slot_walk _ _ _ _ _)

/-- A hint that is known makes no difference, and neither does where a walk would begin that has to
begin further ahead. -/
theorem scan_of_known (known : e < Frontier.nextUnknown ⟨slot, none⟩)
    (near : walkStart slot origin ≤ Frontier.nextUnknown ⟨slot, none⟩) :
    scan settings holds origin slot [e] = outcome settings holds e slot := by
  have hhit : hinted? holds slot [e] = none :=
    hinted?_cons_of_not fun h => UInt64.not_le.mpr known h.1
  have hbegin : walkStart slot origin = Frontier.nextUnknown ⟨slot, none⟩ :=
    UInt64.le_antisymm near Std.left_le_max
  have hfresh : walkStart slot e = Frontier.nextUnknown ⟨slot, none⟩ :=
    Std.LawfulOrderLeftLeaningMax.max_eq_left _ _ (UInt64.le_of_lt known)
  rw [scan_of_none hhit, outcome_congr (hbegin.trans hfresh.symm)]

/-- A hint that exists shows enough if the walk then sets out from the edition behind it. -/
theorem slot_outcome_le_scan_of_present (unknown : Frontier.nextUnknown ⟨slot, none⟩ ≤ e)
    (present : holds e = true) (near : walkStart (raised slot e) origin ≤ Edition.next e) :
    (outcome settings holds e slot).slot ≤ (scan settings holds origin slot [e]).slot := by
  have hbegin : walkStart (raised slot e) origin = Edition.next e := by
    refine UInt64.le_antisymm near ?_
    rw [raised_of_nextUnknown_le unknown]
    exact Std.left_le_max
  have hle : (outcome settings holds e slot).slot ≤ (walk settings holds
      settings.maxProbes.toNat (isAbove e slot) (if holds e then raised slot e else slot)
      (Edition.next e) 0).slot := slot_outcome_le unknown _
  rw [present, if_pos rfl] at hle
  rw [scan_cons_of_present unknown present, hbegin]
  exact hle

/-- A hint that does not exist shows enough if the walk sets out from the edition or from the one
behind it. -/
theorem slot_outcome_le_scan_of_absent (unknown : Frontier.nextUnknown ⟨slot, none⟩ ≤ e)
    (absent : holds e = false) (above : e ≤ walkStart slot origin)
    (near : walkStart slot origin ≤ Edition.next e) :
    (outcome settings holds e slot).slot ≤ (scan settings holds origin slot [e]).slot := by
  have hhit : hinted? holds slot [e] = none :=
    hinted?_cons_of_not fun h => Bool.false_ne_true (absent.symm.trans h.2)
  rw [scan_of_none hhit]
  by_cases hsame : e = walkStart slot origin
  · have hfresh : walkStart slot e = walkStart slot origin :=
      (Edition.max_eq_right unknown).trans hsame
    rw [outcome_congr hfresh]
    exact slot_le_refl _
  · have hbegin : walkStart slot origin = Edition.next e :=
      UInt64.le_antisymm near (Edition.next_le_of_lt (UInt64.lt_of_le_of_ne above hsame))
    have hle : (outcome settings holds e slot).slot ≤ (walk settings holds
        settings.maxProbes.toNat false (if holds e then raised slot e else slot)
        (Edition.next e) 0).slot := slot_outcome_le unknown false
    rw [absent, if_neg Bool.false_ne_true] at hle
    rw [outcome.eq_def settings holds origin, hbegin]
    exact hle

/-- With an edition as the only hint, a round shows no less than one that walks from this edition
on, if it sets out neither from below it nor from behind the first edition that is both unknown
and above it. -/
theorem slot_outcome_le_scan (holds : Edition → Bool) (origin e : Edition) (slot : Option Edition)
    (above : e ≤ walkStart (Records.raisedBy slot (hinted? holds slot [e])) origin)
    (near : walkStart (Records.raisedBy slot (hinted? holds slot [e])) origin ≤
      max (Frontier.nextUnknown ⟨slot, none⟩) (Edition.next e)) :
    (outcome settings holds e slot).slot ≤ (scan settings holds origin slot [e]).slot := by
  by_cases hunknown : Frontier.nextUnknown ⟨slot, none⟩ ≤ e
  case neg =>
    have hknown : e < Frontier.nextUnknown ⟨slot, none⟩ := UInt64.not_le.mp hunknown
    have hhit : hinted? holds slot [e] = none := hinted?_cons_of_not fun h => hunknown h.1
    have hfirst := Std.LawfulOrderLeftLeaningMax.max_eq_left _ _ (Edition.next_le_of_lt hknown)
    rw [hhit, hfirst] at near
    rw [scan_of_known hknown near]
    exact slot_le_refl _
  case pos =>
    have hnext := Edition.max_eq_right (UInt64.le_trans hunknown e.le_next)
    rw [hnext] at near
    cases hpresent : holds e with
    | true =>
      rw [hinted?_cons_of_present hunknown hpresent] at near
      exact slot_outcome_le_scan_of_present hunknown hpresent near
    | false =>
      have hhit : hinted? holds slot [e] = none :=
        hinted?_cons_of_not fun h => Bool.false_ne_true (hpresent.symm.trans h.2)
      rw [hhit] at above near
      exact slot_outcome_le_scan_of_absent hunknown hpresent above near

/-! ## When hints show enough whatever there is -/

/-- A walk that only missing editions lie ahead of leaves the slot as it is. -/
theorem slot_walk_of_absent (absent : ∀ x, e ≤ x → holds x = false) (probes : Nat)
    (found : Bool) (misses : Nat) :
    (walk settings holds probes found slot e misses).slot = slot := by
  induction probes generalizing e misses with
  | zero => rfl
  | succ probes ih =>
    rw [walk]
    split
    · rw [absent e (UInt64.le_refl e), if_neg Bool.false_ne_true]
      exact ih (fun x hx => absent x (UInt64.le_trans e.le_next hx)) _
    · rfl

/-- No round lowers the slot. -/
theorem le_slot_scan (hints : List Edition) :
    slot ≤ (scan settings holds origin slot hints).slot := by
  refine slot_le_trans ?_ (le_slot_walk _ _ _ _ _)
  cases hinted? holds slot hints with
  | none => exact slot_le_refl slot
  | some e => exact le_raised slot e

/-- The settings under which a walk gives up after two misses, and after two probes. -/
def brief : Settings := { Settings.standard with minFailures := 2, maxProbes := 2 }

/-- A walk comes to the edition that it stands at, if this exists. -/
theorem some_le_slot_walk (present : holds e = true) {misses : Nat}
    (goes : misses < settings.minFailures.toNat) (probes : Nat) (found : Bool) :
    some e ≤ (walk settings holds (probes + 1) found slot e misses).slot := by
  rw [walk, if_pos goes, if_pos present]
  exact slot_le_trans (some_le_raised slot e) (le_slot_walk _ _ _ _ _)

/-- If there is nothing but one edition, a brief round comes to it only from there or from the
edition before. -/
theorem some_le_slot_brief_iff {x : Edition} (above : isAbove x slot = true) :
    some x ≤ (outcome brief (fun y => y = x) origin slot).slot ↔
      walkStart slot origin ≤ x ∧ x ≤ Edition.next (walkStart slot origin) := by
  have hmiss (y : Edition) (h : y ≠ x) : decide (y = x) = false := decide_eq_false h
  have hprobes : brief.maxProbes.toNat = 2 := rfl
  have hone : 1 < brief.minFailures.toNat := by decide
  have hzero : 0 < brief.minFailures.toNat := by decide
  have hnone := not_some_le_of_isAbove above
  rw [outcome, hprobes]
  by_cases hle : walkStart slot origin ≤ x
  case neg =>
    have hlt : x < walkStart slot origin := UInt64.not_le.mp hle
    have hslot : (walk brief (fun y => y = x) 2 false slot (walkStart slot origin) 0).slot = slot :=
      slot_walk_of_absent
        (fun y hy => hmiss y (UInt64.ne_of_lt (UInt64.lt_of_lt_of_le hlt hy)).symm) 2 false 0
    rw [hslot]
    exact iff_of_false hnone fun h => hle h.1
  case pos =>
    by_cases hhere : walkStart slot origin = x
    · rw [hhere]
      exact iff_of_true (some_le_slot_walk (decide_eq_true rfl) hzero 1 false)
        ⟨UInt64.le_refl x, x.le_next⟩
    · have hlt : walkStart slot origin < x := UInt64.lt_of_le_of_ne hle hhere
      rw [walk, if_pos hzero, hmiss _ hhere, if_neg Bool.false_ne_true]
      by_cases hnext : Edition.next (walkStart slot origin) = x
      · rw [hnext]
        exact iff_of_true (some_le_slot_walk (decide_eq_true rfl) hone 0 false)
          ⟨hle, UInt64.le_refl x⟩
      · have hbehind : Edition.next (walkStart slot origin) < x :=
          UInt64.lt_of_le_of_ne (Edition.next_le_of_lt hlt) hnext
        rw [walk, if_pos hone, hmiss _ hnext, if_neg Bool.false_ne_true, walk]
        exact iff_of_false hnone fun h => UInt64.not_le.mpr hbehind h.2

/-- With the last edition of all as the only hint, a round shows no less than one that walks from
there. -/
theorem slot_outcome_last_le_scan (holds : Edition → Bool) (origin : Edition)
    (slot : Option Edition) :
    (outcome settings holds Edition.last slot).slot ≤
      (scan settings holds origin slot [Edition.last]).slot := by
  have hunknown : Frontier.nextUnknown ⟨slot, none⟩ ≤ Edition.last := Edition.le_last _
  cases hpresent : holds Edition.last with
  | true =>
    rw [scan_cons_of_present hunknown hpresent, raised_of_nextUnknown_le hunknown]
    refine slot_le_trans ?_ (le_slot_walk _ _ (some Edition.last) _ _)
    cases (outcome settings holds Edition.last slot).slot with
    | none => exact Option.none_le
    | some e => exact Option.some_le_some.mpr e.le_last
  | false =>
    have hslot : (outcome settings holds Edition.last slot).slot = slot := by
      rw [outcome, walkStart, Edition.max_eq_right hunknown]
      refine slot_walk_of_absent (fun x hx => ?_) _ _ _
      rw [UInt64.le_antisymm x.le_last hx]
      exact hpresent
    rw [hslot]
    exact le_slot_scan _

/-- An edition as the only hint always shows as much as a walk from this edition on, whatever
exists and whatever ends a walk. -/
def HintCovers (origin e : Edition) (slot : Option Edition) : Prop :=
  ∀ settings holds,
    (outcome settings holds e slot).slot ≤ (scan settings holds origin slot [e]).slot

/-- A single edition that the walk comes to, the round with the hint has to come to as well. -/
theorem HintCovers.comes (h : HintCovers origin e slot) {x : Edition}
    (above : isAbove x slot = true) (other : e ≠ x)
    (comes : walkStart slot e ≤ x ∧ x ≤ Edition.next (walkStart slot e)) :
    walkStart slot origin ≤ x ∧ x ≤ Edition.next (walkStart slot origin) := by
  have hhit : hinted? (fun y => decide (y = x)) slot [e] = none :=
    hinted?_cons_of_not fun hh => other (of_decide_eq_true hh.2)
  have hle := h brief fun y => decide (y = x)
  rw [scan_of_none hhit] at hle
  have hfresh := (some_le_slot_brief_iff above).mpr comes
  exact (some_le_slot_brief_iff above).mp (slot_le_trans hfresh hle)

/-- A hint that covers is not far below the place from which the walk begins. -/
theorem HintCovers.near (h : HintCovers origin e slot) :
    walkStart slot origin ≤ max (Frontier.nextUnknown ⟨slot, none⟩) (Edition.next e) := by
  let first : Edition := max (Frontier.nextUnknown ⟨slot, none⟩) (Edition.next e)
  have hunknown : Frontier.nextUnknown ⟨slot, none⟩ ≤ first := Std.left_le_max
  have hnext : Edition.next e ≤ first := Std.right_le_max
  refine UInt64.not_lt.mp fun hlt => ?_
  have habove : isAbove first slot = true :=
    Frontier.isAbove_of_nextUnknown_lt hunknown (UInt64.lt_of_le_of_lt hunknown hlt)
  have hahead : e < Edition.next e :=
    Edition.lt_next_of_next_lt (UInt64.lt_of_le_of_lt hnext hlt)
  have hcomes : walkStart slot e ≤ first ∧ first ≤ Edition.next (walkStart slot e) :=
    ⟨Std.max_le_iff.mpr ⟨hunknown, UInt64.le_trans e.le_next hnext⟩,
      Std.max_le_iff.mpr ⟨UInt64.le_trans Std.left_le_max (Edition.le_next _),
        Edition.next_le_next Std.right_le_max⟩⟩
  have hother : e ≠ first := UInt64.ne_of_lt (UInt64.lt_of_lt_of_le hahead hnext)
  exact UInt64.not_le.mpr hlt (h.comes habove hother hcomes).1

/-- A hint that covers is not above the place from which the walk begins, unless it is the last
one. -/
theorem HintCovers.above (h : HintCovers origin e slot) :
    e ≤ walkStart slot origin ∨ e = Edition.last := by
  refine Decidable.or_iff_not_imp_right.mpr fun hlast => UInt64.not_lt.mp fun hlt => ?_
  have hunknown : Frontier.nextUnknown ⟨slot, none⟩ < e :=
    UInt64.lt_of_le_of_lt Std.left_le_max hlt
  have hfresh : walkStart slot e = e := Edition.max_eq_right (UInt64.le_of_lt hunknown)
  have hahead : e < Edition.next e := by
    rw [UInt64.lt_iff_toNat_lt, Edition.toNat_next_of_ne_last hlast]
    omega
  have habove : isAbove (Edition.next e) slot = true :=
    Frontier.isAbove_of_nextUnknown_lt
      (UInt64.le_trans (UInt64.le_of_lt hunknown) e.le_next) hunknown
  have hcomes := h.comes habove (UInt64.ne_of_lt hahead)
    ⟨hfresh.symm ▸ e.le_next, hfresh.symm ▸ UInt64.le_refl _⟩
  exact UInt64.not_le.mpr hahead (UInt64.le_trans hcomes.2 (Edition.next_le_of_lt hlt))

/-- Also if the edition exists, the walk behind it begins in the right place. -/
theorem hintCovers_of_walkStart (above : e ≤ walkStart slot origin)
    (near : walkStart slot origin ≤ max (Frontier.nextUnknown ⟨slot, none⟩) (Edition.next e)) :
    HintCovers origin e slot := by
  intro settings holds
  cases hhit : hinted? holds slot [e] with
  | none =>
    refine slot_outcome_le_scan holds origin e slot ?_ ?_
    · rw [hhit]
      exact above
    · rw [hhit]
      exact near
  | some hit =>
    have hsome := List.find?_some hhit
    have hsame := List.mem_singleton.mp (List.mem_of_find?_eq_some hhit)
    subst hsame
    rw [Bool.and_eq_true, decide_eq_true_eq] at hsome
    have hbegin : walkStart (Records.raisedBy slot (some hit)) origin =
        max (Edition.next hit) origin :=
      congrArg (walkStart · origin) (raised_of_nextUnknown_le hsome.1)
    refine slot_outcome_le_scan holds origin hit slot ?_ ?_
    · rw [hhit, hbegin]
      exact UInt64.le_trans hit.le_next Std.left_le_max
    · rw [hhit, hbegin]
      exact Std.max_le_iff.mpr ⟨Std.right_le_max, UInt64.le_trans Std.right_le_max near⟩

/-- A hint always shows enough exactly if the round would set out from the hinted edition or from
the one behind it, as far as they are unknown, or if the edition is the last of all. -/
theorem hintCovers_iff (origin e : Edition) (slot : Option Edition) :
    HintCovers origin e slot ↔
      walkStart slot origin ≤ max (Frontier.nextUnknown ⟨slot, none⟩) (Edition.next e) ∧
        (e ≤ walkStart slot origin ∨ e = Edition.last) := by
  refine ⟨fun h => ⟨h.near, h.above⟩, fun ⟨hnear, habove⟩ => ?_⟩
  rcases habove with habove | hlast
  · exact hintCovers_of_walkStart habove hnear
  · subst hlast
    exact fun _ holds => slot_outcome_last_le_scan holds origin slot

end Scan

end Round

end EditionWatch
