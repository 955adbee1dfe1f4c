import Mathlib.Algebra.Order.Field.Rat
import Mathlib.Algebra.Order.Group.Pointwise.Interval
import Mathlib.Tactic.Linarith
import Mathlib.Tactic.NormNum
import Mathlib.Tactic.Positivity
import Mathlib.Tactic.Ring
import VirtualList.Tween

/-!
# The way of a tween

In exact arithmetic a tween leaves its origin at the start, comes no less close to its destination
as time goes by, and is there when its time is over.  Three things come together for this: the part
of the time that has passed grows from zero to one, every easing turns it into a part of the way that
does the same, and between two ends that are not negative the bound at zero is never reached.

## Key results

- `Easing.monotoneOn_sample`, `Easing.sample_zero`, `Easing.sample_one`: an easing rises from zero to
  one
- `Tween.progress_mono`, `Tween.progress_mem`: so does the part of the time that has passed
- `Tween.sample_eq`: the value at a time without the bound at zero
- `Tween.approaches_destination`: all of it
-/

namespace VirtualList

/-! ## Easings -/

namespace Easing

theorem half_eq : (Scalar.half : Rat) = 1 / 2 := by
  norm_num [Scalar.half]

/-- The smooth step rises: between two times the way covered is a multiple of the time in between. -/
theorem smoothStep_le {s t : Rat} (hs : 0 ≤ s) (hst : s ≤ t) (ht : t ≤ 1) :
    s * s * (3 - 2 * s) ≤ t * t * (3 - 2 * t) := by
  have hfactor : t * t * (3 - 2 * t) - s * s * (3 - 2 * s) =
      (t - s) * (3 * (t + s) - 2 * (t * t + t * s + s * s)) := by ring
  have htt : t * t ≤ t := mul_le_of_le_one_left (hs.trans hst) ht
  have hss : s * s ≤ s := mul_le_of_le_one_left hs (hst.trans ht)
  have hts : t * s ≤ s := mul_le_of_le_one_left hs ht
  have hrate : 0 ≤ 3 * (t + s) - 2 * (t * t + t * s + s * s) := by linarith
  have hway := mul_nonneg (sub_nonneg.2 hst) hrate
  linarith

/-- The first piece of the cubic easing ends at one half. -/
theorem cubicIn_le {t : Rat} (h0 : 0 ≤ t) (ht : t < 1 / 2) : 4 * t * t * t ≤ 1 / 2 := by
  have hcube := pow_le_pow_left₀ h0 ht.le 3
  linarith

/-- The second piece of the cubic easing begins at one half. -/
theorem le_cubicOut {t : Rat} (h : 1 / 2 ≤ t) (ht : t ≤ 1) :
    1 / 2 ≤ 1 - (2 - 2 * t) * (2 - 2 * t) * (2 - 2 * t) / 2 := by
  have hrest : 2 - 2 * t ≤ 1 := by linarith
  have hcube := pow_le_pow_left₀ (show 0 ≤ 2 - 2 * t by linarith) hrest 3
  linarith

/-- The part of the way does not shrink as time goes by. -/
theorem monotoneOn_sample (easing : Easing) :
    MonotoneOn (easing.sample : Rat → Rat) (Set.Icc 0 1) := by
  intro s hs t ht hst
  obtain ⟨hs0, hs1⟩ := hs
  obtain ⟨ht0, ht1⟩ := ht
  cases easing with
  | linear => exact hst
  | smoothStep =>
    simp only [sample, Nat.cast_ofNat]
    exact smoothStep_le hs0 hst ht1
  | easeInOutCubic =>
    simp only [sample, half_eq, Nat.cast_ofNat, Nat.cast_one]
    split_ifs with h h'
    · -- Both times lie in the first piece.
      have hcube := pow_le_pow_left₀ hs0 hst 3
      linarith
    · -- The pieces meet at one half.
      exact (cubicIn_le hs0 h).trans (le_cubicOut (not_lt.1 h') ht1)
    · linarith
    · have hrest : 2 - 2 * t ≤ 2 - 2 * s := by linarith
      have hcube := pow_le_pow_left₀ (show 0 ≤ 2 - 2 * t by linarith) hrest 3
      linarith

/-- At the beginning nothing of the way is covered. -/
@[simp] theorem sample_zero (easing : Easing) : easing.sample (0 : Rat) = 0 := by
  cases easing <;> simp [sample, half_eq]

/-- At the end all of it is. -/
@[simp] theorem sample_one (easing : Easing) : easing.sample (1 : Rat) = 1 := by
  cases easing <;> norm_num [sample, half_eq]

theorem sample_mem (easing : Easing) {t : Rat} (ht : t ∈ Set.Icc 0 1) :
    easing.sample t ∈ Set.Icc 0 1 := by
  have h0 := easing.monotoneOn_sample (by simp) ht ht.1
  have h1 := easing.monotoneOn_sample ht (by simp) ht.2
  rw [sample_zero] at h0
  rw [sample_one] at h1
  exact ⟨h0, h1⟩

end Easing

/-! ## Time -/

namespace Tween

variable {tween : Tween Rat} {now : Nat}

/-- The part of the time that has passed is a quotient, cut off at one. -/
theorem progress_eq (tween : Tween Rat) (now : Nat) :
    tween.progress now = min ((tween.elapsed now : Rat) / tween.duration) 1 := by
  have hnonneg : (0 : Rat) ≤ (tween.elapsed now : Rat) / tween.duration := by positivity
  show Scalar.confine ((tween.elapsed now : Rat) / tween.duration) 0 ((1 : Nat) : Rat) = _
  rw [Scalar.confine, if_neg (not_lt.2 hnonneg), Nat.cast_one, min_def]
  split_ifs <;> linarith

theorem progress_mem (tween : Tween Rat) (now : Nat) : tween.progress now ∈ Set.Icc 0 1 := by
  rw [progress_eq]
  exact ⟨le_min (by positivity) zero_le_one, min_le_right _ _⟩

/-- Time does not go backward. -/
theorem progress_mono (tween : Tween Rat) {a b : Nat} (hab : a ≤ b) :
    tween.progress a ≤ tween.progress b := by
  have helapsed : tween.elapsed a ≤ tween.elapsed b := Nat.sub_le_sub_right hab tween.start
  rw [progress_eq, progress_eq]
  gcongr

/-- Before the start no time has passed. -/
theorem progress_of_le_start (h : now ≤ tween.start) : tween.progress now = 0 := by
  have helapsed : tween.elapsed now = 0 := Nat.sub_eq_zero_of_le h
  simp [progress_eq, helapsed]

/-- When the movement is over all of the time has passed. -/
theorem progress_of_isDone (hpos : 0 < tween.duration) (h : tween.isDone now = true) :
    tween.progress now = 1 := by
  have hle : tween.duration ≤ tween.elapsed now := of_decide_eq_true h
  have hquotient : (1 : Rat) ≤ (tween.elapsed now : Rat) / tween.duration := by
    rw [one_le_div (by exact_mod_cast hpos)]
    exact_mod_cast hle
  rw [progress_eq, min_eq_right hquotient]

/-! ## Values -/

/-- The part of the way that is covered at a time. -/
def covered (tween : Tween Rat) (now : Nat) : Rat := tween.easing.sample (tween.progress now)

theorem covered_mem (tween : Tween Rat) (now : Nat) : tween.covered now ∈ Set.Icc 0 1 :=
  tween.easing.sample_mem (tween.progress_mem now)

theorem covered_mono (tween : Tween Rat) {a b : Nat} (hab : a ≤ b) :
    tween.covered a ≤ tween.covered b :=
  tween.easing.monotoneOn_sample (tween.progress_mem a) (tween.progress_mem b)
    (tween.progress_mono hab)

/-- Between two ends that are not negative the value is what the part of the way gives: the bound at
zero is not reached. -/
theorem sample_eq (horigin : 0 ≤ tween.origin) (hdestination : 0 ≤ tween.destination) (now : Nat) :
    tween.sample now =
      tween.origin + (tween.destination - tween.origin) * tween.covered now := by
  obtain ⟨h0, h1⟩ := tween.covered_mem now
  have hahead := mul_nonneg horigin (sub_nonneg.2 h1)
  have hbehind := mul_nonneg hdestination h0
  have hnonneg :
      0 ≤ tween.origin + (tween.destination - tween.origin) * tween.covered now := by linarith
  show (if _ ≤ _ then _ else _) = _
  split_ifs with hle
  · exact le_antisymm hnonneg hle
  · rfl

theorem sample_of_le_start (horigin : 0 ≤ tween.origin) (hdestination : 0 ≤ tween.destination)
    (h : now ≤ tween.start) : tween.sample now = tween.origin := by
  rw [sample_eq horigin hdestination, covered, progress_of_le_start h, Easing.sample_zero, mul_zero,
    add_zero]

theorem sample_of_isDone (horigin : 0 ≤ tween.origin) (hdestination : 0 ≤ tween.destination)
    (hpos : 0 < tween.duration) (h : tween.isDone now = true) :
    tween.sample now = tween.destination := by
  rw [sample_eq horigin hdestination, covered, progress_of_isDone hpos h, Easing.sample_one, mul_one]
  ring

/-- From one time to a later one the value moves towards the destination, and not beyond it. -/
theorem sample_mem_uIcc_sample (horigin : 0 ≤ tween.origin) (hdestination : 0 ≤ tween.destination)
    {a b : Nat} (hab : a ≤ b) :
    tween.sample b ∈ Set.uIcc (tween.sample a) tween.destination := by
  have hmono := tween.covered_mono hab
  have hrest : 0 ≤ 1 - tween.covered b := sub_nonneg.2 (tween.covered_mem b).2
  rw [Set.mem_uIcc]
  -- The ends may be either way round.
  rcases le_total tween.origin tween.destination with hup | hdown
  · left
    have hway := mul_le_mul_of_nonneg_left hmono (sub_nonneg.2 hup)
    have hahead := mul_nonneg (sub_nonneg.2 hup) hrest
    rw [sample_eq horigin hdestination a, sample_eq horigin hdestination b]
    constructor <;> linarith
  · right
    have hway := mul_le_mul_of_nonneg_left hmono (sub_nonneg.2 hdown)
    have hahead := mul_nonneg (sub_nonneg.2 hdown) hrest
    rw [sample_eq horigin hdestination a, sample_eq horigin hdestination b]
    constructor <;> linarith

/-- At any time the value lies between the ends: it has moved on from the origin, or not yet. -/
theorem sample_mem_uIcc (horigin : 0 ≤ tween.origin) (hdestination : 0 ≤ tween.destination)
    (now : Nat) : tween.sample now ∈ Set.uIcc tween.origin tween.destination := by
  have hmoved := sample_mem_uIcc_sample horigin hdestination (Nat.min_le_left now tween.start)
  rwa [sample_of_le_start horigin hdestination (Nat.min_le_right now tween.start)] at hmoved

/-- Where both ends are moved, so is every value in between. -/
theorem sample_shift (horigin : 0 ≤ tween.origin) (hdestination : 0 ≤ tween.destination)
    {delta : Rat} (horigin' : 0 ≤ tween.origin + delta)
    (hdestination' : 0 ≤ tween.destination + delta) (now : Nat) :
    (tween.shift delta).sample now = tween.sample now + delta := by
  -- The time that has passed and the easing are those of the tween itself.
  have hcovered : (tween.shift delta).covered now = tween.covered now := rfl
  have hmoved : 0 ≤ (tween.shift delta).origin := horigin'
  have hmoved' : 0 ≤ (tween.shift delta).destination := hdestination'
  rw [sample_eq hmoved hmoved', hcovered, sample_eq horigin hdestination]
  simp only [shift]
  ring

/-- In exact arithmetic a tween between two ends that are not negative

* is at its origin up to the start, between its ends at any time, and at its destination once it is
  done;
* only ever moves towards its destination, and never beyond it;
* moves along where its ends are moved, as long as these do not become negative.

It can rely on its easing to rise from zero to one as the time does. -/
theorem approaches_destination {origin destination : Rat} (start duration : Nat) (easing : Easing)
    {a b : Nat} (horigin : 0 ≤ origin) (hdestination : 0 ≤ destination) (hab : a ≤ b) :
    let tween := ofDuration origin destination start duration easing
    (tween.sample a ∈ Set.uIcc origin destination ∧ tween.sample b ∈ Set.uIcc origin destination) ∧
      tween.sample b ∈ Set.uIcc (tween.sample a) destination ∧
      |destination - tween.sample b| ≤ |destination - tween.sample a| ∧
      (∀ now ≤ start, tween.sample now = origin) ∧
      (∀ now, tween.isDone now = true → tween.sample now = destination) ∧
      (∀ delta, 0 ≤ origin + delta → 0 ≤ destination + delta → ∀ now,
        (tween.shift delta).sample now = tween.sample now + delta) ∧
      MonotoneOn (easing.sample : Rat → Rat) (Set.Icc 0 1) ∧
      easing.sample (0 : Rat) = 0 ∧ easing.sample (1 : Rat) = 1 := by
  intro tween
  have hfrom : 0 ≤ tween.origin := horigin
  have hto : 0 ≤ tween.destination := hdestination
  have hpos : 0 < tween.duration := Nat.lt_of_lt_of_le Nat.one_pos (Nat.le_max_right duration 1)
  have hmoved : tween.sample b ∈ Set.uIcc (tween.sample a) destination :=
    sample_mem_uIcc_sample hfrom hto hab
  have hcloser : |destination - tween.sample b| ≤ |destination - tween.sample a| :=
    Set.abs_sub_right_of_mem_uIcc hmoved
  refine ⟨⟨?_, ?_⟩, hmoved, hcloser, ?_, ?_, ?_, easing.monotoneOn_sample, easing.sample_zero,
    easing.sample_one⟩
  · exact sample_mem_uIcc hfrom hto a
  · exact sample_mem_uIcc hfrom hto b
  · intro now hnow
    exact sample_of_le_start hfrom hto hnow
  · intro now hdone
    exact sample_of_isDone hfrom hto hpos hdone
  · intro delta horigin' hdestination' now
    exact sample_shift hfrom hto horigin' hdestination' now

/-- A way back is looked at in both pieces of the cubic easing, and moved down. -/
theorem approaches_destination_of_wayBack :
    let tween := ofDuration (100 : Rat) 20 10 40 .easeInOutCubic
    tween.sample 20 = 95 ∧ tween.sample 40 = 25 ∧ tween.isDone 50 = true ∧
      tween.sample 40 ∈ Set.uIcc (tween.sample 20) 20 ∧
      |20 - tween.sample 40| ≤ |20 - tween.sample 20| ∧ tween.sample 7 = 100 ∧
      tween.sample 50 = 20 ∧ (tween.shift (-15)).sample 40 = 25 + -15 := by
  intro tween
  obtain ⟨-, hmoved, hcloser, hstart, hdone, hshift, -⟩ :=
    approaches_destination 10 40 .easeInOutCubic (show (0 : Rat) ≤ 100 by norm_num)
      (show (0 : Rat) ≤ 20 by norm_num) (show 20 ≤ 40 by norm_num)
  have h20 : tween.sample 20 = 95 := by decide +kernel
  have h40 : tween.sample 40 = 25 := by decide +kernel
  have hover : tween.isDone 50 = true := by decide
  have hlower := hshift (-15) (by norm_num) (by norm_num) 40
  rw [show (ofDuration (100 : Rat) 20 10 40 .easeInOutCubic).sample 40 = 25 from h40] at hlower
  exact ⟨h20, h40, hover, hmoved, hcloser, hstart 7 (by norm_num), hdone 50 hover, hlower⟩

end Tween

end VirtualList
