import Strapdown.Proofs.Binary.Counts
import Strapdown.Proofs.Profile
import Strapdown.Proofs.Scenario.Accepted
import Strapdown.Simulation

/-!
The steps of a scenario. Validation adds them up segment by segment and stops at the first one that
is too much, which rejects exactly the scenarios whose rounded products add up to too many steps.
-/
namespace Strapdown.Scenario
open Binary

variable {c : Scenario} {segment : Segment} {segments : List Segment} {i before : ℕ}

/-- The steps that a segment needs: the product of its duration and the sample rate, rounded. -/
def neededSteps (c : Scenario) (segment : Segment) : ℤ := roundAway (toRat (c.samples segment))

theorem Sound.product_nonneg (h : c.Sound) (hs : segment ∈ c.segments) :
    0 ≤ toRat segment.duration * toRat c.rateHz := by
  obtain ⟨hfin, hge, -⟩ := h.segments_sound segment hs
  have hduration := (le_iff_toRat isFinite_zero hfin).mp hge
  rw [toRat_zero] at hduration
  exact mul_nonneg hduration h.toRat_rateHz_pos.le

theorem Sound.toRat_samples_nonneg (h : c.Sound) (hs : segment ∈ c.segments)
    (hfin : (c.samples segment).isFinite = true) : 0 ≤ toRat (c.samples segment) :=
  (rounds_mul hfin).nonneg (h.product_nonneg hs)

/-- The largest number of steps is a binary number. -/
theorem toRat_maxSteps :
    (Float32.ofNat maxSteps).isFinite = true ∧ toRat (Float32.ofNat maxSteps) = maxSteps :=
  toRat_ofNat (k := 390625) (j := 8) (by decide) (by decide) rfl

/-- The check of one segment, in which the limit is a binary number. -/
theorem segment_fits_iff :
    ((roundWhole (c.samples segment)).isFinite &&
        !(decide (roundWhole (c.samples segment) > Float32.ofNat maxSteps))) = true ↔
      (c.samples segment).isFinite = true ∧ c.neededSteps segment ≤ maxSteps := by
  by_cases hfin : (c.samples segment).isFinite = true
  · obtain ⟨hround, hvalue⟩ := toRat_roundWhole hfin
    have hlimit := lt_iff_toRat toRat_maxSteps.1 hround
    rw [toRat_maxSteps.2, hvalue, ← neededSteps] at hlimit
    simp only [hround, hfin, Bool.true_and, true_and, Bool.not_eq_true', decide_eq_false_iff_not]
    rw [gt_iff_lt, hlimit, not_lt]
    exact_mod_cast Iff.rfl
  · have hround := roundWhole_of_not_finite (Bool.not_eq_true _ ▸ hfin)
    rw [hround]
    simp [hfin]

/-- What a segment needs is what is counted, unless it is beyond every limit. -/
theorem toCount_samples (hfin : (c.samples segment).isFinite = true)
    (hnn : 0 ≤ toRat (c.samples segment)) (hle : c.neededSteps segment ≤ maxSteps) :
    (toCount (c.samples segment) : ℤ) = c.neededSteps segment := by
  have hmax : (maxSteps : ℤ) ≤ maxCount := by decide
  rw [toCount_eq hfin hnn, ← neededSteps]
  exact min_eq_left (hle.trans hmax)

theorem neededSteps_sum_nonneg (hnn : ∀ segment ∈ segments, 0 ≤ toRat (c.samples segment)) :
    0 ≤ (segments.map c.neededSteps).sum := by
  apply List.sum_nonneg
  simp only [List.mem_map]
  rintro _ ⟨segment, hs, rfl⟩
  exact roundAway_nonneg (hnn segment hs)

/-- The running total goes beyond the limit exactly when the sum of all does. -/
theorem checkSteps_eq_ok (hbefore : before ≤ maxSteps) (hnn : ∀ segment ∈ segments,
      (c.samples segment).isFinite = true → 0 ≤ toRat (c.samples segment)) :
    c.checkSteps i before segments = .ok () ↔
      (∀ segment ∈ segments, (c.samples segment).isFinite = true) ∧
        before + (segments.map c.neededSteps).sum ≤ maxSteps := by
  induction segments generalizing i before with
  | nil => simpa [checkSteps] using mod_cast hbefore
  | cons segment segments ih =>
    obtain ⟨hhead, htail⟩ := List.forall_mem_cons.mp hnn
    simp only [checkSteps, bind_eq_ok, require_eq_ok, decide_eq_true_eq, segment_fits_iff,
      List.forall_mem_cons, List.map_cons, List.sum_cons]
    -- Both directions need that what is counted here is what the segment needs, which holds within
    -- the limit only: it is checked on the way there, and on the way back it follows from the sum.
    constructor
    · rintro ⟨⟨hfin, hfits⟩, hle, hrest⟩
      obtain ⟨hall, hsum⟩ := (ih hle htail).mp hrest
      push_cast [toCount_samples hfin (hhead hfin) hfits] at hsum
      exact ⟨⟨hfin, hall⟩, by linarith⟩
    · rintro ⟨⟨hfin, hall⟩, hsum⟩
      have hneeded : 0 ≤ c.neededSteps segment := roundAway_nonneg (hhead hfin)
      have hrest := neededSteps_sum_nonneg fun segment hs => htail segment hs (hall segment hs)
      have hfits : c.neededSteps segment ≤ maxSteps := by omega
      have hcount := toCount_samples hfin (hhead hfin) hfits
      have hle : before + toCount (c.samples segment) ≤ maxSteps := by omega
      refine ⟨⟨hfin, hfits⟩, hle, (ih hle htail).mpr ⟨hall, ?_⟩⟩
      push_cast [hcount]
      linarith

theorem validate_eq_ok_iff (h : c.Sound) (hduration : ¬ c.totalDuration ≤ 0.0) :
    c.validate = .ok () ↔
      (∀ segment ∈ c.segments, (c.samples segment).isFinite = true) ∧
        (c.segments.map c.neededSteps).sum ≤ maxSteps := by
  rw [validate_eq_ok, checkSteps_eq_ok (Nat.zero_le _) fun _ hs => h.toRat_samples_nonneg hs,
    Nat.cast_zero, zero_add]
  exact ⟨fun hvalid => hvalid.2.2, fun hsteps => ⟨h, hduration, hsteps⟩⟩

/-- A sum of numbers that are not negative bounds each of them. -/
theorem neededSteps_le_sum (hnn : ∀ segment ∈ segments, 0 ≤ c.neededSteps segment)
    (hs : segment ∈ segments) : c.neededSteps segment ≤ (segments.map c.neededSteps).sum := by
  apply List.single_le_sum
  · simpa using hnn
  · exact List.mem_map_of_mem hs

/-- Products that are finite and do not add up to too many steps. -/
structure Counted (c : Scenario) : Prop where
  finite : ∀ segment ∈ c.segments, (c.samples segment).isFinite = true
  nonneg : ∀ segment ∈ c.segments, 0 ≤ toRat (c.samples segment)
  sum_le : (c.segments.map c.neededSteps).sum ≤ maxSteps

theorem counted_of_validate (h : c.validate = .ok ()) : c.Counted := by
  obtain ⟨hsound, hduration, -⟩ := validate_eq_ok.mp h
  obtain ⟨hfinite, hsum⟩ := (validate_eq_ok_iff hsound hduration).mp h
  exact ⟨hfinite, fun segment hs => hsound.toRat_samples_nonneg hs (hfinite segment hs), hsum⟩

theorem Counted.toCount_eq (h : c.Counted) (hs : segment ∈ c.segments) :
    (toCount (c.samples segment) : ℤ) = c.neededSteps segment := by
  have hle := neededSteps_le_sum (fun segment hs => roundAway_nonneg (h.nonneg segment hs)) hs
  exact toCount_samples (h.finite segment hs) (h.nonneg segment hs) (hle.trans h.sum_le)

theorem Counted.map_stepCounts (h : c.Counted) :
    c.stepCounts.map Int.ofNat = c.segments.map c.neededSteps := by
  rw [stepCounts, List.map_map]
  exact List.map_congr_left fun segment hs => h.toCount_eq hs

theorem Counted.sum_stepCounts (h : c.Counted) :
    (c.stepCounts.sum : ℤ) = (c.segments.map c.neededSteps).sum := by
  rw [← h.map_stepCounts]
  exact Nat.cast_list_sum _

/-- The exact product is rounded twice, to a binary number and to a whole one. -/
theorem Counted.abs_neededSteps_sub_le (h : c.Counted) (hsound : c.Sound)
    (hs : segment ∈ c.segments) :
    |(c.neededSteps segment : ℚ) - toRat segment.duration * toRat c.rateHz| ≤
      1 / 2 + toRat segment.duration * toRat c.rateHz / 2 ^ 24 + 1 / 2 ^ 149 := by
  have hwhole := abs_roundAway_sub_le (toRat (c.samples segment))
  have hbinary : Near _ _ := toRat_mul (h.finite segment hs)
  rw [Near, abs_of_nonneg (hsound.product_nonneg hs)] at hbinary
  calc |(c.neededSteps segment : ℚ) - toRat segment.duration * toRat c.rateHz|
      ≤ |(c.neededSteps segment : ℚ) - toRat (c.samples segment)| +
        |toRat (c.samples segment) - toRat segment.duration * toRat c.rateHz| :=
        abs_sub_le _ _ _
    _ ≤ 1 / 2 + (toRat segment.duration * toRat c.rateHz / 2 ^ 24 + 1 / 2 ^ 150) :=
        add_le_add hwhole hbinary
    _ ≤ 1 / 2 + toRat segment.duration * toRat c.rateHz / 2 ^ 24 + 1 / 2 ^ 149 := by
        linarith

theorem totalSteps_legs (c : Scenario) : Leg.totalSteps c.legs = c.stepCounts.sum := by
  rw [Leg.totalSteps_eq_sum, legs, stepCounts, List.map_map]
  rfl

theorem Counted.totalSteps_initial (h : c.Counted) :
    ((Simulation.initial c).totalSteps : ℤ) = (c.segments.map c.neededSteps).sum := by
  rw [← h.sum_stepCounts, ← totalSteps_legs]
  rfl

/-- Adding the counts up does not leave a machine word on the way. -/
theorem Counted.sum_take_lt (h : c.Counted) (n : ℕ) :
    (c.stepCounts.take n).sum < UInt64.size := by
  have hprefix : (c.stepCounts.take n).sum ≤ c.stepCounts.sum := by
    rw [← List.sum_take_add_sum_drop c.stepCounts n]
    exact Nat.le_add_right _ _
  have hle : (c.stepCounts.sum : ℤ) ≤ maxSteps := h.sum_stepCounts.trans_le h.sum_le
  have hmax : maxSteps < UInt64.size := by decide
  omega

/-- A scenario that is sound otherwise is accepted exactly when every product is finite and the
rounded products add up to no more than the limit. The counts of an accepted one are the rounded
products themselves, close to the exact ones, and so is the total. -/
theorem validate_counts_steps :
    (∀ c : Scenario, c.Sound → ¬ c.totalDuration ≤ 0.0 →
      (c.validate = .ok () ↔
        (∀ segment ∈ c.segments, (c.samples segment).isFinite = true) ∧
          (c.segments.map c.neededSteps).sum ≤ maxSteps)) ∧
    ∀ c : Scenario, c.validate = .ok () →
      c.stepCounts.map Int.ofNat = c.segments.map c.neededSteps ∧
      (∀ segment ∈ c.segments, toRat (roundWhole (c.samples segment)) = c.neededSteps segment ∧
        |(c.neededSteps segment : ℚ) - toRat segment.duration * toRat c.rateHz| ≤
          1 / 2 + toRat segment.duration * toRat c.rateHz / 2 ^ 24 + 1 / 2 ^ 149) ∧
      Simulation.start c = .ok (.initial c) ∧
      ((Simulation.initial c).totalSteps : ℤ) = (c.segments.map c.neededSteps).sum ∧
      ∀ n, (c.stepCounts.take n).sum < UInt64.size := by
  refine ⟨fun c hsound hduration => validate_eq_ok_iff hsound hduration, fun c hvalid => ?_⟩
  have hcounted := counted_of_validate hvalid
  have hstart : Simulation.start c = .ok (.initial c) := by
    rw [Simulation.start, hvalid]
    rfl
  refine ⟨hcounted.map_stepCounts, fun segment hs => ⟨?_, ?_⟩, hstart,
    hcounted.totalSteps_initial, hcounted.sum_take_lt⟩
  · exact (toRat_roundWhole (hcounted.finite segment hs)).2
  · exact hcounted.abs_neededSteps_sub_le (sound_of_validate hvalid) hs

/-- A hundred thousand seconds at the standard rate. -/
def longest : Scenario := { standard with segments := [⟨100000.0, Vec3.zero⟩] }

/-- As long in two parts, between which there is no time for a step. -/
def longestInParts : Scenario :=
  { standard with
    segments := [⟨60000.0, Vec3.zero⟩, ⟨4e-4, ⟨0.0, 0.0, 1.0⟩⟩, ⟨40000.0, Vec3.zero⟩] }

theorem longestInParts_counts_steps :
    longestInParts.validate = .ok () ∧
      (longestInParts.validate = .ok () ↔
        (∀ segment ∈ longestInParts.segments, (longestInParts.samples segment).isFinite = true) ∧
          (longestInParts.segments.map longestInParts.neededSteps).sum ≤ maxSteps) ∧
      longestInParts.stepCounts = [60000000, 0, 40000000] ∧
      longestInParts.segments.map longestInParts.neededSteps = [60000000, 0, 40000000] ∧
      (∀ segment ∈ longestInParts.segments,
        toRat (roundWhole (longestInParts.samples segment)) = longestInParts.neededSteps segment) ∧
      (Simulation.initial longestInParts).totalSteps = maxSteps := by
  have hvalid : longestInParts.validate = .ok () := by decide +kernel
  have hduration : ¬ longestInParts.totalDuration ≤ 0.0 := by decide +kernel
  have hcounts : longestInParts.stepCounts = [60000000, 0, 40000000] := by decide +kernel
  obtain ⟨hneeded, hsegments, -, htotal, -⟩ := validate_counts_steps.2 longestInParts hvalid
  rw [hcounts] at hneeded
  rw [← hneeded] at htotal
  exact ⟨hvalid, validate_counts_steps.1 longestInParts (sound_of_validate hvalid) hduration,
    hcounts, hneeded.symm, fun segment hs => (hsegments segment hs).1,
    Int.ofNat_inj.mp (htotal.trans (by decide))⟩

/-- Each segment fits by itself. -/
example : { standard with segments := [⟨60000.0, Vec3.zero⟩, ⟨60000.0, Vec3.zero⟩] }.validate =
    .error .totalSteps := by decide +kernel

end Strapdown.Scenario
