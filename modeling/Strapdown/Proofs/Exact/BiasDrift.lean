import Mathlib
import Strapdown.Proofs.Exact.Drift
import Strapdown.Proofs.Exact.ErrorMeasures

/-!
A bias along the axis that a flight turns about, in exact arithmetic. All turns are about one axis
then, so what the bias adds is left over: the estimate drifts at a constant rate, round and round.
-/
namespace Strapdown

attribute [local instance] Numeric.exact
attribute [-instance] Numeric.toDiv

open Real (cos sin)
open scoped Real

variable {q a b : Quaternion ℝ} {u v rate bias : Vec3 ℝ} {dt t x y : ℝ} {c : Scenario} {j k : ℕ}

/-! Angles from the nearest number of whole turns. -/

/-- The distance of an angle from the nearest multiple of a whole turn. -/
noncomputable def fromWholeTurns (x : ℝ) : ℝ :=
  |x - round (x / ((2 : ℕ) * π)) * ((2 : ℕ) * π)|

theorem fromWholeTurns_eq (x : ℝ) :
    fromWholeTurns x = |x - round (x / (2 * π)) * (2 * π)| := rfl

theorem abs_sub_wholeTurns (x : ℝ) (m : ℤ) :
    |x - m * (2 * π)| = |x / (2 * π) - m| * (2 * π) := by
  have hsplit : x - m * (2 * π) = (x / (2 * π) - m) * (2 * π) := by field_simp
  rw [hsplit, abs_mul, abs_of_pos Real.two_pi_pos]

theorem isLeast_fromWholeTurns (x : ℝ) :
    IsLeast (Set.range fun m : ℤ => |x - m * (2 * π)|) (fromWholeTurns x) := by
  refine ⟨⟨round (x / (2 * π)), rfl⟩, ?_⟩
  rintro _ ⟨m, rfl⟩
  simp only [fromWholeTurns_eq, abs_sub_wholeTurns]
  exact mul_le_mul_of_nonneg_right (round_le _ m) Real.two_pi_pos.le

theorem fromWholeTurns_mem (x : ℝ) : 0 ≤ fromWholeTurns x ∧ fromWholeTurns x ≤ π := by
  refine ⟨abs_nonneg _, ?_⟩
  rw [fromWholeTurns_eq, abs_sub_wholeTurns]
  calc |x / (2 * π) - round (x / (2 * π))| * (2 * π) ≤ 1 / 2 * (2 * π) :=
        mul_le_mul_of_nonneg_right (abs_sub_round _) Real.two_pi_pos.le
    _ = π := by ring

/-- Up to half a turn, no whole turn is nearer than none. -/
theorem fromWholeTurns_of_le (hx : 0 ≤ x) (hle : x ≤ π) : fromWholeTurns x = x := by
  obtain ⟨⟨m, hm⟩, hleast⟩ := isLeast_fromWholeTurns x
  refine le_antisymm ?_ ?_
  · simpa [abs_of_nonneg hx] using hleast ⟨0, rfl⟩
  · rw [← hm, le_abs]
    rcases le_or_gt m 0 with hm | hm
    · left
      have hm : (m : ℝ) ≤ 0 := by exact_mod_cast hm
      nlinarith [Real.pi_pos]
    · right
      have hm : (1 : ℝ) ≤ m := by exact_mod_cast hm
      nlinarith [Real.pi_pos]

/-- The cosine of half an angle does not tell how many whole turns there are, but for its sign. -/
theorem cos_half_fromWholeTurns (x : ℝ) : cos (fromWholeTurns x / 2) = |cos (x / 2)| := by
  obtain ⟨hnonneg, hle⟩ := fromWholeTurns_mem x
  have hcos : 0 ≤ cos (fromWholeTurns x / 2) :=
    Real.cos_nonneg_of_mem_Icc ⟨by linarith, by linarith⟩
  have hhalf : fromWholeTurns x / 2 = |x / 2 - round (x / (2 * π)) * π| := by
    have hsplit : (x - round (x / (2 * π)) * (2 * π)) / 2 = x / 2 - round (x / (2 * π)) * π := by
      ring
    rw [fromWholeTurns_eq, ← hsplit, abs_div, abs_two]
  rw [← abs_of_nonneg hcos, hhalf, Real.cos_abs, Real.cos_sub_int_mul_pi, abs_mul, abs_zpow,
    abs_neg, abs_one, one_zpow, one_mul]

theorem arccos_abs_cos (x : ℝ) : 2 * Real.arccos |cos (x / 2)| = fromWholeTurns x := by
  obtain ⟨hnonneg, hle⟩ := fromWholeTurns_mem x
  rw [← cos_half_fromWholeTurns, Real.arccos_cos (by linarith) (by linarith)]
  ring

/-! Turns about one axis. -/

/-- Two vectors along one axis, whatever their senses and lengths. -/
def Vec3.Parallel (u v : Vec3 ℝ) : Prop :=
  u.y * v.z = u.z * v.y ∧ u.z * v.x = u.x * v.z ∧ u.x * v.y = u.y * v.x

theorem Vec3.Parallel.commute (h : u.Parallel v) : Commute u.hamilton v.hamilton := by
  obtain ⟨hx, hy, hz⟩ := h
  ext <;> simp <;> linarith

namespace Quaternion

/-- A step at a rate and, for the estimate, at the rate with a bias. -/
theorem hamilton_remainder_step (ha : a.norm = 1) (hb : b.norm = 1) (hparallel : rate.Parallel bias)
    (hc : (rate.scale dt).Counts) (hcb : ((rate + bias).scale dt).Counts)
    (h : (remainder a b).hamilton = NormedSpace.exp (t • bias.hamilton)) :
    (remainder (a.integrate rate dt) (b.integrate (rate + bias) dt)).hamilton =
      NormedSpace.exp ((t + dt / 2) • bias.hamilton) := by
  let +nondep : NormedAlgebra ℚ Hamilton := .restrictScalars ℚ ℝ Hamilton
  have hcommute (s t : ℝ) : Commute (s • rate.hamilton) (t • bias.hamilton) :=
    (hparallel.commute.smul_left s).smul_right t
  have hexp : exponent (rate.scale dt) = (dt / 2) • rate.hamilton := by
    rw [exponent_of_counts hc, Vec3.hamilton_scale, smul_smul]
    ring_nf
  have hexpBiased : exponent ((rate + bias).scale dt) =
      (dt / 2) • rate.hamilton + (dt / 2) • bias.hamilton := by
    rw [exponent_of_counts hcb, Vec3.hamilton_scale, Vec3.hamilton_add, smul_smul, ← smul_add]
    ring_nf
  have hleft : Commute (-((dt / 2) • rate.hamilton)) (t • bias.hamilton) :=
    (hcommute _ _).neg_left
  have hright : Commute (-((dt / 2) • rate.hamilton) + t • bias.hamilton)
      ((dt / 2) • rate.hamilton + (dt / 2) • bias.hamilton) :=
    .add_left (.neg_left (.add_right (.refl _) (hcommute _ _)))
      (.add_right (hcommute _ _).symm (((Commute.refl _).smul_left _).smul_right _))
  calc (remainder (a.integrate rate dt) (b.integrate (rate + bias) dt)).hamilton
      = star (NormedSpace.exp ((dt / 2) • rate.hamilton)) * (remainder a b).hamilton *
          NormedSpace.exp ((dt / 2) • rate.hamilton + (dt / 2) • bias.hamilton) := by
        rw [remainder, remainder, integrate_eq ha, integrate_eq hb]
        simp only [hamilton_mul, hamilton_conjugate, star_mul, hamilton_exp, hexp, hexpBiased,
          mul_assoc]
    _ = NormedSpace.exp (-((dt / 2) • rate.hamilton) + t • bias.hamilton +
          ((dt / 2) • rate.hamilton + (dt / 2) • bias.hamilton)) := by
        rw [Hamilton.star_exp_of_re (by simp), h, NormedSpace.exp_add_of_commute hright,
          NormedSpace.exp_add_of_commute hleft]
    _ = NormedSpace.exp ((t + dt / 2) • bias.hamilton) := by
        congr 1
        module

/-- How long the rotation vector of an angle is, where the first order stands in for less than
counts. -/
noncomputable def logLength (angle : ℝ) : ℝ :=
  if sin (angle / Numeric.two) < Numeric.negligible then Numeric.two * sin (angle / Numeric.two)
  else angle

theorem logLength_eq (angle : ℝ) : logLength angle =
    if sin (angle / 2) < 1 / 10 ^ 10 then 2 * sin (angle / 2) else angle := rfl

theorem norm_log_eq_logLength (h : q.norm = 1) :
    q.log.norm = logLength (2 * Real.arccos |q.w|) := by
  rw [logLength_eq, mul_div_cancel_left₀ _ two_ne_zero, sin_arccos h]
  split
  · next hs => exact norm_log_of_lt h hs
  · next hs => exact norm_log_of_le h (not_lt.mp hs)

/-- Up to half a turn, the larger angle has the longer rotation vector. -/
theorem logLength_lt (hx : 0 ≤ x) (hxy : x < y) (hy : y ≤ π) : logLength x < logLength y := by
  have hsin : sin (x / 2) < sin (y / 2) :=
    Real.sin_lt_sin_of_lt_of_le_pi_div_two (by linarith [Real.pi_pos]) (by linarith) (by linarith)
  have hle : sin (y / 2) ≤ y / 2 := Real.sin_le (by linarith)
  rw [logLength_eq, logLength_eq]
  split_ifs <;> linarith

end Quaternion

/-! The flight. -/

namespace Scenario

noncomputable def exactBias (c : Scenario) : Vec3 ℝ := c.gyro.bias.map Binary.toReal

/-- What a gyro without noise measures in all steps. -/
noncomputable def exactMeasured (c : Scenario) : List (Vec3 ℝ) :=
  (Leg.rates c.exactLegs).map (· + c.exactBias)

/-- The angle that the bias turns by in a number of steps. -/
noncomputable def biasAngle (c : Scenario) (k : ℕ) : ℝ := k * c.exactDt * c.exactBias.norm

/-- A gyro without noise, whose bias is along the axis of every turn. No step, true or measured, is
too short to count. -/
structure AxialBias (c : Scenario) : Prop where
  noiseless : (Gyro.ofModel c.gyro).noise = none
  parallel : ∀ rate ∈ Leg.rates c.exactLegs, rate.Parallel c.exactBias
  counts : ∀ rate ∈ Leg.rates c.exactLegs, (rate.scale c.exactDt).Counts
  measured_counts : ∀ rate ∈ Leg.rates c.exactLegs,
    ((rate + c.exactBias).scale c.exactDt).Counts

/-- What the estimate is ahead by, as a quaternion. -/
noncomputable def lead (c : Scenario) (k : ℕ) : Quaternion ℝ :=
  Quaternion.remainder (c.exactTruth k) (c.exactEstimate c.exactMeasured k)

theorem norm_lead (c : Scenario) (k : ℕ) : (c.lead k).norm = 1 :=
  Quaternion.norm_remainder (c.norm_exactTruth k) (c.norm_exactEstimate _ k)

theorem exactDrift_eq_log (c : Scenario) (k : ℕ) :
    c.exactDrift c.exactMeasured k = (c.lead k).log.norm := rfl

/-- Every step adds the turn of the bias in it, whatever the rate is. -/
theorem AxialBias.hamilton_lead (h : c.AxialBias) (hk : k ≤ c.rates.length) :
    (c.lead k).hamilton = NormedSpace.exp ((k * (c.exactDt / 2)) • c.exactBias.hamilton) := by
  induction k with
  | zero =>
    have hstart : c.lead 0 = Quaternion.identity := Quaternion.remainder_self c.norm_exactStart
    rw [hstart, Quaternion.hamilton_identity, Nat.cast_zero, zero_mul, zero_smul,
      NormedSpace.exp_zero]
  | succ k ih =>
    have hlength := c.length_rates_exactLegs
    obtain ⟨rate, hrate⟩ : ∃ rate, (Leg.rates c.exactLegs)[k]? = some rate :=
      ⟨_, List.getElem?_eq_getElem (by omega)⟩
    have hmeasured : c.exactMeasured[k]? = some (rate + c.exactBias) := by
      rw [exactMeasured, List.getElem?_map, hrate]
      rfl
    have hmem := List.mem_of_getElem? hrate
    have hstep := Quaternion.hamilton_remainder_step (c.norm_exactTruth k)
      (c.norm_exactEstimate c.exactMeasured k) (h.parallel rate hmem) (h.counts rate hmem)
      (h.measured_counts rate hmem) (ih (by omega))
    have htime : ((k + 1 : ℕ) : ℝ) * (c.exactDt / 2) = k * (c.exactDt / 2) + c.exactDt / 2 := by
      push_cast
      ring
    rw [htime, ← hstep, lead, exactTruth, exactEstimate, Quaternion.turned_take_succ hrate,
      Quaternion.turned_take_succ hmeasured]
    rfl

theorem AxialBias.w_lead (h : c.AxialBias) (hdt : 0 ≤ c.exactDt) (hk : k ≤ c.rates.length) :
    (c.lead k).w = cos (c.biasAngle k / 2) := by
  have hnorm : ‖(k * (c.exactDt / 2)) • c.exactBias.hamilton‖ = c.biasAngle k / 2 := by
    rw [norm_smul, Real.norm_of_nonneg (by positivity), ← Vec3.norm_eq, biasAngle]
    ring
  rw [← Quaternion.re_hamilton, h.hamilton_lead hk, Quaternion.exp_of_re_eq_zero _ (by simp), hnorm]
  simp

theorem AxialBias.angle_lead (h : c.AxialBias) (hdt : 0 ≤ c.exactDt) (hk : k ≤ c.rates.length) :
    2 * Real.arccos |(c.lead k).w| = fromWholeTurns (c.biasAngle k) := by
  rw [h.w_lead hdt hk, arccos_abs_cos]

theorem Sound.biasAngle_nonneg (h : c.Sound) (k : ℕ) : 0 ≤ c.biasAngle k :=
  mul_nonneg (mul_nonneg k.cast_nonneg h.exactDt_nonneg) (Vec3.norm_nonneg _)

theorem Sound.biasAngle_lt (h : c.Sound) (hbias : c.exactBias ≠ Vec3.zero) (hjk : j < k) :
    c.biasAngle j < c.biasAngle k := by
  have hsteps : (j : ℝ) < k := Nat.cast_lt.mpr hjk
  exact mul_lt_mul_of_pos_right (mul_lt_mul_of_pos_right hsteps h.exactDt_pos)
    (Vec3.norm_pos_of_ne hbias)

theorem AxialBias.exactDrift_eq_iff (h : c.AxialBias) (hdt : 0 ≤ c.exactDt)
    (hk : k ≤ c.rates.length) :
    c.exactDrift c.exactMeasured k = fromWholeTurns (c.biasAngle k) ↔
      sin (fromWholeTurns (c.biasAngle k) / 2) = 0 ∨
        Numeric.negligible ≤ sin (fromWholeTurns (c.biasAngle k) / 2) := by
  rw [← h.angle_lead hdt hk, exactDrift_eq_log, mul_div_cancel_left₀ _ two_ne_zero,
    Quaternion.sin_arccos (c.norm_lead k)]
  exact Quaternion.norm_log_eq_iff (c.norm_lead k)

theorem AxialBias.exactDrift_near (h : c.AxialBias) (hdt : 0 ≤ c.exactDt)
    (hk : k ≤ c.rates.length) :
    |c.exactDrift c.exactMeasured k - fromWholeTurns (c.biasAngle k)| ≤ 1 / 10 ^ 20 := by
  rw [← h.angle_lead hdt hk, exactDrift_eq_log]
  exact Quaternion.norm_log_near (c.norm_lead k)

theorem AxialBias.exactDrift_lt (h : c.AxialBias) (hsound : c.Sound)
    (hbias : c.exactBias ≠ Vec3.zero) (hjk : j < k) (hk : k ≤ c.rates.length)
    (hle : c.biasAngle k ≤ π) :
    c.exactDrift c.exactMeasured j < c.exactDrift c.exactMeasured k := by
  have hdt := hsound.exactDt_nonneg
  have hlt := hsound.biasAngle_lt hbias hjk
  have hdrift {i : ℕ} (hi : i ≤ c.rates.length) (hpi : c.biasAngle i ≤ π) :
      c.exactDrift c.exactMeasured i = Quaternion.logLength (c.biasAngle i) := by
    rw [exactDrift_eq_log, Quaternion.norm_log_eq_logLength (c.norm_lead i), h.angle_lead hdt hi,
      fromWholeTurns_of_le (hsound.biasAngle_nonneg i) hpi]
  rw [hdrift (by omega) (hlt.le.trans hle), hdrift hk hle]
  exact Quaternion.logLength_lt (hsound.biasAngle_nonneg j) hlt hle

/-- A bias along the axis of a flight adds up without loss. The drift goes on at a constant rate to
half a turn, and from there back to none. -/
theorem drift_of_axial_bias (hc : c.validate = .ok ()) (h : c.AxialBias) :
    c.measuredRates = c.rates.map (· + c.gyro.bias) ∧
    (∀ x, IsLeast (Set.range fun m : ℤ => |x - m * (2 * π)|) (fromWholeTurns x)) ∧
    (∀ k ≤ c.rates.length,
      (c.exactDrift c.exactMeasured k = fromWholeTurns (c.biasAngle k) ↔
        sin (fromWholeTurns (c.biasAngle k) / 2) = 0 ∨
          Numeric.negligible ≤ sin (fromWholeTurns (c.biasAngle k) / 2)) ∧
      |c.exactDrift c.exactMeasured k - fromWholeTurns (c.biasAngle k)| ≤ 1 / 10 ^ 20) ∧
    (∀ k ≤ c.rates.length, c.biasAngle k ≤ π →
      (c.exactDrift c.exactMeasured k = c.biasAngle k ↔
        sin (c.biasAngle k / 2) = 0 ∨ Numeric.negligible ≤ sin (c.biasAngle k / 2)) ∧
      |c.exactDrift c.exactMeasured k - c.biasAngle k| ≤ 1 / 10 ^ 20) ∧
    (c.exactBias ≠ Vec3.zero → ∀ j k, j < k → k ≤ c.rates.length → c.biasAngle k ≤ π →
      c.exactDrift c.exactMeasured j < c.exactDrift c.exactMeasured k) := by
  have hsound := sound_of_validate hc
  have hdt := hsound.exactDt_nonneg
  refine ⟨Gyro.measureAll_of_noiseless h.noiseless _, isLeast_fromWholeTurns, ?_, ?_, ?_⟩
  · intro k hk
    exact ⟨h.exactDrift_eq_iff hdt hk, h.exactDrift_near hdt hk⟩
  · intro k hk hle
    have hangle := fromWholeTurns_of_le (hsound.biasAngle_nonneg k) hle
    have heq := h.exactDrift_eq_iff hdt hk
    have hnear := h.exactDrift_near hdt hk
    rw [hangle] at heq hnear
    exact ⟨heq, hnear⟩
  · intro hbias j k hjk hk hle
    exact h.exactDrift_lt hsound hbias hjk hk hle

/-- A roll one way, a rest, and a faster roll back, measured with a bias in roll. -/
def rockingRoll : Scenario where
  rateHz := 8.0
  initialAttitude := ⟨0.5, 0.25, 1.0⟩
  segments := [⟨0.5, ⟨1.0, 0.0, 0.0⟩⟩, ⟨0.25, Vec3.zero⟩, ⟨0.5, ⟨-2.0, 0.0, 0.0⟩⟩]
  gyro := { GyroModel.standard with bias := ⟨0.5, 0.0, 0.0⟩ }
  telemetry := .standard

theorem rockingRoll_exact :
    rockingRoll.exactLegs = [⟨⟨1, 0, 0⟩, 4⟩, ⟨⟨0, 0, 0⟩, 2⟩, ⟨⟨-2, 0, 0⟩, 4⟩] ∧
      rockingRoll.exactDt = 1 / 8 ∧ rockingRoll.exactBias = ⟨1 / 2, 0, 0⟩ := by
  have hlegs : rockingRoll.legs =
      [⟨⟨1.0, 0.0, 0.0⟩, 4⟩, ⟨⟨0.0, 0.0, 0.0⟩, 2⟩, ⟨⟨-2.0, 0.0, 0.0⟩, 4⟩] := by
    decide +kernel
  have hrate : Binary.toRat rockingRoll.rateHz = 8 := by decide +kernel
  have hbias : rockingRoll.gyro.bias = ⟨0.5, 0.0, 0.0⟩ := rfl
  have htwo : Binary.toRat (-2.0) = -2 := by decide +kernel
  refine ⟨?_, ?_, ?_⟩
  · rw [exactLegs, hlegs]
    simp [Vec3.map, Binary.toReal, htwo]
  · rw [exactDt, Binary.toReal, hrate]
    norm_num
  · rw [exactBias, hbias]
    simp [Vec3.map, Binary.toReal]

theorem axialBias_rockingRoll : rockingRoll.AxialBias := by
  obtain ⟨hlegs, hdt, hbias⟩ := rockingRoll_exact
  have hrates : ∀ rate ∈ Leg.rates rockingRoll.exactLegs,
      rate = ⟨1, 0, 0⟩ ∨ rate = ⟨0, 0, 0⟩ ∨ rate = ⟨-2, 0, 0⟩ := by
    rw [hlegs]
    simp [Leg.rates]
  refine ⟨by decide +kernel, ?_, ?_, ?_⟩
  · intro rate hrate
    rw [hbias]
    rcases hrates rate hrate with rfl | rfl | rfl <;> simp [Vec3.Parallel]
  · intro rate hrate
    rw [hdt]
    rcases hrates rate hrate with rfl | rfl | rfl
    · exact Vec3.counts_of_sq_le (by norm_num [Vec3.scale, Vec3.map])
    · exact .inl (Vec3.ext (zero_mul _) (zero_mul _) (zero_mul _))
    · exact Vec3.counts_of_sq_le (by norm_num [Vec3.scale, Vec3.map])
  · intro rate hrate
    rw [hdt, hbias]
    rcases hrates rate hrate with rfl | rfl | rfl <;>
      exact Vec3.counts_of_sq_le (by norm_num [Vec3.scale, Vec3.map])

theorem rockingRoll_drift :
    rockingRoll.validate = .ok () ∧ rockingRoll.AxialBias ∧ rockingRoll.rates.length = 10 ∧
    rockingRoll.exactDrift rockingRoll.exactMeasured 10 = 5 / 8 ∧
    rockingRoll.exactDrift rockingRoll.exactMeasured 9 <
      rockingRoll.exactDrift rockingRoll.exactMeasured 10 := by
  obtain ⟨-, hdt, hbias⟩ := rockingRoll_exact
  have hvalid : rockingRoll.validate = .ok () := by decide +kernel
  have hlength : rockingRoll.rates.length = 10 := by decide +kernel
  have hnorm : (⟨1 / 2, 0, 0⟩ : Vec3 ℝ).norm = 1 / 2 := by
    have hsq : (1 / 2 : ℝ) * (1 / 2) + 0 * 0 + 0 * 0 = (1 / 2) ^ 2 := by norm_num
    change √((1 / 2 : ℝ) * (1 / 2) + 0 * 0 + 0 * 0) = 1 / 2
    rw [hsq, Real.sqrt_sq (by norm_num)]
  have hangle : rockingRoll.biasAngle 10 = 5 / 8 := by
    rw [biasAngle, hdt, hbias, hnorm]
    norm_num
  have hhalf : rockingRoll.biasAngle 10 ≤ π := by
    rw [hangle]
    linarith [Real.pi_gt_three]
  have hcounts : Numeric.negligible ≤ sin (rockingRoll.biasAngle 10 / 2) := by
    rw [hangle, Numeric.negligible_exact]
    refine le_trans ?_ (Real.sin_gt_sub_cube (by norm_num)).le
    norm_num
  have hne : rockingRoll.exactBias ≠ Vec3.zero := by
    rw [hbias]
    intro h
    exact one_half_pos.ne' (congrArg (·.x) h)
  obtain ⟨-, -, -, hlinear, hincreases⟩ := drift_of_axial_bias hvalid axialBias_rockingRoll
  obtain ⟨hdrift, -⟩ := hlinear 10 hlength.ge hhalf
  refine ⟨hvalid, axialBias_rockingRoll, hlength, (hdrift.mpr (.inr hcounts)).trans hangle, ?_⟩
  exact hincreases hne 9 10 (by decide) hlength.ge hhalf

end Scenario
end Strapdown
