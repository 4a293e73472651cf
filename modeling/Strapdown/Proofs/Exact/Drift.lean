import Strapdown.Proofs.Exact.Flight
import Strapdown.Proofs.Exact.Logarithm
import Strapdown.Proofs.Scenario.Accepted

/-!
How far an estimate drifts from the reference attitude, in exact arithmetic: at most by what the
measured rates are off, added up over time.
-/
namespace Strapdown

attribute [local instance] Numeric.exact
attribute [-instance] Numeric.toDiv

variable {a b q : Quaternion ℝ} {u v rate m : Vec3 ℝ} {dt : ℝ} {c : Scenario}
  {measured : List (Vec3 ℝ)} {k : ℕ}

/-- How far a measured rate is off. -/
noncomputable def Vec3.rateError (rate measured : Vec3 ℝ) : ℝ := (measured + -rate).norm

theorem Vec3.norm_scale_sub_scale (u v : Vec3 ℝ) (hdt : 0 ≤ dt) :
    (u.scale dt + -v.scale dt).norm = dt * rateError u v := by
  have hsub : (u.scale dt + -v.scale dt).hamilton = dt • (u.hamilton - v.hamilton) := by
    rw [hamilton_add, hamilton_neg, hamilton_scale, hamilton_scale, smul_sub, sub_eq_add_neg]
  rw [rateError, norm_eq, norm_eq, hsub, norm_smul, Real.norm_of_nonneg hdt, hamilton_add,
    hamilton_neg, ← sub_eq_add_neg, norm_sub_rev]

namespace Quaternion

/-- A step takes attitudes apart by at most what their rates differ by. -/
theorem angleTo_integrate_le (ha : a.norm = 1) (hb : b.norm = 1) (u v : Vec3 ℝ) (hdt : 0 ≤ dt) :
    (a.integrate u dt).angleTo (b.integrate v dt) ≤
      a.angleTo b + dt * u.rateError v + 4 / 10 ^ 20 := by
  have hexp (w : Vec3 ℝ) : (exp (w.scale dt)).norm = 1 := norm_exp_eq_one _
  have hmul {p r : Quaternion ℝ} (hp : p.norm = 1) (hr : r.norm = 1) : (p * r).norm = 1 := by
    rw [norm_mul, hp, hr, one_mul]
  have hsteps := angleTo_exp_le (u.scale dt) (v.scale dt)
  rw [Vec3.norm_scale_sub_scale u v hdt] at hsteps
  rw [integrate_eq ha, integrate_eq hb]
  -- by way of the second attitude, turned at the first rate
  calc (a * exp (u.scale dt)).angleTo (b * exp (v.scale dt))
      ≤ (a * exp (u.scale dt)).angleTo (b * exp (u.scale dt)) +
        (b * exp (u.scale dt)).angleTo (b * exp (v.scale dt)) :=
        angleTo_triangle (hmul ha (hexp u)) (hmul hb (hexp u)) (hmul hb (hexp v))
    _ = a.angleTo b + (exp (u.scale dt)).angleTo (exp (v.scale dt)) := by
        rw [angleTo_mul_right (hexp u), angleTo_mul_left hb]
    _ ≤ a.angleTo b + dt * u.rateError v + 4 / 10 ^ 20 := by linarith

theorem angleTo_le_pi (ha : a.norm = 1) (hb : b.norm = 1) : a.angleTo b ≤ Real.pi := by
  have harc := Real.arccos_le_pi_div_two.mpr (abs_nonneg (a.dot b))
  rw [angleTo_eq_arccos ha hb]
  linarith

theorem turned_take_succ {rates : List (Vec3 ℝ)} (h : rates[k]? = some rate) :
    q.turned dt (rates.take (k + 1)) = (q.turned dt (rates.take k)).integrate rate dt := by
  rw [List.take_add_one, h, turned_append]
  rfl

end Quaternion

/-- In one step an estimate drifts by at most what the measured rate is off. What the first order
stands in for is counted once before the step, once in it and once after it. -/
theorem Propagation.drift_advance_le {p : Propagation ℝ} (ht : p.truth.norm = 1)
    (he : p.estimate.norm = 1) (rate m : Vec3 ℝ) (hdt : 0 ≤ dt) :
    (p.advance rate m dt).drift ≤ p.drift + dt * rate.rateError m + 1 / 10 ^ 18 := by
  have hbefore := (Quaternion.norm_errorTo ht he).2
  have hstep := Quaternion.angleTo_integrate_le ht he rate m hdt
  have hafter := (Quaternion.norm_errorTo (Quaternion.norm_integrate p.truth rate dt)
    (Quaternion.norm_integrate p.estimate m dt)).1
  change (p.advance rate m dt).drift ≤ _ at hafter
  change _ ≤ p.drift + _ at hbefore
  linarith

namespace Scenario

/-- The drift of the estimate that follows measured rates, after a number of steps. -/
noncomputable def exactDrift (c : Scenario) (measured : List (Vec3 ℝ)) (n : ℕ) : ℝ :=
  Propagation.drift ⟨c.exactTruth n, c.exactEstimate measured n⟩

/-- How far each measured rate is off. -/
noncomputable def rateErrors (c : Scenario) (measured : List (Vec3 ℝ)) : List ℝ :=
  List.zipWith Vec3.rateError (Leg.rates c.exactLegs) measured

theorem norm_exactTruth (c : Scenario) (n : ℕ) : (c.exactTruth n).norm = 1 :=
  Quaternion.norm_turned c.norm_exactStart _ _

theorem norm_exactEstimate (c : Scenario) (measured : List (Vec3 ℝ)) (n : ℕ) :
    (c.exactEstimate measured n).norm = 1 :=
  Quaternion.norm_turned c.norm_exactStart _ _

theorem Sound.exactDt_pos (h : c.Sound) : 0 < c.exactDt :=
  one_div_pos.mpr (Rat.cast_pos.mpr h.toRat_rateHz_pos)

theorem Sound.exactDt_nonneg (h : c.Sound) : 0 ≤ c.exactDt := h.exactDt_pos.le

theorem exactDrift_mem (c : Scenario) (measured : List (Vec3 ℝ)) (n : ℕ) :
    0 ≤ c.exactDrift measured n ∧ c.exactDrift measured n ≤ Real.pi := by
  have ht := c.norm_exactTruth n
  have he := c.norm_exactEstimate measured n
  exact ⟨Vec3.norm_nonneg _,
    (Quaternion.norm_errorTo ht he).1.trans (Quaternion.angleTo_le_pi ht he)⟩

theorem exactDrift_zero (c : Scenario) (measured : List (Vec3 ℝ)) : c.exactDrift measured 0 = 0 :=
  Quaternion.errorTo_self c.norm_exactStart

/-- The next attitudes are those of a step at the next rates. -/
theorem exact_advance (hrate : (Leg.rates c.exactLegs)[k]? = some rate)
    (hm : measured[k]? = some m) :
    (⟨c.exactTruth (k + 1), c.exactEstimate measured (k + 1)⟩ : Propagation ℝ) =
      Propagation.advance ⟨c.exactTruth k, c.exactEstimate measured k⟩ rate m c.exactDt := by
  rw [exactTruth, exactEstimate, Quaternion.turned_take_succ hrate, Quaternion.turned_take_succ hm]
  rfl

theorem exactDrift_succ_le (h : c.Sound) (hrate : (Leg.rates c.exactLegs)[k]? = some rate)
    (hm : measured[k]? = some m) :
    c.exactDrift measured (k + 1) ≤
      c.exactDrift measured k + c.exactDt * rate.rateError m + 1 / 10 ^ 18 := by
  rw [exactDrift, exact_advance hrate hm]
  exact Propagation.drift_advance_le (c.norm_exactTruth k) (c.norm_exactEstimate measured k) _ _
    h.exactDt_nonneg

theorem exactDrift_le_sum (h : c.Sound) (hk : k ≤ (c.rateErrors measured).length) :
    c.exactDrift measured k ≤
      c.exactDt * ((c.rateErrors measured).take k).sum + k * (1 / 10 ^ 18) := by
  induction k with
  | zero => simp [exactDrift_zero]
  | succ k ih =>
    have hlt := hk
    rw [rateErrors, List.length_zipWith] at hlt
    obtain ⟨rate, hrate⟩ : ∃ rate, (Leg.rates c.exactLegs)[k]? = some rate :=
      ⟨_, List.getElem?_eq_getElem (by omega)⟩
    obtain ⟨m, hm⟩ : ∃ m, measured[k]? = some m := ⟨_, List.getElem?_eq_getElem (by omega)⟩
    have herror : (c.rateErrors measured)[k]? = some (rate.rateError m) := by
      rw [rateErrors, List.getElem?_zipWith, hrate, hm]
    have hstep := exactDrift_succ_le h hrate hm
    have hrun := ih (by omega)
    rw [List.take_add_one, herror, List.sum_append, Option.toList_some, List.sum_singleton]
    push_cast
    linarith

/-- The drift grows by no more than the measured rates are off, and never beyond half a turn. -/
theorem exactDrift_le_integrated_errors (hc : c.validate = .ok ()) (measured : List (Vec3 ℝ)) :
    c.exactDrift measured 0 = 0 ∧
    (∀ k rate m, (Leg.rates c.exactLegs)[k]? = some rate → measured[k]? = some m →
      c.exactDrift measured (k + 1) ≤
        c.exactDrift measured k + c.exactDt * (m + -rate).norm + 1 / 10 ^ 18) ∧
    (∀ k, k ≤ c.rates.length → k ≤ measured.length →
      c.exactDrift measured k ≤
        c.exactDt * ((c.rateErrors measured).take k).sum + k * (1 / 10 ^ 18)) ∧
    ∀ k, 0 ≤ c.exactDrift measured k ∧ c.exactDrift measured k ≤ Real.pi := by
  have hsound := sound_of_validate hc
  refine ⟨c.exactDrift_zero measured, fun k rate m => exactDrift_succ_le hsound, ?_,
    c.exactDrift_mem measured⟩
  intro k hrates hmeasured
  apply exactDrift_le_sum hsound
  rw [rateErrors, List.length_zipWith, length_rates_exactLegs]
  omega

theorem standard_drift :
    Scenario.standard.validate = .ok () ∧
    (∃ rate, (Leg.rates Scenario.standard.exactLegs)[1]? = some rate ∧
      Scenario.standard.exactDrift [⟨3, 0, 4⟩, ⟨0, -1, 0⟩] 2 ≤
        Scenario.standard.exactDrift [⟨3, 0, 4⟩, ⟨0, -1, 0⟩] 1 +
          Scenario.standard.exactDt * ((⟨0, -1, 0⟩ : Vec3 ℝ) + -rate).norm + 1 / 10 ^ 18) ∧
    Scenario.standard.exactDrift [⟨3, 0, 4⟩, ⟨0, -1, 0⟩] 2 ≤
      Scenario.standard.exactDt *
        ((Scenario.standard.rateErrors [⟨3, 0, 4⟩, ⟨0, -1, 0⟩]).take 2).sum +
        (2 : ℕ) * (1 / 10 ^ 18) := by
  have hvalid : Scenario.standard.validate = .ok () := by decide +kernel
  have hlength : Scenario.standard.rates.length = 2500 := by decide +kernel
  obtain ⟨-, hstep, hsum, -⟩ :=
    exactDrift_le_integrated_errors hvalid [⟨3, 0, 4⟩, ⟨0, -1, 0⟩]
  have hlegs := Scenario.standard.length_rates_exactLegs
  refine ⟨hvalid, ⟨_, List.getElem?_eq_getElem (by omega), hstep 1 _ _ ?_ rfl⟩,
    hsum 2 (by omega) le_rfl⟩
  exact List.getElem?_eq_getElem (by omega)

end Scenario
end Strapdown
