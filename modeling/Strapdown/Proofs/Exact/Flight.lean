import Strapdown.Proofs.Exact.Exponential
import Strapdown.Proofs.Simulation.Course

/-!
Scenarios flown in exact arithmetic. A constant rate turns an attitude by one rotation, however many
steps that takes, so the reference attitude has a closed form.
-/
namespace Strapdown

attribute [local instance] Numeric.exact
attribute [-instance] Numeric.toDiv

/-- An attitude after turning at rates, one after the other, for a time step each. -/
def Quaternion.turned {S : Type} [Numeric S] (q : Quaternion S) (dt : S) (rates : List (Vec3 S)) :
    Quaternion S :=
  rates.foldl (fun q rate => q.integrate rate dt) q

variable {c : Scenario} {q : Quaternion ℝ} {rate : Vec3 ℝ} {rates : List (Vec3 ℝ)}
  {legs : List (Leg ℝ)} {dt : ℝ} {n : ℕ}

/-- In binary numbers, that is how a simulation turns its attitudes. -/
theorem Scenario.attitudes_eq_turned (c : Scenario) (n : Nat) :
    c.truthAfter n = c.initialAttitude.toQuaternion.turned c.dt (c.rates.take n) ∧
    c.estimateAfter n = c.initialAttitude.toQuaternion.turned c.dt (c.measuredRates.take n) :=
  ⟨rfl, rfl⟩

noncomputable def Binary.toReal (x : Float32) : ℝ := toRat x

namespace Scenario

/-- The time between samples. -/
noncomputable def exactDt (c : Scenario) : ℝ := 1 / Binary.toReal c.rateHz

/-- The initial attitude. -/
noncomputable def exactStart (c : Scenario) : Quaternion ℝ :=
  (c.initialAttitude.map Binary.toReal).toQuaternion

/-- The legs, with as many steps as in binary numbers. -/
noncomputable def exactLegs (c : Scenario) : List (Leg ℝ) :=
  c.legs.map fun leg => ⟨leg.rate.map Binary.toReal, leg.steps⟩

/-- The reference attitude after a number of steps. -/
noncomputable def exactTruth (c : Scenario) (n : ℕ) : Quaternion ℝ :=
  c.exactStart.turned c.exactDt ((Leg.rates c.exactLegs).take n)

/-- The attitude that is estimated from measured rates after a number of steps. -/
noncomputable def exactEstimate (c : Scenario) (measured : List (Vec3 ℝ)) (n : ℕ) : Quaternion ℝ :=
  c.exactStart.turned c.exactDt (measured.take n)

theorem norm_exactStart (c : Scenario) : c.exactStart.norm = 1 := Quaternion.norm_normalize _

theorem rates_exactLegs (c : Scenario) :
    Leg.rates c.exactLegs = c.rates.map (Vec3.map Binary.toReal) := by
  rw [← rates_legs, Leg.rates, Leg.rates, exactLegs, List.flatMap_map, List.map_flatMap]
  simp only [List.map_replicate]

theorem length_rates_exactLegs (c : Scenario) :
    (Leg.rates c.exactLegs).length = c.rates.length := by
  rw [rates_exactLegs, List.length_map]

end Scenario

namespace Quaternion

theorem turned_append (q : Quaternion ℝ) (dt : ℝ) (rs rs' : List (Vec3 ℝ)) :
    q.turned dt (rs ++ rs') = (q.turned dt rs).turned dt rs' := List.foldl_append

theorem norm_turned (h : q.norm = 1) (dt : ℝ) (rates : List (Vec3 ℝ)) :
    (q.turned dt rates).norm = 1 := by
  induction rates generalizing q with
  | nil => exact h
  | cons rate rates ih => exact ih (norm_integrate q rate dt)

theorem turned_replicate (q : Quaternion ℝ) (rate : Vec3 ℝ) (dt : ℝ) (n : ℕ) :
    q.turned dt (.replicate n rate) = (fun q => q.integrate rate dt)^[n] q := by
  induction n generalizing q with
  | zero => rfl
  | succ n ih => exact ih _

theorem hamilton_iterate (h : q.norm = 1) (rate : Vec3 ℝ) (dt : ℝ) (n : ℕ) :
    ((fun q => q.integrate rate dt)^[n] q).hamilton =
      q.hamilton * (exp (rate.scale dt)).hamilton ^ n := by
  induction n generalizing q with
  | zero => rw [pow_zero, mul_one, Function.iterate_zero_apply]
  | succ n ih =>
    rw [Function.iterate_succ_apply, ih (norm_integrate q rate dt), integrate_eq h, hamilton_mul,
      mul_assoc, ← pow_succ']

/-- Steps at a constant rate are one step of their whole time. -/
theorem iterate_integrate (h : q.norm = 1) (hc : (rate.scale dt).Counts) (hn : 1 ≤ n) :
    (fun q => q.integrate rate dt)^[n] q = q.integrate rate (n * dt) := by
  apply hamilton_injective
  rw [hamilton_iterate h, integrate_eq h, hamilton_mul, mul_comm (n : ℝ) dt,
    ← Vec3.scale_scale, hamilton_exp_scale hc hn]

/-- A leg turns by one rotation. One without steps does not turn. -/
theorem turned_leg (h : q.norm = 1) (hc : 1 ≤ n → (rate.scale dt).Counts) :
    q.turned dt (.replicate n rate) = q * exp (rate.scale (n * dt)) := by
  rw [turned_replicate]
  rcases Nat.eq_zero_or_pos n with rfl | hn
  · apply hamilton_injective
    rw [Nat.cast_zero, zero_mul, Vec3.scale_zero, exp_zero, hamilton_mul, hamilton_identity,
      mul_one, Function.iterate_zero_apply]
  · rw [iterate_integrate h (hc hn) hn, integrate_eq h]

theorem turned_legs (h : q.norm = 1)
    (hc : ∀ leg ∈ legs, 1 ≤ leg.steps → (leg.rate.scale dt).Counts) :
    q.turned dt (Leg.rates legs) =
      legs.foldl (fun q leg => q * exp (leg.rate.scale (leg.steps * dt))) q := by
  induction legs generalizing q with
  | nil => rfl
  | cons leg legs ih =>
    have hleg := turned_leg h (hc leg List.mem_cons_self)
    have hrest := ih (q := q * exp (leg.rate.scale (leg.steps * dt)))
      (by rw [norm_mul, h, norm_exp_eq_one, one_mul]) fun l hl => hc l (List.mem_cons_of_mem _ hl)
    rw [Leg.rates, List.flatMap_cons, turned_append, hleg, ← Leg.rates, hrest]
    rfl

theorem integrate_integrate_neg (h : q.norm = 1) (rate : Vec3 ℝ) (dt : ℝ) :
    (q.integrate rate dt).integrate (-rate) dt = q := by
  have hneg : (-rate).scale dt = -rate.scale dt := by
    apply Vec3.ext <;> exact neg_mul _ _
  rw [integrate_eq (norm_integrate q rate dt), integrate_eq h, hneg, mul_exp_mul_exp_neg]

/-- Rates that are flown back in reverse lead back to where they began. -/
theorem turned_back (h : q.norm = 1) (dt : ℝ) (rates : List (Vec3 ℝ)) :
    q.turned dt (rates ++ (rates.map Neg.neg).reverse) = q := by
  induction rates generalizing q with
  | nil => rfl
  | cons rate rates ih =>
    have hlist : rate :: rates ++ ((rate :: rates).map Neg.neg).reverse =
        [rate] ++ (rates ++ (rates.map Neg.neg).reverse) ++ [-rate] := by
      simp
    rw [hlist, turned_append, turned_append, ih (q := q.turned dt [rate]) (norm_integrate q rate dt)]
    exact integrate_integrate_neg h rate dt

/-- The reference attitude in closed form. -/
theorem turned_closed_form :
    (∀ (q : Quaternion ℝ) (rate : Vec3 ℝ) (dt : ℝ) (n : ℕ), q.norm = 1 →
      (rate.scale dt).Counts → 1 ≤ n →
      (fun q => q.integrate rate dt)^[n] q = q.integrate rate (n * dt)) ∧
    (∀ (q : Quaternion ℝ) (legs : List (Leg ℝ)) (dt : ℝ), q.norm = 1 →
      (∀ leg ∈ legs, 1 ≤ leg.steps → (leg.rate.scale dt).Counts) →
      q.turned dt (Leg.rates legs) =
        legs.foldl (fun q leg => q * exp (leg.rate.scale (leg.steps * dt))) q) ∧
    (∀ c : Scenario, (∀ leg ∈ c.exactLegs, 1 ≤ leg.steps → (leg.rate.scale c.exactDt).Counts) →
      c.exactTruth c.rates.length =
        c.exactLegs.foldl (fun q leg => q * exp (leg.rate.scale (leg.steps * c.exactDt)))
          c.exactStart) ∧
    (∀ (rate : Vec3 ℝ) (dt : ℝ), exp (rate.scale ((0 : ℕ) * dt)) = identity) ∧
    ∀ (q : Quaternion ℝ) (dt : ℝ) (rates : List (Vec3 ℝ)), q.norm = 1 →
      q.turned dt (rates ++ (rates.map Neg.neg).reverse) = q := by
  refine ⟨fun q rate dt n h hc hn => iterate_integrate h hc hn,
    fun q legs dt h hc => turned_legs h hc, ?_, ?_, fun q dt rates h => turned_back h dt rates⟩
  · intro c hc
    rw [Scenario.exactTruth, ← c.length_rates_exactLegs, List.take_length]
    exact turned_legs c.norm_exactStart hc
  · intro rate dt
    rw [Nat.cast_zero, zero_mul, Vec3.scale_zero, exp_zero]

theorem standard_closed_form :
    (fun q => q.integrate ⟨1, 2, 2⟩ (1 / 2))^[3] (identity : Quaternion ℝ) =
      (identity : Quaternion ℝ).integrate ⟨1, 2, 2⟩ ((3 : ℕ) * (1 / 2)) ∧
    Scenario.standard.exactTruth Scenario.standard.rates.length =
      Scenario.standard.exactLegs.foldl
        (fun q leg => q * exp (leg.rate.scale (leg.steps * Scenario.standard.exactDt)))
        Scenario.standard.exactStart ∧
    (identity : Quaternion ℝ).turned (1 / 2) [⟨1, 0, 0⟩, ⟨0, 3, 0⟩, -⟨0, 3, 0⟩, -⟨1, 0, 0⟩] =
      identity := by
  obtain ⟨hsteps, -, htruth, -, hback⟩ := turned_closed_form
  refine ⟨hsteps _ _ _ 3 norm_identity ?_ (by decide), htruth _ ?_,
    hback _ _ [⟨1, 0, 0⟩, ⟨0, 3, 0⟩] norm_identity⟩
  · apply Vec3.counts_of_sq_le
    norm_num [Vec3.scale, Vec3.map]
  · have hlegs : Scenario.standard.legs =
        [⟨⟨0.0, 0.0, Numeric.inRadians 90.0⟩, 1000⟩, ⟨⟨0.0, 0.0, 0.0⟩, 500⟩,
          ⟨⟨Numeric.inRadians 20.0, 0.0, 0.0⟩, 1000⟩] := by
      decide +kernel
    have hdt : Scenario.standard.exactDt = 1 / 1000 := by
      have hrate : Binary.toRat Scenario.standard.rateHz = 1000 := by decide +kernel
      rw [Scenario.exactDt, Binary.toReal, hrate]
      norm_num
    have hyaw : ((1 / 10 : ℚ) : ℝ) ≤ Binary.toReal (Numeric.inRadians 90.0) :=
      Rat.cast_le.mpr (by decide +kernel)
    have hroll : ((1 / 10 : ℚ) : ℝ) ≤ Binary.toReal (Numeric.inRadians 20.0) :=
      Rat.cast_le.mpr (by decide +kernel)
    have hzero : Binary.toReal 0.0 = 0 := by
      rw [Binary.toReal, Binary.toRat_zero, Rat.cast_zero]
    push_cast at hyaw hroll
    rw [Scenario.exactLegs, hlegs, hdt]
    simp only [List.map_cons, List.map_nil, List.forall_mem_cons, Vec3.map, hzero]
    refine ⟨fun _ => ?_, fun _ => .inl ?_, fun _ => ?_, List.forall_mem_nil _⟩
    · apply Vec3.counts_of_sq_le
      simp only [Vec3.scale, Vec3.map]
      nlinarith
    · apply Vec3.ext <;> exact zero_mul _
    · apply Vec3.counts_of_sq_le
      simp only [Vec3.scale, Vec3.map]
      nlinarith

end Quaternion
end Strapdown
