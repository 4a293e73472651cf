import Mathlib
import Strapdown.Proofs.Exact.Logarithm
import Strapdown.Proofs.Exact.Rotation

/-!
Rotation vectors and attitudes as two views of one rotation, in exact arithmetic. Each gives the
other back exactly, but for rotations that are too small to count, which both take to first order.
-/
namespace Strapdown

attribute [local instance] Numeric.exactRing Numeric.exact
attribute [-instance] Numeric.toDiv

open Real (cos sin)
open scoped Real

variable {q a b c d : Quaternion ℝ} {v : Vec3 ℝ} {x y k s : ℝ}

theorem Vec3.scale_one (v : Vec3 ℝ) : v.scale 1 = v := by
  ext <;> exact mul_one _

theorem Vec3.scale_add_neg (v : Vec3 ℝ) (s : ℝ) : v.scale s + -v = v.scale (s - 1) := by
  have hcomponent (x : ℝ) : x * s + -x = x * (s - 1) := by ring
  ext <;> exact hcomponent _

theorem Vec3.add_neg (v : Vec3 ℝ) : v + -v = Vec3.zero := by
  ext <;> exact add_neg_cancel _

theorem Vec3.eq_of_norm_le_zero {u v : Vec3 ℝ} (h : (u + -v).norm ≤ 0) : u = v := by
  rw [norm_eq, norm_le_zero_iff, hamilton_add, hamilton_neg, ← sub_eq_add_neg, sub_eq_zero] at h
  exact hamilton_injective h

namespace Quaternion

theorem shortWay_cases (q : Quaternion ℝ) : q.shortWay = q ∨ q.shortWay = -q := by
  rw [shortWay_eq]
  split
  · exact .inr rfl
  · exact .inl rfl

theorem norm_shortWay (q : Quaternion ℝ) : q.shortWay.norm = q.norm := by
  rcases shortWay_cases q with h | h <;> rw [h]
  exact norm_neg_eq q

theorem abs_w_le_one (h : q.norm = 1) : |q.w| ≤ 1 := by
  rw [← sq_le_one_iff_abs_le_one]
  linarith [w_sq_add h, sq_nonneg q.vec.norm]

theorem exp_log_of_le (h : q.norm = 1) (hs : 1 / 10 ^ 10 ≤ q.vec.norm) :
    exp q.log = q.shortWay := by
  have hpos : 0 < q.vec.norm := lt_of_lt_of_le (by norm_num) hs
  have hnorm := norm_log_of_le h hs
  have hsin := sin_arccos h
  have hle := norm_vec_le_arccos h
  have hcos : cos (Real.arccos |q.w|) = |q.w| :=
    Real.cos_arccos (by linarith [abs_nonneg q.w]) (abs_w_le_one h)
  have hhalf : 2 * Real.arccos |q.w| / 2 = Real.arccos |q.w| := mul_div_cancel_left₀ _ two_ne_zero
  have harc : 0 < Real.arccos |q.w| := hpos.trans_le hle
  have hfactor :
      2 * Real.arccos |q.w| / q.vec.norm * (q.vec.norm / (2 * Real.arccos |q.w|)) = 1 := by
    field_simp
  rw [exp_regular (by linarith), hnorm, hhalf, hcos, hsin, log_eq h, if_neg (not_lt.mpr hs),
    arg_eq_arccos h, Vec3.scale_scale, hfactor, Vec3.scale_one, ← w_shortWay]
  rfl

/-- The rotation by a vector has nearly half the vector for its vector part, and less than half a
turn. -/
structure Halves (v : Vec3 ℝ) (k : ℝ) : Prop where
  le_factor : 1 - v.norm ^ 2 / 4 ≤ k
  factor_le : k ≤ 1
  w_nonneg : 0 ≤ (exp v).w
  vec_eq : (exp v).vec = v.scale (k / 2)

/-- What stands in for a small rotation is brought to unit length. -/
theorem halves_of_lt (h : v.norm < 1 / 10 ^ 10) : Halves v (1 / √(1 + (v.norm / 2) ^ 2)) := by
  have hnn := v.norm_nonneg
  have hone : 1 ≤ √(1 + (v.norm / 2) ^ 2) := by
    rw [Real.one_le_sqrt]
    linarith [sq_nonneg (v.norm / 2)]
  have hle : √(1 + (v.norm / 2) ^ 2) ≤ 1 + (v.norm / 2) ^ 2 := by
    rw [Real.sqrt_le_left (by positivity)]
    nlinarith [sq_nonneg (v.norm / 2)]
  have hexp : exp v = (ofParts 1 (v.scale (1 / 2))).divide √(1 + (v.norm / 2) ^ 2) := by
    rw [exp_first_order h, normalize_eq, norm_first_order_parts, if_neg (by linarith)]
  generalize √(1 + (v.norm / 2) ^ 2) = root at hone hle hexp
  refine ⟨?_, ?_, ?_, ?_⟩
  · rw [le_div_iff₀ (by linarith)]
    nlinarith [sq_nonneg v.norm, sq_nonneg (v.norm ^ 2)]
  · exact (div_le_one (by linarith)).mpr hone
  · rw [hexp]
    change 0 ≤ 1 / root
    positivity
  · rw [hexp]
    ext <;> simp [vec, divide, map, ofParts, Vec3.scale, Vec3.map] <;> ring

/-- A sine is its angle but for a cube. -/
theorem halves_of_le (h : 1 / 10 ^ 10 ≤ v.norm) (hone : v.norm ≤ 1) :
    Halves v (sin (v.norm / 2) / v.norm * 2) := by
  have hpos : 0 < v.norm := lt_of_lt_of_le (by norm_num) h
  have hcube := Real.sin_gt_sub_cube (half_pos hpos)
  have hsin := Real.sin_lt (half_pos hpos)
  have hpi := Real.pi_gt_three
  refine ⟨?_, ?_, ?_, ?_⟩
  · rw [div_mul_eq_mul_div, le_div_iff₀ hpos]
    nlinarith [pow_pos hpos 3]
  · rw [div_mul_eq_mul_div, div_le_one hpos]
    linarith
  · rw [exp_regular h]
    exact Real.cos_nonneg_of_mem_Icc ⟨by linarith, by linarith⟩
  · rw [exp_regular h, mul_div_cancel_right₀ _ two_ne_zero]
    rfl

theorem exists_halves (h : v.norm ≤ 1) : ∃ k, Halves v k := by
  rcases lt_or_ge v.norm (1 / 10 ^ 10) with hlt | hge
  · exact ⟨_, halves_of_lt hlt⟩
  · exact ⟨_, halves_of_le hge h⟩

/-- On the unit circle near one, heights that differ by a factor near one differ hardly at all in
their abscissas. -/
theorem abs_sub_le_cube (hs : 0 ≤ s) (hs' : s ≤ 1 / 2) (hk : 1 - s ^ 2 ≤ k) (hk' : k ≤ 1)
    (hx : 0 ≤ x) (hy : 0 ≤ y) (hcircle : x ^ 2 + (k * s) ^ 2 = 1) (hcircle' : y ^ 2 + s ^ 2 = 1) :
    |x - y| ≤ s ^ 3 := by
  have hsq : s ^ 2 ≤ 1 / 4 := by nlinarith
  have hk0 : 0 ≤ k := by linarith
  have hks : (k * s) ^ 2 ≤ s ^ 2 :=
    pow_le_pow_left₀ (mul_nonneg hk0 hs) (mul_le_of_le_one_left hs hk') 2
  have hxhalf : 1 / 2 ≤ x := abs_le_of_sq_le_sq' (by linarith) hx |>.2
  have hyhalf : 1 / 2 ≤ y := abs_le_of_sq_le_sq' (by linarith) hy |>.2
  have hsum : 1 ≤ x + y := by linarith
  have hdiff : (x - y) * (x + y) = s ^ 2 * ((1 - k) * (1 + k)) := by
    linear_combination hcircle - hcircle'
  have hfactor : 0 ≤ (1 - k) * (1 + k) := mul_nonneg (by linarith) (by linarith)
  have hnear : (1 - k) * (1 + k) ≤ s := by nlinarith
  calc |x - y| ≤ |x - y| * (x + y) := le_mul_of_one_le_right (abs_nonneg _) hsum
    _ = s ^ 2 * ((1 - k) * (1 + k)) := by
        rw [← abs_of_nonneg (zero_le_one.trans hsum), ← abs_mul, hdiff,
          abs_of_nonneg (mul_nonneg (sq_nonneg s) hfactor)]
    _ ≤ s ^ 2 * s := mul_le_mul_of_nonneg_left hnear (sq_nonneg s)
    _ = s ^ 3 := (pow_succ s 2).symm

/-- Unit quaternions on one side are near where their vector parts differ by a factor near one. -/
theorem norm_sub_le (ha : a.norm = 1) (hb : b.norm = 1) (haw : 0 ≤ a.w) (hbw : 0 ≤ b.w)
    (hs : b.vec.norm ≤ 1 / 2) (hk : 1 - b.vec.norm ^ 2 ≤ k) (hk' : k ≤ 1)
    (hvec : a.vec = b.vec.scale k) : ‖a.hamilton - b.hamilton‖ ≤ 2 * b.vec.norm ^ 3 := by
  have hsa := w_sq_add ha
  have hsb := w_sq_add hb
  have hnn := b.vec.norm_nonneg
  have hk0 : 0 ≤ k := by nlinarith
  have hsplit : a.hamilton - b.hamilton =
      ((a.w - b.w : ℝ) : Hamilton) + (k - 1) • b.vec.hamilton := by
    change (ofParts a.w a.vec).hamilton - (ofParts b.w b.vec).hamilton = _
    rw [hamilton_ofParts, hamilton_ofParts, hvec, Vec3.hamilton_scale, sub_smul, one_smul,
      Quaternion.coe_sub]
    abel
  rw [hvec, Vec3.norm_scale, abs_of_nonneg hk0] at hsa
  have hscalar : |a.w - b.w| ≤ b.vec.norm ^ 3 :=
    abs_sub_le_cube hnn hs hk hk' haw hbw hsa hsb
  have hvector : ‖(k - 1) • b.vec.hamilton‖ ≤ b.vec.norm ^ 3 := by
    rw [norm_smul, ← Vec3.norm_eq, Real.norm_eq_abs, abs_sub_comm, abs_of_nonneg (by linarith)]
    nlinarith
  rw [hsplit]
  refine (norm_add_le _ _).trans ?_
  rw [Quaternion.norm_coe, Real.norm_eq_abs]
  linarith

/-- Too small a rotation to count is given back but for its cube. -/
theorem exp_log_near (h : q.norm = 1) (hs : q.vec.norm < 1 / 10 ^ 10) :
    ‖(exp q.log).hamilton - q.shortWay.hamilton‖ ≤ 2 * q.vec.norm ^ 3 := by
  have hlog : q.log = q.shortWay.vec.scale 2 := by rw [log_eq h, if_pos hs]
  have hnorm := norm_log_of_lt h hs
  obtain ⟨k, hlow, hhigh, hw, hvec⟩ := exists_halves (v := q.log) (by linarith)
  rw [← norm_vec_shortWay]
  refine norm_sub_le (norm_exp_eq_one _) ((norm_shortWay q).trans h) hw ?_ ?_ ?_ hhigh ?_
  · rw [w_shortWay]
    exact abs_nonneg _
  · rw [norm_vec_shortWay]
    linarith
  · rw [norm_vec_shortWay]
    rw [hnorm] at hlow
    linarith
  · rw [hvec, hlog, Vec3.scale_scale, mul_div_cancel₀ _ two_ne_zero]

theorem exp_log (h : q.norm = 1) (hc : q.vec.Counts) : exp q.log = q.shortWay := by
  rcases hc with hs | hs
  · have hzero : q.vec.norm = 0 := by rw [hs, Vec3.norm_zero_vec]
    have hnear := exp_log_near h (by rw [hzero]; norm_num)
    rw [hzero] at hnear
    apply hamilton_injective
    exact sub_eq_zero.mp (norm_le_zero_iff.mp (hnear.trans_eq (by norm_num)))
  · exact exp_log_of_le h hs

/-- Turns of less than half the circle have their cosine ahead. -/
theorem shortWay_of_nonneg (h : 0 ≤ q.w) : q.shortWay = q := by
  rw [shortWay_eq, if_neg (not_lt.mpr h)]

theorem w_exp_of_le (h : 1 / 10 ^ 10 ≤ v.norm) : (exp v).w = cos (v.norm / 2) := by
  rw [exp_regular h]
  rfl

theorem vec_exp_of_le (h : 1 / 10 ^ 10 ≤ v.norm) :
    (exp v).vec = v.scale (sin (v.norm / 2) / v.norm) := by
  rw [exp_regular h]
  rfl

theorem norm_vec_exp_of_le (h : 1 / 10 ^ 10 ≤ v.norm) :
    (exp v).vec.norm = |sin (v.norm / 2)| := by
  have hpos : 0 < v.norm := lt_of_lt_of_le (by norm_num) h
  rw [vec_exp_of_le h, Vec3.norm_scale, abs_div, abs_of_pos hpos, div_mul_cancel₀ _ hpos.ne']

theorem log_exp_of_le (h : v.norm < π) (hs : 1 / 10 ^ 10 ≤ sin (v.norm / 2)) :
    (exp v).log = v := by
  have hnn := v.norm_nonneg
  have hhalf : sin (v.norm / 2) ≤ v.norm / 2 := Real.sin_le (by linarith)
  have hpos : 0 < sin (v.norm / 2) := lt_of_lt_of_le (by norm_num) hs
  have hle : 1 / 10 ^ 10 ≤ v.norm := by linarith
  have hvpos : 0 < v.norm := by linarith
  have hcos : 0 ≤ cos (v.norm / 2) := Real.cos_nonneg_of_mem_Icc ⟨by linarith, by linarith⟩
  have hangle : Real.arccos |(exp v).w| = v.norm / 2 := by
    rw [w_exp_of_le hle, abs_of_nonneg hcos, Real.arccos_cos (by linarith) (by linarith)]
  have hone : sin (v.norm / 2) / v.norm * (2 * (v.norm / 2) / sin (v.norm / 2)) = 1 := by
    field_simp
  have hside : 0 ≤ (exp v).w := by rwa [w_exp_of_le hle]
  rw [log_eq (norm_exp_eq_one v), arg_eq_arccos (norm_exp_eq_one v), hangle,
    shortWay_of_nonneg hside, norm_vec_exp_of_le hle, abs_of_pos hpos, if_neg (not_lt.mpr hs),
    vec_exp_of_le hle, Vec3.scale_scale, hone, Vec3.scale_one]

/-- Below half a turn, only a small angle has a small sine. -/
theorem le_of_sin_lt (h : v.norm < π) (hs : sin (v.norm / 2) < 1 / 10 ^ 10) :
    v.norm ≤ 4 / 10 ^ 10 := by
  have hnn := v.norm_nonneg
  have hchord := Real.mul_le_sin (x := v.norm / 2) (by linarith) (by linarith)
  rw [div_mul_div_cancel₀' two_ne_zero] at hchord
  have hlt := hchord.trans_lt hs
  rw [div_lt_iff₀ Real.pi_pos] at hlt
  linarith [Real.pi_le_four]

theorem log_exp_near (h : v.norm < π) (hs : sin (v.norm / 2) < 1 / 10 ^ 10) :
    ((exp v).log + -v).norm ≤ v.norm ^ 3 := by
  have hnn := v.norm_nonneg
  have hle := le_of_sin_lt h hs
  obtain ⟨k, hlow, hhigh, hw, hvec⟩ := exists_halves (v := v) (by linarith)
  have hsmall : (exp v).vec.norm < 1 / 10 ^ 10 := by
    rcases lt_or_ge v.norm (1 / 10 ^ 10) with hlt | hge
    · have hk : 0 ≤ k := by nlinarith
      rw [hvec, Vec3.norm_scale, abs_of_nonneg (by positivity)]
      nlinarith
    · rwa [norm_vec_exp_of_le hge, abs_of_nonneg]
      exact Real.sin_nonneg_of_nonneg_of_le_pi (by linarith) (by linarith)
  have hdiff : (exp v).log + -v = v.scale (k - 1) := by
    rw [log_eq (norm_exp_eq_one v), if_pos hsmall, shortWay_of_nonneg hw, hvec, Vec3.scale_scale,
      div_mul_cancel₀ _ two_ne_zero, Vec3.scale_add_neg]
  rw [hdiff, Vec3.norm_scale, abs_sub_comm, abs_of_nonneg (by linarith)]
  nlinarith

theorem log_exp (h : v.norm < π)
    (hv : v = Vec3.zero ∨ Numeric.negligible ≤ sin (v.norm / 2)) : (exp v).log = v := by
  rcases hv with rfl | hs
  · have hnear := log_exp_near h (by rw [Vec3.norm_zero_vec]; norm_num)
    refine Vec3.eq_of_norm_le_zero (hnear.trans_eq ?_)
    rw [Vec3.norm_zero_vec]
    norm_num
  · exact log_exp_of_le h hs

/-- As near as makes no difference to what counts: `10 ^ -20` in every component. -/
def Near (a b : Quaternion ℝ) : Prop :=
  |a.w - b.w| ≤ 1 / 10 ^ 20 ∧ |a.x - b.x| ≤ 1 / 10 ^ 20 ∧ |a.y - b.y| ≤ 1 / 10 ^ 20 ∧
    |a.z - b.z| ≤ 1 / 10 ^ 20

theorem near_of_norm_sub_le (h : ‖a.hamilton - b.hamilton‖ ≤ 1 / 10 ^ 20) : a.Near b := by
  have hsq := Quaternion.normSq_eq_norm_mul_self (a.hamilton - b.hamilton)
  rw [Quaternion.normSq_def'] at hsq
  have hle : ‖a.hamilton - b.hamilton‖ * ‖a.hamilton - b.hamilton‖ ≤ (1 / 10 ^ 20) ^ 2 := by
    rw [← sq]
    exact pow_le_pow_left₀ (norm_nonneg _) h 2
  rw [← hsq] at hle
  simp only [Quaternion.re_sub, Quaternion.imI_sub, Quaternion.imJ_sub, Quaternion.imK_sub,
    re_hamilton, imI_hamilton, imJ_hamilton, imK_hamilton] at hle
  have hw := sq_nonneg (a.w - b.w)
  have hx := sq_nonneg (a.x - b.x)
  have hy := sq_nonneg (a.y - b.y)
  have hz := sq_nonneg (a.z - b.z)
  refine ⟨?_, ?_, ?_, ?_⟩ <;> exact abs_le_of_sq_le_sq (by linarith) (by norm_num)

theorem norm_exp_log_sub_le (h : q.norm = 1) :
    ‖(exp q.log).hamilton - q.shortWay.hamilton‖ ≤ 1 / 10 ^ 20 := by
  rcases lt_or_ge q.vec.norm (1 / 10 ^ 10) with hlt | hge
  · have hcube : q.vec.norm ^ 3 ≤ (1 / 10 ^ 10) ^ 3 :=
      pow_le_pow_left₀ q.vec.norm_nonneg hlt.le 3
    linarith [exp_log_near h hlt]
  · rw [exp_log_of_le h hge, sub_self, norm_zero]
    positivity

theorem near_exp_log (h : q.norm = 1) : (exp q.log).Near q ∨ (exp q.log).Near (-q) := by
  have hnear := near_of_norm_sub_le (norm_exp_log_sub_le h)
  rcases shortWay_cases q with heq | heq <;> rw [heq] at hnear
  · exact .inl hnear
  · exact .inr hnear

theorem norm_log_exp_sub_le (h : v.norm < π) :
    ((exp v).log + -v).norm ≤ 1 / 10 ^ 20 := by
  rcases lt_or_ge (sin (v.norm / 2)) (1 / 10 ^ 10) with hlt | hge
  · have hcube : v.norm ^ 3 ≤ (4 / 10 ^ 10) ^ 3 :=
      pow_le_pow_left₀ v.norm_nonneg (le_of_sin_lt h hlt) 3
    linarith [log_exp_near h hlt]
  · rw [log_exp_of_le h hge, Vec3.add_neg, Vec3.norm_zero_vec]
    positivity

/-- Turning by what remains leads to the target, or its negative. -/
theorem mul_shortWay_remainder (hc : c.norm = 1) (d : Quaternion ℝ) :
    c * (remainder c d).shortWay = d ∨ c * (remainder c d).shortWay = -d := by
  have hmul : c * remainder c d = d := mul_conjugate_mul (dot_self hc) d
  rcases shortWay_cases (remainder c d) with heq | heq <;> rw [heq]
  · exact .inl hmul
  · right
    apply hamilton_injective
    rw [hamilton_mul, hamilton_neg, mul_neg, ← hamilton_mul, hmul, hamilton_neg]

theorem near_mul_exp_errorTo (hc : c.norm = 1) (hd : d.norm = 1) :
    (c * exp (c.errorTo d)).Near d ∨ (c * exp (c.errorTo d)).Near (-d) := by
  have hnear : (c * exp (c.errorTo d)).Near (c * (remainder c d).shortWay) := by
    apply near_of_norm_sub_le
    rw [hamilton_mul, hamilton_mul, ← mul_sub, NormMulClass.norm_mul, ← norm_eq, hc, one_mul]
    exact norm_exp_log_sub_le (norm_remainder hc hd)
  rcases mul_shortWay_remainder hc d with heq | heq <;> rw [heq] at hnear
  · exact .inl hnear
  · exact .inr hnear

/-- Rotation vectors and attitudes give each other back, up to the sign of the quaternion: exactly
where they count, and but for their cubes where they do not. So the error between two attitudes,
applied to the one, leads to the other. -/
theorem exp_log_inverse :
    (∀ q : Quaternion ℝ, q.norm = 1 →
      (q.vec.Counts → exp q.log = q ∨ exp q.log = -q) ∧
      ((exp q.log).Near q ∨ (exp q.log).Near (-q))) ∧
    (∀ v : Vec3 ℝ, v.norm < π →
      (v = Vec3.zero ∨ Numeric.negligible ≤ sin (v.norm / 2) → (exp v).log = v) ∧
      ((exp v).log + -v).norm ≤ 1 / 10 ^ 20) ∧
    ∀ c d : Quaternion ℝ, c.norm = 1 → d.norm = 1 →
      ((remainder c d).vec.Counts → c * exp (c.errorTo d) = d ∨ c * exp (c.errorTo d) = -d) ∧
      ((c * exp (c.errorTo d)).Near d ∨ (c * exp (c.errorTo d)).Near (-d)) := by
  refine ⟨fun q h => ⟨fun hq => ?_, near_exp_log h⟩,
    fun v h => ⟨log_exp h, norm_log_exp_sub_le h⟩,
    fun c d hc hd => ⟨fun hr => ?_, near_mul_exp_errorTo hc hd⟩⟩
  · rw [exp_log h hq]
    exact shortWay_cases q
  · rw [errorTo, exp_log (norm_remainder hc hd) hr]
    exact mul_shortWay_remainder hc d

/-- An attitude whose angle is more than half a turn. -/
noncomputable def longWay : Quaternion ℝ := ⟨-(3 : ℕ) / (5 : ℕ), 0, (4 : ℕ) / (5 : ℕ), 0⟩

theorem longWay_exp_log_inverse :
    longWay.norm = 1 ∧ (exp longWay.log = longWay ∨ exp longWay.log = -longWay) ∧
      (exp (⟨1, 2, 2⟩ : Vec3 ℝ)).log = ⟨1, 2, 2⟩ ∧
      (longWay * exp (longWay.errorTo ⟨4 / 5, 0, 3 / 5, 0⟩) = ⟨4 / 5, 0, 3 / 5, 0⟩ ∨
        longWay * exp (longWay.errorTo ⟨4 / 5, 0, 3 / 5, 0⟩) = -⟨4 / 5, 0, 3 / 5, 0⟩) := by
  have hnorm : longWay.norm = 1 := norm_eq_one (by norm_num [longWay, dot])
  have htarget : (⟨4 / 5, 0, 3 / 5, 0⟩ : Quaternion ℝ).norm = 1 := norm_eq_one (by norm_num [dot])
  have hcounts : longWay.vec.Counts := Vec3.counts_of_sq_le (by norm_num [longWay, vec])
  have hremainder : (remainder longWay ⟨4 / 5, 0, 3 / 5, 0⟩).vec.Counts :=
    Vec3.counts_of_sq_le (by norm_num [remainder, conjugate, longWay, vec, x_mul, y_mul, z_mul])
  have hlength : (⟨1, 2, 2⟩ : Vec3 ℝ).norm = 3 := by
    have hsq : √(1 * 1 + 2 * 2 + 2 * 2) = √((3 : ℝ) ^ 2) := by norm_num
    exact hsq.trans (Real.sqrt_sq (by norm_num))
  have hsine : 1 / 10 ^ 10 ≤ sin (3 / 2) := by
    have hchord := Real.mul_le_sin (x := 3 / 2) (by norm_num) (by linarith [Real.pi_gt_three])
    refine le_trans ?_ hchord
    rw [div_mul_div_cancel₀' two_ne_zero, le_div_iff₀ Real.pi_pos]
    linarith [Real.pi_le_four]
  obtain ⟨hattitudes, hvectors, htargets⟩ := exp_log_inverse
  refine ⟨hnorm, (hattitudes longWay hnorm).1 hcounts, (hvectors ⟨1, 2, 2⟩ ?_).1 (.inr ?_),
    (htargets longWay _ hnorm htarget).1 hremainder⟩
  · rw [hlength]
    exact Real.pi_gt_three
  · rw [hlength]
    exact hsine

end Quaternion
end Strapdown
