import Strapdown.Proofs.Attitude.Length

/-! Every attitude that is constructed is finite and of unit length, whatever it is made from. -/
namespace Strapdown
open Binary

variable {tolerance : ℚ} {f : Elementary} {q : Quaternion Float32} {v : Vec3 Float32}

/-- Finite components whose exact squares sum up to one, but for a tolerance. -/
structure Quaternion.IsUnit (tolerance : ℚ) (q : Quaternion Float32) : Prop where
  isFinite : ∀ x ∈ q.toList, x.isFinite = true
  near_one : |sumSq q.toList - 1| ≤ tolerance

/-- Sines and cosines of numbers that are finite, in range, and on a circle, but for rounding. -/
structure Elementary.Circular (f : Elementary) : Prop where
  isFinite_sin : ∀ x : Float32, x.isFinite = true → (f.sin x).isFinite = true
  isFinite_cos : ∀ x : Float32, x.isFinite = true → (f.cos x).isFinite = true
  abs_sin_le_one : ∀ x : Float32, x.isFinite = true → |toRat (f.sin x)| ≤ 1
  abs_cos_le_one : ∀ x : Float32, x.isFinite = true → |toRat (f.cos x)| ≤ 1
  near_one : ∀ x : Float32, x.isFinite = true →
    |toRat (f.sin x) ^ 2 + toRat (f.cos x) ^ 2 - 1| ≤ 1 / 10 ^ 6

/-- Two points of the circle are enough for a library. -/
theorem Elementary.circular_of_points (h : ∀ x : Float32, x.isFinite = true →
    (f.sin x = 0.84147098 ∧ f.cos x = 0.5403023) ∨ (f.sin x = 0.0 ∧ f.cos x = 1.0)) :
    f.Circular := by
  have hs : toRat 0.84147098 = 3529385 / 2 ^ 22 := by decide +kernel
  have hc : toRat 0.5403023 = 141637 / 2 ^ 18 := by decide +kernel
  have hsf : (0.84147098 : Float32).isFinite = true := by decide +kernel
  have hcf : (0.5403023 : Float32).isFinite = true := by decide +kernel
  constructor
  all_goals
    intro x hx
    rcases h x hx with ⟨hsin, hcos⟩ | ⟨hsin, hcos⟩
    · norm_num [*, abs_le]
    · simp [hsin, hcos]

/-- A length that is not degenerate is finite and not tiny. -/
theorem not_degenerate {x : Float32} (h : @Quaternion.degenerate _ f.numeric x = false) :
    x.isFinite = true ∧ 1 / 2 ^ 34 ≤ toRat x := by
  change (!x.isFinite || decide (x < 1e-10)) = false at h
  simp only [Bool.or_eq_false_iff, Bool.not_eq_false', decide_eq_false_iff_not] at h
  obtain ⟨hx, hlt⟩ := h
  rw [lt_iff_toRat hx isFinite_negligible, toRat_negligible, not_lt] at hlt
  refine ⟨hx, le_trans ?_ hlt⟩
  norm_num

namespace Quaternion

theorem isUnit_mono {tolerance' : ℚ} (h : IsUnit tolerance q) (hle : tolerance ≤ tolerance') :
    IsUnit tolerance' q :=
  ⟨h.isFinite, h.near_one.trans hle⟩

theorem isUnit_identity : IsUnit 0 (@identity _ f.numeric) := by
  change IsUnit 0 ⟨1.0, 0.0, 0.0, 0.0⟩
  constructor <;> simp [toList, sumSq]

/-- A component is at most as long as the whole. -/
theorem abs_div_le {k L : ℚ} {xs : List Float32} {x : Float32} (hx : x ∈ xs) (hL : 0 < L)
    (hw : Within k (sumSq xs) (L ^ 2)) (hk : k ≤ 1000) : |toRat x / L| ≤ 2 := by
  rw [abs_div, abs_of_pos hL, div_le_iff₀ hL]
  apply abs_le_of_sq_le_sq _ (by positivity)
  have hle := sq_le_sumSq hx
  have hS := sumSq_nonneg xs
  have hks : k / 2 ^ 24 * sumSq xs ≤ 1000 / 2 ^ 24 * sumSq xs :=
    mul_le_mul_of_nonneg_right (by gcongr) hS
  have := (abs_le.mp (hw.trans hks)).1
  nlinarith

theorem sumSq_pos {L : ℚ} {xs : List Float32} (hL : 0 < L) (hw : Within 21 (sumSq xs) (L ^ 2)) :
    0 < sumSq xs := by
  have := (abs_le.mp hw).2
  have := sumSq_nonneg xs
  have : 0 < L ^ 2 := by positivity
  nlinarith

/-- Components over a length that counts are those of a unit vector, but for rounding. -/
theorem divide_near {T : Type} (N : SquareNorm T) {v : T}
    (hd : @degenerate _ f.numeric (N.length v) = false) :
    (∀ x ∈ N.toList (N.divide v (N.length v)), x.isFinite = true) ∧
      |sumSq (N.toList (N.divide v (N.length v))) - 1| ≤ 2 / 10 ^ 6 := by
  obtain ⟨hfin, hlow⟩ := not_degenerate hd
  obtain ⟨hv, hw⟩ := N.length_within hfin hlow
  have hlen : ((N.toList v).length : ℚ) ≤ 4 := by exact_mod_cast N.length_toList_le v
  rw [N.toList_divide]
  generalize N.length v = L at hfin hlow hw ⊢
  have hL : 0 < toRat L := lt_of_lt_of_le (by positivity) hlow
  have hle : ∀ x ∈ N.toList v, |toRat x / toRat L| ≤ 2 := fun x hx =>
    abs_div_le hx hL hw (by norm_num)
  have hdiv : ∀ x ∈ N.toList v, (x / L).isFinite = true := fun x hx =>
    isFinite_div (hv x hx) hfin hL.ne' ((hle x hx).trans (by norm_num))
  refine ⟨?_, ?_⟩
  · intro y hy
    obtain ⟨x, hx, rfl⟩ := List.mem_map.mp hy
    exact hdiv x hx
  · have hsum := sumSq_map_div_near hfin hL.ne' fun x hx => ⟨hv x hx, hdiv x hx, hle x hx⟩
    have hone := within_one_div hw (sumSq_pos hL hw) (by norm_num) (by norm_num)
    unfold Within at hone
    have hrest := mul_le_mul_of_nonneg_right hlen (show (0 : ℚ) ≤ 5 / 2 ^ 150 by positivity)
    rw [abs_le] at hsum hone ⊢
    norm_num at *
    constructor <;> linarith

theorem isUnit_normalize (f : Elementary) (q : Quaternion Float32) :
    IsUnit (2 / 10 ^ 6) (@normalize _ f.numeric q) := by
  unfold normalize
  split
  · exact isUnit_mono isUnit_identity (by norm_num)
  · next hd =>
    obtain ⟨hfin, hnear⟩ := divide_near (SquareNorm.quaternion f) (Bool.eq_false_iff.mpr hd)
    exact ⟨hfin, hnear⟩

theorem isUnit_integrate (f : Elementary) (q : Quaternion Float32) (rate : Vec3 Float32)
    (dt : Float32) : IsUnit (2 / 10 ^ 6) (@integrate _ f.numeric q rate dt) :=
  isUnit_normalize f _

/-- A component of an axis, scaled by a rounded factor. The least positive numbers enter with the
full range as a coefficient, and still do not count. -/
theorem scaled_near {a s : Float32} {k : ℚ} (ha : a.isFinite = true) (hs : s.isFinite = true)
    (hn : Near k (toRat s)) (hk : |toRat a * k| ≤ 2) :
    (a * s).isFinite = true ∧ |toRat (a * s) - toRat a * k| ≤ 9 / 2 ^ 24 := by
  have hrange := (abs_toRat_lt a).le
  have hprod : |toRat a * toRat s - toRat a * k| ≤ 6 / 2 ^ 24 := by
    rw [← mul_sub, abs_mul]
    calc |toRat a| * |toRat s - k| ≤ |toRat a| * (|k| / 2 ^ 24 + 1 / 2 ^ 150) :=
          mul_le_mul_of_nonneg_left hn (abs_nonneg _)
      _ = |toRat a * k| / 2 ^ 24 + |toRat a| * (1 / 2 ^ 150) := by rw [abs_mul]; ring
      _ ≤ 2 / 2 ^ 24 + 2 ^ 128 * (1 / 2 ^ 150) := by gcongr
      _ = 6 / 2 ^ 24 := by norm_num
  have hle : |toRat a * toRat s| ≤ 2 + 6 / 2 ^ 24 := by
    linarith [abs_sub_abs_le_abs_sub (toRat a * toRat s) (toRat a * k)]
  have hfin := isFinite_mul ha hs (hle.trans (by norm_num))
  refine ⟨hfin, ?_⟩
  have hmul := toRat_mul hfin
  unfold Near at hmul
  calc |toRat (a * s) - toRat a * k|
      ≤ |toRat (a * s) - toRat a * toRat s| + |toRat a * toRat s - toRat a * k| :=
        abs_sub_le _ _ _
    _ ≤ 9 / 2 ^ 24 := by linarith

theorem sq_sub_sq_le {x y : ℚ} (hx : |x| ≤ 2) (h : |y - x| ≤ 9 / 2 ^ 24) :
    |y ^ 2 - x ^ 2| ≤ 37 / 2 ^ 24 := by
  have hsum : |y + x| ≤ 4 + 9 / 2 ^ 24 := by
    calc |y + x| = |(y - x) + 2 * x| := by ring_nf
      _ ≤ |y - x| + |2 * x| := abs_add_le _ _
      _ ≤ 4 + 9 / 2 ^ 24 := by
        rw [abs_mul, abs_two]
        linarith
  calc |y ^ 2 - x ^ 2| = |y - x| * |y + x| := by rw [← abs_mul]; ring_nf
    _ ≤ 9 / 2 ^ 24 * (4 + 9 / 2 ^ 24) := mul_le_mul h hsum (abs_nonneg _) (by positivity)
    _ ≤ 37 / 2 ^ 24 := by norm_num

/-- A vector that is scaled to the length `σ` by exact factors. -/
theorem sumSq_scaled_near {L σ : ℚ} (hL : 0 < L) (hw : Within 21 (sumSq v.toList) (L ^ 2))
    (hσ : |σ| ≤ 1) : |sumSq v.toList * (σ / L) ^ 2 - σ ^ 2| ≤ 22 / 2 ^ 24 := by
  have hσ2 : σ ^ 2 ≤ 1 := by
    rw [← sq_abs]
    exact pow_le_one₀ (abs_nonneg _) hσ
  have hone := within_one_div hw (sumSq_pos hL hw) (by norm_num) (by norm_num)
  unfold Within at hone
  calc |sumSq v.toList * (σ / L) ^ 2 - σ ^ 2|
      = |sumSq v.toList / L ^ 2 - 1| * σ ^ 2 := by
        rw [← abs_of_nonneg (sq_nonneg σ), ← abs_mul, abs_of_nonneg (sq_nonneg σ)]
        ring_nf
    _ ≤ (21 + 1) / 2 ^ 24 * 1 * 1 := mul_le_mul hone hσ2 (sq_nonneg σ) (by positivity)
    _ = 22 / 2 ^ 24 := by norm_num

/-- The vector part of a rotation is as long as the sine of the half angle. -/
theorem scale_near {L s : Float32} {σ : ℚ} (hlow : 1 / 2 ^ 34 ≤ toRat L)
    (hv : ∀ x ∈ v.toList, x.isFinite = true) (hw : Within 21 (sumSq v.toList) (toRat L ^ 2))
    (hs : s.isFinite = true) (hn : Near (σ / toRat L) (toRat s)) (hσ : |σ| ≤ 1) :
    (∀ x ∈ (v.map (· * s)).toList, x.isFinite = true) ∧
      |sumSq (v.map (· * s)).toList - σ ^ 2| ≤ 133 / 2 ^ 24 := by
  have hpos : 0 < toRat L := lt_of_lt_of_le (by positivity) hlow
  have hle : ∀ x ∈ v.toList, |toRat x * (σ / toRat L)| ≤ 2 := by
    intro x hx
    have h₂ := abs_div_le hx hpos hw (by norm_num)
    calc |toRat x * (σ / toRat L)| = |toRat x / toRat L| * |σ| := by
          rw [← abs_mul]
          ring_nf
      _ ≤ 2 * 1 := mul_le_mul h₂ hσ (abs_nonneg _) (by norm_num)
      _ = 2 := by norm_num
  change (∀ x ∈ v.toList.map (· * s), _) ∧ |sumSq (v.toList.map (· * s)) - _| ≤ _
  constructor
  · intro y hy
    obtain ⟨x, hx, rfl⟩ := List.mem_map.mp hy
    exact (scaled_near (hv x hx) hs hn (hle x hx)).1
  · have hsum : |sumSq (v.toList.map (· * s)) - sumSq v.toList * (σ / toRat L) ^ 2| ≤
        0 * (sumSq v.toList * (σ / toRat L) ^ 2) + (3 : ℕ) * (37 / 2 ^ 24) := by
      refine sumSq_map_near ?_
      intro x hx
      rw [zero_mul, zero_add]
      exact sq_sub_sq_le (hle x hx) (scaled_near (hv x hx) hs hn (hle x hx)).2
    rw [zero_mul, zero_add] at hsum
    have hscaled := sumSq_scaled_near hpos hw hσ
    calc |sumSq (v.toList.map (· * s)) - σ ^ 2|
        ≤ |sumSq (v.toList.map (· * s)) - sumSq v.toList * (σ / toRat L) ^ 2| +
          |sumSq v.toList * (σ / toRat L) ^ 2 - σ ^ 2| := abs_sub_le _ _ _
      _ ≤ 133 / 2 ^ 24 := by
        norm_num at *
        linarith

theorem isFinite_half_mul {x : Float32} (hx : x.isFinite = true) : (x * 0.5).isFinite = true := by
  apply isFinite_mul hx isFinite_half
  rw [toRat_half, abs_mul]
  have := abs_toRat_lt x
  norm_num at *
  linarith

/-- The vector part of a rotation by a vector that counts, from the sine of the half angle. -/
theorem scale_axis_near {s : Float32}
    (hd : @degenerate _ f.numeric (@Vec3.length _ f.numeric v) = false) (hs : s.isFinite = true)
    (hle : |toRat s| ≤ 1) :
    (∀ x ∈ (v.map (· * (s / @Vec3.length _ f.numeric v))).toList, x.isFinite = true) ∧
      |sumSq (v.map (· * (s / @Vec3.length _ f.numeric v))).toList - toRat s ^ 2| ≤
        133 / 2 ^ 24 := by
  obtain ⟨hL, hlow⟩ := not_degenerate hd
  rw [SquareNorm.length_vec3] at hL hlow ⊢
  obtain ⟨hv, hw⟩ := (SquareNorm.vec3 f).length_within hL hlow
  generalize (SquareNorm.vec3 f).length v = L at hL hlow hw ⊢
  have hpos : 0 < toRat L := lt_of_lt_of_le (by positivity) hlow
  have hdiv : (s / L).isFinite = true := by
    apply isFinite_div hs hL hpos.ne'
    rw [abs_div, abs_of_pos hpos, div_le_iff₀ hpos]
    have : (1 : ℚ) ≤ 2 ^ 127 * toRat L := by linarith
    linarith
  exact scale_near hlow hv hw hdiv (toRat_div hs hL hpos.ne' hdiv) hle

/-- A rotation by parts: the vector part is as long as a sine, and the scalar part is the cosine. -/
theorem isUnit_ofParts {c s : Float32} {ε δ : ℚ} (hc : c.isFinite = true)
    (hv : ∀ x ∈ v.toList, x.isFinite = true) (hnear : |sumSq v.toList - toRat s ^ 2| ≤ ε)
    (hcircle : |toRat s ^ 2 + toRat c ^ 2 - 1| ≤ δ) : IsUnit (ε + δ) (ofParts c v) := by
  refine ⟨List.forall_mem_cons.mpr ⟨hc, hv⟩, ?_⟩
  change |sumSq (c :: v.toList) - 1| ≤ _
  rw [sumSq_cons]
  calc |toRat c ^ 2 + sumSq v.toList - 1|
      = |(sumSq v.toList - toRat s ^ 2) + (toRat s ^ 2 + toRat c ^ 2 - 1)| := by ring_nf
    _ ≤ |sumSq v.toList - toRat s ^ 2| + |toRat s ^ 2 + toRat c ^ 2 - 1| := abs_add_le _ _
    _ ≤ ε + δ := add_le_add hnear hcircle

theorem isUnit_exp (hf : f.Circular) (v : Vec3 Float32) :
    IsUnit (1 / 10 ^ 5) (@exp _ f.numeric v) := by
  unfold exp
  simp only
  split
  · exact isUnit_mono (isUnit_normalize f _) (by norm_num)
  · next hd =>
    rw [Bool.not_eq_true] at hd
    have hhalf := isFinite_half_mul (not_degenerate hd).1
    obtain ⟨hfin, hnear⟩ :=
      scale_axis_near hd (hf.isFinite_sin _ hhalf) (hf.abs_sin_le_one _ hhalf)
    exact isUnit_mono (isUnit_ofParts (hf.isFinite_cos _ hhalf) hfin hnear (hf.near_one _ hhalf))
      (by norm_num)

end Quaternion

theorem Euler.isUnit_toQuaternion (f : Elementary) (e : Euler Float32) :
    Quaternion.IsUnit (2 / 10 ^ 6) (@Euler.toQuaternion _ f.numeric e) :=
  Quaternion.isUnit_normalize f _

end Strapdown
