import Strapdown.Proofs.Attitude.AxisAngle
import Strapdown.Proofs.Binary.Range

/-!
Directions. What is divided by its own length comes close to the exact unit vector, as long as that
length is in range. The one of components near the end of the range is not, and then no direction is
left.
-/
namespace Strapdown
open Binary

namespace Binary

variable {xs : List Float32} {x c s : Float32} {L S : ℚ} {d : ℝ}

/-- Finite components, one of which counts. -/
structure Sizable (xs : List Float32) : Prop where
  isFinite : ∀ x ∈ xs, x.isFinite = true
  exists_ge : ∃ x ∈ xs, 1 / 10 ^ 9 ≤ |toRat x|

/-- The components `ys` are those of the unit vector along `xs` times `σ`, up to a millionth. -/
def Along (σ : ℚ) (xs ys : List Float32) : Prop :=
  List.Forall₂ (fun x y => y.isFinite = true ∧
    |(toRat y : ℝ) - σ * (toRat x / √(sumSq xs : ℝ))| ≤ (1 / 10 ^ 6 : ℚ)) xs ys

theorem along_map {σ : ℚ} {g : Float32 → Float32} (h : ∀ x ∈ xs, (g x).isFinite = true ∧
    |(toRat (g x) : ℝ) - σ * (toRat x / √(sumSq xs : ℝ))| ≤ (1 / 10 ^ 6 : ℚ)) :
    Along σ xs (xs.map g) := by
  rw [Along, List.forall₂_map_right_iff, List.forall₂_same]
  exact h

theorem Sizable.le_sumSq (h : Sizable xs) : 1 / 10 ^ 18 ≤ sumSq xs := by
  obtain ⟨x, hx, hle⟩ := h.exists_ge
  have hsq : (1 / 10 ^ 9) ^ 2 ≤ |toRat x| ^ 2 := pow_le_pow_left₀ (by norm_num) hle 2
  have hsum := sq_le_sumSq hx
  rw [sq_abs] at hsq
  norm_num at hsq ⊢
  linarith

theorem Sizable.le_peak (h : Sizable xs) :
    (peak xs).isFinite = true ∧ 1 / 10 ^ 9 ≤ toRat (peak xs) ∧
      ∀ x ∈ xs, |toRat x| ≤ toRat (peak xs) := by
  obtain ⟨hfin, -, hle, -⟩ := foldl_larger isFinite_zero h.isFinite
  obtain ⟨x, hx, hge⟩ := h.exists_ge
  exact ⟨hfin, hge.trans (hle x hx), hle⟩

namespace SquareNorm
variable {T : Type} {v : T} (N : SquareNorm T)

/-- The two ways to measure a length. -/
theorem length_cases (hv : ∀ x ∈ N.toList v, x.isFinite = true) :
    ((N.norm v).isFinite = true ∧ N.length v = N.norm v) ∨
      N.length v = N.norm (N.divide v (peak (N.toList v))) * peak (N.toList v) := by
  have hall : (N.toList v).all Float32.isFinite = true := List.all_eq_true.mpr hv
  unfold length
  cases hn : (N.norm v).isFinite with
  | true => exact .inl ⟨rfl, rfl⟩
  | false => exact .inr (by simp [hall])

/-- Components divided by the largest one are of magnitude one at most. -/
theorem bounded_divide (h : Sizable (N.toList v)) :
    ∀ y ∈ N.toList (N.divide v (peak (N.toList v))), Bounded 10 y := by
  obtain ⟨hP, hge, hle⟩ := h.le_peak
  have hpos : 0 < toRat (peak (N.toList v)) := lt_of_lt_of_le (by norm_num) hge
  rw [N.toList_divide]
  intro y hy
  obtain ⟨x, hx, rfl⟩ := List.mem_map.mp hy
  have hquot : |toRat x / toRat (peak (N.toList v))| ≤ 2 ^ (0 : ℤ) := by
    rw [abs_div, abs_of_pos hpos, zpow_zero, div_le_one hpos]
    exact hle x hx
  obtain ⟨hfin, hone⟩ :=
    bounded_store (div_rounds (h.isFinite x hx) hP hpos.ne') (by decide) hquot
  exact ⟨hfin, hone.trans (by norm_num)⟩

/-- What is divided by its largest component is not short. -/
theorem half_le_norm_divide (h : Sizable (N.toList v))
    (hρ : (N.norm (N.divide v (peak (N.toList v)))).isFinite = true) :
    1 / 2 ≤ toRat (N.norm (N.divide v (peak (N.toList v)))) := by
  obtain ⟨-, hpos, hw⟩ := N.rescaled h.isFinite hρ
  have hone := (one_le_div (by positivity)).mpr (sq_peak_le h.isFinite)
  apply le_of_sq_le_sq _ (N.norm_near _ hρ).1
  have hlow := (abs_le.mp hw).1
  norm_num at hlow ⊢
  linarith

/-- The length of components that count is not tiny. -/
theorem length_ge (h : Sizable (N.toList v)) (hfin : (N.length v).isFinite = true) :
    1 / 2 ^ 34 ≤ toRat (N.length v) := by
  rcases N.length_cases h.isFinite with ⟨-, hl⟩ | hl
  · rw [hl] at hfin ⊢
    have hS := h.le_sumSq
    obtain ⟨hnn, hnear⟩ := N.norm_near v hfin
    have hlow := (abs_le.mp hnear).1
    apply le_of_sq_le_sq _ hnn
    norm_num at hlow hS ⊢
    linarith
  · rw [hl] at hfin ⊢
    have hhalf := N.half_le_norm_divide h (isFinite_of_mul hfin).1
    obtain ⟨-, hpeak, -⟩ := h.le_peak
    have hmul := toRat_mul hfin
    generalize N.norm (N.divide v (peak (N.toList v))) = ρ at *
    generalize peak (N.toList v) = P at *
    have hprod : 1 / 2 * (1 / 10 ^ 9) ≤ toRat ρ * toRat P :=
      mul_le_mul hhalf hpeak (by norm_num) (le_trans (by norm_num) hhalf)
    unfold Near at hmul
    rw [abs_of_nonneg (le_trans (by norm_num) hprod)] at hmul
    have hlow := (abs_le.mp hmul).1
    norm_num at hlow hprod ⊢
    linarith

theorem length_accurate (h : Sizable (N.toList v)) (hfin : (N.length v).isFinite = true) :
    Within 21 (sumSq (N.toList v)) (toRat (N.length v) ^ 2) :=
  (N.length_within hfin (N.length_ge h hfin)).2

/-- A length well inside the range is a number. -/
theorem isFinite_length
    (hsmall : ∀ u, (∀ x ∈ N.toList u, Bounded 10 x) → (N.norm u).isFinite = true)
    (h : Sizable (N.toList v)) (hS : sumSq (N.toList v) ≤ (2 ^ 128 - 2 ^ 108) ^ 2) :
    (N.length v).isFinite = true := by
  rcases N.length_cases h.isFinite with ⟨hfin, hl⟩ | hl
  · rw [hl]
    exact hfin
  · have hρ := hsmall _ (N.bounded_divide h)
    obtain ⟨hP, hpos, hw⟩ := N.rescaled h.isFinite hρ
    rw [hl, isFinite_mul_iff hρ hP]
    have hsq := within_mul_right hw (sq_nonneg (toRat (peak (N.toList v))))
    rw [div_mul_cancel₀ _ (by positivity), ← mul_pow] at hsq
    have hhigh := (abs_le.mp hsq).2
    apply abs_lt_of_sq_lt_sq _ (by norm_num [overflow])
    norm_num [overflow] at hS hhigh ⊢
    linarith

/-- A length beyond the range is none. -/
theorem not_isFinite_length (h : Sizable (N.toList v))
    (hS : (2 ^ 128 + 2 ^ 108) ^ 2 ≤ sumSq (N.toList v)) : (N.length v).isFinite = false := by
  by_contra hne
  have hfin := Bool.not_eq_false _ ▸ hne
  have hw := N.length_accurate h hfin
  have hlow := (abs_le.mp hw).1
  have hrange := sq_lt_sq' (abs_lt.mp (abs_toRat_lt (N.length v))).1
    (abs_lt.mp (abs_toRat_lt (N.length v))).2
  norm_num at hS hlow hrange
  linarith

end SquareNorm

/-- An accurate square belongs to an accurate root. -/
theorem near_sqrt (hL : 0 < L) (hS : 0 < S) (h : Within 21 S (L ^ 2)) :
    |√(S : ℝ) - L| ≤ 11 / 2 ^ 24 * L := by
  have hL' : (0 : ℝ) < L := by exact_mod_cast hL
  have hroot : 0 < √(S : ℝ) := Real.sqrt_pos.mpr (by exact_mod_cast hS)
  have hsq : √(S : ℝ) ^ 2 = S := Real.sq_sqrt (by exact_mod_cast hS.le)
  have hw : |(L : ℝ) ^ 2 - √(S : ℝ) ^ 2| ≤ 21 / 2 ^ 24 * √(S : ℝ) ^ 2 := by
    have hcast := (Rat.cast_le (K := ℝ)).mpr h
    push_cast at hcast
    rw [hsq]
    exact hcast
  generalize √(S : ℝ) = ρ at *
  have hlow : (1 - 21 / 2 ^ 24) * ρ ≤ L := by
    apply le_of_sq_le_sq _ hL'.le
    have := (abs_le.mp hw).1
    have : 0 ≤ ρ ^ 2 := sq_nonneg ρ
    norm_num at *
    linarith
  have hsum : 0 < (L : ℝ) + ρ := add_pos hL' hroot
  have hfactor : |ρ - L| * (L + ρ) = |(L : ℝ) ^ 2 - ρ ^ 2| := by
    calc |ρ - L| * (L + ρ) = |L - ρ| * |L + ρ| := by rw [abs_sub_comm, abs_of_pos hsum]
      _ = |(L : ℝ) ^ 2 - ρ ^ 2| := by
        rw [← abs_mul]
        ring_nf
  apply le_of_mul_le_mul_right _ hsum
  rw [hfactor]
  refine hw.trans ?_
  have hLρ : (1 - 21 / 2 ^ 24) * ρ * ρ ≤ L * ρ := mul_le_mul_of_nonneg_right hlow hroot.le
  have hLL : (1 - 21 / 2 ^ 24) * ρ * ((1 - 21 / 2 ^ 24) * ρ) ≤ L * L :=
    mul_le_mul hlow hlow (by norm_num; positivity) hL'.le
  norm_num at *
  nlinarith

/-- A component over the length, before it is rounded. -/
theorem div_length_near (hx : x ∈ xs) (hL : 0 < L) (hw : Within 21 (sumSq xs) (L ^ 2)) :
    |(toRat x / √(sumSq xs : ℝ))| ≤ 1 ∧
      |((toRat x / L : ℚ) : ℝ) - toRat x / √(sumSq xs : ℝ)| ≤ 11 / 2 ^ 24 := by
  have hS := Quaternion.sumSq_pos hL hw
  have hL' : (0 : ℝ) < L := by exact_mod_cast hL
  have hroot : 0 < √(sumSq xs : ℝ) := Real.sqrt_pos.mpr (by exact_mod_cast hS)
  have hone : |(toRat x / √(sumSq xs : ℝ))| ≤ 1 := by
    rw [abs_div, abs_of_pos hroot, div_le_one hroot]
    apply Real.abs_le_sqrt
    exact_mod_cast sq_le_sumSq hx
  refine ⟨hone, ?_⟩
  have hnear := near_sqrt hL hS hw
  have hsplit : ((toRat x / L : ℚ) : ℝ) - toRat x / √(sumSq xs : ℝ) =
      toRat x / √(sumSq xs : ℝ) * ((√(sumSq xs : ℝ) - L) / L) := by
    push_cast
    field_simp
  rw [hsplit, abs_mul, abs_div _ (L : ℝ), abs_of_pos hL']
  calc |(toRat x / √(sumSq xs : ℝ))| * (|√(sumSq xs : ℝ) - L| / L)
      ≤ 1 * (11 / 2 ^ 24) :=
        mul_le_mul hone ((div_le_iff₀ hL').mpr hnear) (by positivity) zero_le_one
    _ = 11 / 2 ^ 24 := one_mul _

/-- A component over the length: two more units for the division. -/
theorem div_near {ℓ : Float32} (hx : x ∈ xs) (hfin : x.isFinite = true) (hℓ : ℓ.isFinite = true)
    (hpos : 0 < toRat ℓ) (hw : Within 21 (sumSq xs) (toRat ℓ ^ 2)) :
    (x / ℓ).isFinite = true ∧
      |(toRat (x / ℓ) : ℝ) - toRat x / √(sumSq xs : ℝ)| ≤ 14 / 2 ^ 24 := by
  have hle := Quaternion.abs_div_le hx hpos hw (by norm_num)
  have hdiv := isFinite_div hfin hℓ hpos.ne' (hle.trans (by norm_num))
  refine ⟨hdiv, ?_⟩
  have hrounded : |toRat (x / ℓ) - toRat x / toRat ℓ| ≤ 3 / 2 ^ 24 := by
    have hn := toRat_div hfin hℓ hpos.ne' hdiv
    unfold Near at hn
    linarith
  have hcast := (Rat.cast_le (K := ℝ)).mpr hrounded
  push_cast at hcast
  have hexact := (div_length_near hx hpos hw).2
  push_cast at hexact
  calc |(toRat (x / ℓ) : ℝ) - toRat x / √(sumSq xs : ℝ)|
      ≤ |(toRat (x / ℓ) : ℝ) - toRat x / toRat ℓ| +
        |(toRat x / toRat ℓ : ℝ) - toRat x / √(sumSq xs : ℝ)| := abs_sub_le _ _ _
    _ ≤ 3 / 2 ^ 24 + 11 / 2 ^ 24 := add_le_add hcast hexact
    _ = 14 / 2 ^ 24 := by norm_num

/-- What is near a component of a unit vector, scaled by a number of magnitude at most one. -/
theorem mul_near (hc : c.isFinite = true) (hs : s.isFinite = true) (hle : |toRat s| ≤ 1)
    (hd : |d| ≤ 1) (h : |(toRat c : ℝ) - d| ≤ 14 / 2 ^ 24) :
    (c * s).isFinite = true ∧ |(toRat (c * s) : ℝ) - toRat s * d| ≤ 16 / 2 ^ 24 := by
  have hle' : |(toRat s : ℝ)| ≤ 1 := by exact_mod_cast hle
  have hc' : |(toRat c : ℝ)| ≤ 1 + 14 / 2 ^ 24 := by
    linarith [abs_sub_abs_le_abs_sub (toRat c : ℝ) d]
  have hprod : |(toRat c : ℝ) * toRat s| ≤ 1 + 14 / 2 ^ 24 := by
    rw [abs_mul]
    exact (mul_le_mul hc' hle' (abs_nonneg _) (by positivity)).trans_eq (mul_one _)
  have hprod' : |toRat c * toRat s| ≤ 1 + 14 / 2 ^ 24 := by
    rw [← Rat.cast_le (K := ℝ)]
    push_cast
    exact hprod
  have hfin := isFinite_mul hc hs (hprod'.trans (by norm_num))
  refine ⟨hfin, ?_⟩
  have hrounded : |toRat (c * s) - toRat c * toRat s| ≤ 2 / 2 ^ 24 := by
    have hn := toRat_mul hfin
    unfold Near at hn
    linarith
  have hcast := (Rat.cast_le (K := ℝ)).mpr hrounded
  push_cast at hcast
  have hscaled : |(toRat c * toRat s : ℝ) - toRat s * d| ≤ 14 / 2 ^ 24 := by
    calc |(toRat c * toRat s : ℝ) - toRat s * d| = |(toRat c : ℝ) - d| * |(toRat s : ℝ)| := by
          rw [← abs_mul]
          ring_nf
      _ ≤ 14 / 2 ^ 24 * 1 := mul_le_mul h hle' (abs_nonneg _) (by positivity)
      _ = 14 / 2 ^ 24 := mul_one _
  calc |(toRat (c * s) : ℝ) - toRat s * d|
      ≤ |(toRat (c * s) : ℝ) - toRat c * toRat s| + |(toRat c * toRat s : ℝ) - toRat s * d| :=
        abs_sub_le _ _ _
    _ ≤ 2 / 2 ^ 24 + 14 / 2 ^ 24 := add_le_add hcast hscaled
    _ = 16 / 2 ^ 24 := by norm_num

end Binary

variable {f : Elementary} {ℓ : Float32}

theorem degenerate_of_not_isFinite (h : ℓ.isFinite = false) :
    @Quaternion.degenerate _ f.numeric ℓ = true := by
  change (!ℓ.isFinite || decide (ℓ < 1e-10)) = true
  rw [h]
  rfl

theorem degenerate_of_le (hfin : ℓ.isFinite = true) (hle : toRat 1e-10 ≤ toRat ℓ) :
    @Quaternion.degenerate _ f.numeric ℓ = false := by
  change (!ℓ.isFinite || decide (ℓ < 1e-10)) = false
  have hlt : ¬ ℓ < 1e-10 := mt (lt_iff_toRat hfin isFinite_negligible).mp (not_lt.mpr hle)
  simp [hfin, hlt]

/-- A length in range of components that count is never degenerate. -/
theorem Binary.SquareNorm.degenerate_length {T : Type} {v : T} (N : SquareNorm T)
    (h : Sizable (N.toList v)) :
    @Quaternion.degenerate _ f.numeric (N.length v) = !(N.length v).isFinite := by
  cases hfin : (N.length v).isFinite with
  | false => exact degenerate_of_not_isFinite hfin
  | true =>
    have hw := N.length_accurate h hfin
    have hnn : 0 ≤ toRat (N.length v) := le_trans (by norm_num) (N.length_ge h hfin)
    have hS := h.le_sumSq
    apply degenerate_of_le hfin
    rw [toRat_negligible]
    apply le_of_sq_le_sq _ hnn
    have := (abs_le.mp hw).1
    norm_num at this hS ⊢
    linarith

namespace Quaternion

theorem normalize_along {q : Quaternion Float32} (h : Sizable q.toList)
    (hfin : (@length _ f.numeric q).isFinite = true) :
    Along 1 q.toList (@normalize _ f.numeric q).toList := by
  have hd : @degenerate _ f.numeric (@length _ f.numeric q) = false := by
    rw [SquareNorm.length_quaternion] at hfin ⊢
    rw [(SquareNorm.quaternion f).degenerate_length h, hfin]
    rfl
  have hw := (SquareNorm.quaternion f).length_accurate h hfin
  have hpos : 0 < toRat (@length _ f.numeric q) :=
    lt_of_lt_of_le (by norm_num) ((SquareNorm.quaternion f).length_ge h hfin)
  unfold normalize
  rw [hd]
  change Along 1 q.toList (q.toList.map (· / @length _ f.numeric q))
  apply along_map
  intro x hx
  obtain ⟨hdiv, hnear⟩ := div_near hx (h.isFinite x hx) hfin hpos hw
  refine ⟨hdiv, ?_⟩
  rw [Rat.cast_one, one_mul]
  exact hnear.trans (by norm_num)

theorem ofAxisAngle_of_isFinite {axis : Vec3 Float32} (h : Sizable axis.toList)
    (hfin : (@Vec3.length _ f.numeric axis).isFinite = true) (angle : Float32) :
    @ofAxisAngle _ f.numeric axis angle = ofParts (f.cos (angle * 0.5))
      (axis.map fun x => x / @Vec3.length _ f.numeric axis * f.sin (angle * 0.5)) := by
  have hd : @degenerate _ f.numeric (@Vec3.length _ f.numeric axis) = false := by
    rw [SquareNorm.length_vec3] at hfin ⊢
    rw [(SquareNorm.vec3 f).degenerate_length h, hfin]
    rfl
  exact ofAxisAngle_of_counts hd angle

theorem ofAxisAngle_along (hf : f.InRange) {axis : Vec3 Float32} {angle : Float32}
    (h : Sizable axis.toList) (hfin : (@Vec3.length _ f.numeric axis).isFinite = true)
    (hangle : angle.isFinite = true) : Along (toRat (f.sin (angle * 0.5))) axis.toList
      (@ofAxisAngle _ f.numeric axis angle).vec.toList := by
  have hw := (SquareNorm.vec3 f).length_accurate h hfin
  have hpos : 0 < toRat (@Vec3.length _ f.numeric axis) :=
    lt_of_lt_of_le (by norm_num) ((SquareNorm.vec3 f).length_ge h hfin)
  obtain ⟨hs, hle⟩ := (between_neg_iff isFinite_one).mp (hf.sin _ (isFinite_half_mul hangle))
  rw [toRat_one] at hle
  rw [ofAxisAngle_of_isFinite h hfin]
  change Along _ axis.toList
    (axis.toList.map fun x => x / @Vec3.length _ f.numeric axis * f.sin (angle * 0.5))
  apply along_map
  intro x hx
  obtain ⟨hdiv, hnear⟩ := div_near hx (h.isFinite x hx) hfin hpos hw
  obtain ⟨hmul, hscaled⟩ := mul_near hdiv hs hle (div_length_near hx hpos hw).1 hnear
  exact ⟨hmul, hscaled.trans (by norm_num)⟩

/-- No component comes near the end of a unit vector if the whole is too long for the range. -/
theorem not_along_identity {q : Quaternion Float32}
    (hS : (2 ^ 128 + 2 ^ 109) ^ 2 ≤ sumSq q.toList) :
    ¬ Along 1 q.toList (@identity _ f.numeric).toList := by
  intro h
  cases h with
  | cons hw _ =>
    have hone := (abs_le.mp hw.2).2
    change (toRat 1.0 : ℝ) - _ ≤ _ at hone
    rw [toRat_one, Rat.cast_one, one_mul] at hone
    have hroot : (2 ^ 128 + 2 ^ 109 : ℝ) ≤ √(sumSq q.toList : ℝ) := by
      apply Real.le_sqrt_of_sq_le
      exact_mod_cast hS
    have hrange : (toRat q.w : ℝ) < 2 ^ 128 := by
      exact_mod_cast (abs_lt.mp (abs_toRat_lt q.w)).2
    have hpos : 0 < √(sumSq q.toList : ℝ) := lt_of_lt_of_le (by positivity) hroot
    have hlow : (1 - 1 / 10 ^ 6) * √(sumSq q.toList : ℝ) ≤ toRat q.w := by
      rw [← le_div_iff₀ hpos]
      linarith
    norm_num at hlow hroot hrange
    linarith

theorem normalize_of_not_isFinite {q : Quaternion Float32}
    (h : (@length _ f.numeric q).isFinite = false) :
    @normalize _ f.numeric q = @identity _ f.numeric :=
  if_pos (degenerate_of_not_isFinite h)

theorem ofAxisAngle_of_not_isFinite {axis : Vec3 Float32}
    (h : (@Vec3.length _ f.numeric axis).isFinite = false) (angle : Float32) :
    @ofAxisAngle _ f.numeric axis angle = @identity _ f.numeric :=
  ofAxisAngle_of_degenerate (degenerate_of_not_isFinite h) angle

/-- Components that count keep their direction as long as their length is in range, and are mistaken
for degenerate ones otherwise. Lengths are in range up to about `2 ^ 128`, and so are those of all
finite components but the largest ones. -/
theorem direction_kept_in_range (f : Elementary) :
    (∀ q : Quaternion Float32, Sizable q.toList →
      ((@length _ f.numeric q).isFinite = true →
        Along 1 q.toList (@normalize _ f.numeric q).toList) ∧
      ((@length _ f.numeric q).isFinite = false →
        @normalize _ f.numeric q = @identity _ f.numeric) ∧
      (sumSq q.toList ≤ (2 ^ 128 - 2 ^ 108) ^ 2 → (@length _ f.numeric q).isFinite = true) ∧
      ((2 ^ 128 + 2 ^ 109) ^ 2 ≤ sumSq q.toList → (@length _ f.numeric q).isFinite = false ∧
        ¬ Along 1 q.toList (@normalize _ f.numeric q).toList)) ∧
    ∀ (axis : Vec3 Float32) (angle : Float32), Sizable axis.toList → angle.isFinite = true →
      ((@Vec3.length _ f.numeric axis).isFinite = true →
        (@ofAxisAngle _ f.numeric axis angle).w = f.cos (angle * 0.5) ∧
        (f.InRange → Along (toRat (f.sin (angle * 0.5))) axis.toList
          (@ofAxisAngle _ f.numeric axis angle).vec.toList)) ∧
      ((@Vec3.length _ f.numeric axis).isFinite = false →
        @ofAxisAngle _ f.numeric axis angle = @identity _ f.numeric) ∧
      (sumSq axis.toList ≤ (2 ^ 128 - 2 ^ 108) ^ 2 →
        (@Vec3.length _ f.numeric axis).isFinite = true) ∧
      ((2 ^ 128 + 2 ^ 109) ^ 2 ≤ sumSq axis.toList →
        (@Vec3.length _ f.numeric axis).isFinite = false) := by
  have hbeyond {xs : List Float32} (hS : (2 ^ 128 + 2 ^ 109) ^ 2 ≤ sumSq xs) :
      (2 ^ 128 + 2 ^ 108) ^ 2 ≤ sumSq xs := le_trans (by norm_num) hS
  constructor
  · intro q h
    refine ⟨normalize_along h, normalize_of_not_isFinite, ?_, ?_⟩
    · exact (SquareNorm.quaternion f).isFinite_length (fun _ => isFinite_norm f) h
    · intro hS
      have hlong := (SquareNorm.quaternion f).not_isFinite_length h (hbeyond hS)
      refine ⟨hlong, ?_⟩
      rw [normalize_of_not_isFinite hlong]
      exact not_along_identity hS
  · intro axis angle h hangle
    refine ⟨?_, fun hlong => ofAxisAngle_of_not_isFinite hlong angle, ?_, ?_⟩
    · intro hfin
      refine ⟨congrArg w (ofAxisAngle_of_isFinite h hfin angle), ?_⟩
      intro hf
      exact ofAxisAngle_along hf h hfin hangle
    · exact (SquareNorm.vec3 f).isFinite_length (fun _ => Vec3.isFinite_norm f) h
    · intro hS
      exact (SquareNorm.vec3 f).not_isFinite_length h (hbeyond hS)

/-- A quaternion of the largest components. -/
def largest : Quaternion Float32 := ⟨3.4028235e38, 3.4028235e38, 3.4028235e38, 3.4028235e38⟩

/-- Large components keep their direction, but equal components of the largest ones are left with
no rotation at all. -/
theorem directions_of_large_components :
    Elementary.quarterTurns.InRange ∧ Sizable [3e38, 0.0, 1e38, -1e38] ∧ Sizable [0.0, 3e38, 1.0] ∧
    Sizable largest.toList ∧
    Along 1 [3e38, 0.0, 1e38, -1e38]
      (@normalize _ Elementary.quarterTurns.numeric ⟨3e38, 0.0, 1e38, -1e38⟩).toList ∧
    (@ofAxisAngle _ Elementary.quarterTurns.numeric ⟨0.0, 3e38, 1.0⟩ 2.0).w = 0.5403023 ∧
    Along (toRat 0.84147098) [0.0, 3e38, 1.0]
      (@ofAxisAngle _ Elementary.quarterTurns.numeric ⟨0.0, 3e38, 1.0⟩ 2.0).vec.toList ∧
    @normalize _ Elementary.quarterTurns.numeric largest = ⟨1.0, 0.0, 0.0, 0.0⟩ ∧
    ¬ Along 1 largest.toList (@normalize _ Elementary.quarterTurns.numeric largest).toList := by
  have hquaternion : Sizable [3e38, 0.0, 1e38, -1e38] :=
    ⟨by decide +kernel, 3e38, List.mem_cons_self, by decide +kernel⟩
  have haxis : Sizable [0.0, 3e38, 1.0] := ⟨by decide +kernel, 3e38, by simp, by decide +kernel⟩
  have hlargest : Sizable largest.toList :=
    ⟨by decide +kernel, 3.4028235e38, List.mem_cons_self, by decide +kernel⟩
  have hcos : Elementary.quarterTurns.cos (2.0 * 0.5) = 0.5403023 := by decide +kernel
  have hsin : Elementary.quarterTurns.sin (2.0 * 0.5) = 0.84147098 := by decide +kernel
  obtain ⟨hnormalize, haxisAngle⟩ := direction_kept_in_range Elementary.quarterTurns
  obtain ⟨hq, -⟩ := hnormalize ⟨3e38, 0.0, 1e38, -1e38⟩ hquaternion
  obtain ⟨-, hlost, -, hbeyond⟩ := hnormalize largest hlargest
  obtain ⟨hlong, hnot⟩ := hbeyond (by decide +kernel)
  obtain ⟨hv, -⟩ := haxisAngle ⟨0.0, 3e38, 1.0⟩ 2.0 haxis (by decide +kernel)
  obtain ⟨hw, halong⟩ := hv (by decide +kernel)
  rw [hsin] at halong
  exact ⟨Elementary.inRange_quarterTurns, hquaternion, haxis, hlargest, hq (by decide +kernel),
    hw.trans hcos, halong Elementary.inRange_quarterTurns, hlost hlong, hnot⟩

end Quaternion
end Strapdown
