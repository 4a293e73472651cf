import Strapdown.Attitude.Propagation
import Strapdown.Attitude.Euler
import Strapdown.Proofs.Attitude.Accuracy

/-! The length of a vector or quaternion is accurate, on the plain path and on the rescaled one. -/
namespace Strapdown.Binary

variable {k c c' X Y : ℚ} {a b p q : Float32} {xs : List Float32}

/-- The exact sum of the squares of some numbers. -/
def sumSq (xs : List Float32) : ℚ := (xs.map fun x => toRat x ^ 2).sum

theorem sumSq_cons (x : Float32) (xs : List Float32) :
    sumSq (x :: xs) = toRat x ^ 2 + sumSq xs := by simp [sumSq]

theorem sumSq_nonneg (xs : List Float32) : 0 ≤ sumSq xs := by
  refine List.sum_nonneg ?_
  simp only [List.mem_map]
  rintro _ ⟨x, -, rfl⟩
  exact sq_nonneg _

theorem sq_le_sumSq {x : Float32} (hx : x ∈ xs) : toRat x ^ 2 ≤ sumSq xs := by
  induction xs with
  | nil => cases hx
  | cons y ys ih =>
    rw [sumSq_cons]
    rcases List.mem_cons.mp hx with rfl | hx
    · linarith [sumSq_nonneg ys]
    · linarith [ih hx, sq_nonneg (toRat y)]

/-- Errors of the squares add up to the error of their sum. -/
theorem sumSq_map_near {g : Float32 → Float32} {β : ℚ}
    (h : ∀ x ∈ xs, |toRat (g x) ^ 2 - (toRat x * k) ^ 2| ≤ c * (toRat x * k) ^ 2 + β) :
    |sumSq (xs.map g) - sumSq xs * k ^ 2| ≤ c * (sumSq xs * k ^ 2) + xs.length * β := by
  induction xs with
  | nil => simp [sumSq]
  | cons y ys ih =>
    have hy := h y List.mem_cons_self
    have hys := ih fun x hx => h x (List.mem_cons_of_mem y hx)
    rw [List.map_cons, sumSq_cons, sumSq_cons, List.length_cons, add_mul, ← mul_pow]
    push_cast
    calc |toRat (g y) ^ 2 + sumSq (ys.map g) - ((toRat y * k) ^ 2 + sumSq ys * k ^ 2)|
        = |(toRat (g y) ^ 2 - (toRat y * k) ^ 2) + (sumSq (ys.map g) - sumSq ys * k ^ 2)| := by
          ring_nf
      _ ≤ |toRat (g y) ^ 2 - (toRat y * k) ^ 2| + |sumSq (ys.map g) - sumSq ys * k ^ 2| :=
          abs_add_le _ _
      _ ≤ c * ((toRat y * k) ^ 2 + sumSq ys * k ^ 2) + (ys.length + 1) * β := by linarith

/-- Rounded quotients of components that are at most twice the divisor. -/
theorem sumSq_map_div_near (hp : p.isFinite = true) (hz : toRat p ≠ 0)
    (hxs : ∀ x ∈ xs, x.isFinite = true ∧ (x / p).isFinite = true ∧ |toRat x / toRat p| ≤ 2) :
    |sumSq (xs.map (· / p)) - sumSq xs / toRat p ^ 2| ≤
      3 / 2 ^ 24 * (sumSq xs / toRat p ^ 2) + xs.length * (5 / 2 ^ 150) := by
  rw [div_eq_mul_inv (sumSq xs), ← inv_pow]
  refine sumSq_map_near ?_
  intro x hx
  obtain ⟨hx, hdiv, hle⟩ := hxs x hx
  rw [← div_eq_mul_inv]
  exact sq_near (toRat_div hx hp hz hdiv) hle

/-- A number that estimates a sum of squares, with `k` units of relative error. -/
structure Estimates (k c X : ℚ) (p : Float32) : Prop where
  nonneg : 0 ≤ X
  near : |toRat p - X| ≤ k / 2 ^ 24 * X + c / 2 ^ 150

theorem estimates_mono {j d : ℚ} (h : Estimates k c X p) (hk : k ≤ j) (hc : c ≤ d) :
    Estimates j d X p := by
  refine ⟨h.nonneg, h.near.trans ?_⟩
  have := mul_le_mul_of_nonneg_right (show k / 2 ^ 24 ≤ j / 2 ^ 24 by gcongr) h.nonneg
  linarith

theorem estimates_sq (h : (a * a).isFinite = true) : Estimates 1 1 (toRat a ^ 2) (a * a) := by
  have hn := toRat_mul h
  unfold Near at hn
  rw [abs_mul_self, ← sq] at hn
  exact ⟨sq_nonneg _, by linarith⟩

theorem estimates_add (hp : Estimates k c X p) (hq : Estimates k c' Y q)
    (hk : k ≤ 1000) (hc : 0 ≤ c) (hc' : 0 ≤ c') (h : (p + q).isFinite = true) :
    Estimates (k + 2) (2 * (c + c') + 1) (X + Y) (p + q) := by
  obtain ⟨hX, hpX⟩ := hp
  obtain ⟨hY, hqY⟩ := hq
  refine ⟨add_nonneg hX hY, ?_⟩
  have hn := toRat_add h
  unfold Near at hn
  have hsum : |toRat p + toRat q - (X + Y)| ≤ k / 2 ^ 24 * (X + Y) + (c + c') / 2 ^ 150 := by
    calc |toRat p + toRat q - (X + Y)| = |(toRat p - X) + (toRat q - Y)| := by ring_nf
      _ ≤ |toRat p - X| + |toRat q - Y| := abs_add_le _ _
      _ ≤ k / 2 ^ 24 * (X + Y) + (c + c') / 2 ^ 150 := by linarith
  have habs : |toRat p + toRat q| ≤ (1 + k / 2 ^ 24) * (X + Y) + (c + c') / 2 ^ 150 := by
    calc |toRat p + toRat q| = |(toRat p + toRat q - (X + Y)) + (X + Y)| := by ring_nf
      _ ≤ |toRat p + toRat q - (X + Y)| + |X + Y| := abs_add_le _ _
      _ ≤ _ := by
        rw [abs_of_nonneg (add_nonneg hX hY)]
        linarith
  have hsmall : k / 2 ^ 24 * ((X + Y) / 2 ^ 24) ≤ 1 * ((X + Y) / 2 ^ 24) :=
    mul_le_mul_of_nonneg_right (by linarith) (by positivity)
  calc |toRat (p + q) - (X + Y)|
      ≤ |toRat (p + q) - (toRat p + toRat q)| + |toRat p + toRat q - (X + Y)| :=
        abs_sub_le _ _ _
    _ ≤ ((1 + k / 2 ^ 24) * (X + Y) + (c + c') / 2 ^ 150) / 2 ^ 24 + 1 / 2 ^ 150 +
        (k / 2 ^ 24 * (X + Y) + (c + c') / 2 ^ 150) := by linarith
    _ ≤ (k + 2) / 2 ^ 24 * (X + Y) + (2 * (c + c') + 1) / 2 ^ 150 := by linarith

/-- The root of an estimate, by its square. -/
theorem estimates_sqrt (h : Estimates 5 21 X p) (hs : p.sqrt.isFinite = true) :
    0 ≤ toRat p.sqrt ∧ |toRat p.sqrt ^ 2 - X| ≤ 9 / 2 ^ 24 * X + 22 / 2 ^ 150 := by
  obtain ⟨hX, hpX⟩ := h
  refine ⟨toRat_sqrt_nonneg hs, ?_⟩
  obtain ⟨h₁, h₂⟩ := abs_le.mp hpX
  obtain ⟨h₃, h₄⟩ := abs_le.mp (within_sqrt hs)
  rw [abs_le]
  constructor <;> linarith

theorem estimates_three {x y z : Float32} (h : (x * x + y * y + z * z).isFinite = true) :
    (∀ c ∈ [x, y, z], c.isFinite = true) ∧
      Estimates 5 21 (sumSq [x, y, z]) (x * x + y * y + z * z) := by
  obtain ⟨hxy, hz⟩ := isFinite_of_add h
  obtain ⟨hx, hy⟩ := isFinite_of_add hxy
  constructor
  · simp [(isFinite_of_mul hx).1, (isFinite_of_mul hy).1, (isFinite_of_mul hz).1]
  · have hs := estimates_add (estimates_sq hx) (estimates_sq hy)
      (by norm_num) (by norm_num) (by norm_num) hxy
    have hs' := estimates_add hs (estimates_mono (estimates_sq hz) (j := 1 + 2) (by norm_num) le_rfl)
      (by norm_num) (by norm_num) (by norm_num) h
    convert estimates_mono hs' (j := 5) (d := 21) (by norm_num) (by norm_num) using 1
    simp only [sumSq, List.map_cons, List.map_nil, List.sum_cons, List.sum_nil]
    ring

theorem estimates_four {w x y z : Float32}
    (h : ((x * x + z * z) + (y * y + w * w)).isFinite = true) :
    (∀ c ∈ [w, x, y, z], c.isFinite = true) ∧
      Estimates 5 21 (sumSq [w, x, y, z]) ((x * x + z * z) + (y * y + w * w)) := by
  obtain ⟨hxz, hyw⟩ := isFinite_of_add h
  obtain ⟨hx, hz⟩ := isFinite_of_add hxz
  obtain ⟨hy, hw⟩ := isFinite_of_add hyw
  constructor
  · simp [(isFinite_of_mul hw).1, (isFinite_of_mul hx).1, (isFinite_of_mul hy).1,
      (isFinite_of_mul hz).1]
  · have hs := estimates_add (estimates_sq hx) (estimates_sq hz)
      (by norm_num) (by norm_num) (by norm_num) hxz
    have hs' := estimates_add (estimates_sq hy) (estimates_sq hw)
      (by norm_num) (by norm_num) (by norm_num) hyw
    have hs'' := estimates_add hs hs' (by norm_num) (by norm_num) (by norm_num) h
    convert estimates_mono hs'' (j := 5) (d := 21) (by norm_num) (by norm_num) using 1
    simp only [sumSq, List.map_cons, List.map_nil, List.sum_cons, List.sum_nil]
    ring

/-- The largest magnitude among some numbers. -/
def peak (xs : List Float32) : Float32 := (xs.map Float32.abs).foldl Numeric.largerFloat 0.0

theorem foldl_larger (hp : p.isFinite = true) (hxs : ∀ x ∈ xs, x.isFinite = true) :
    let m := (xs.map Float32.abs).foldl Numeric.largerFloat p
    m.isFinite = true ∧ toRat p ≤ toRat m ∧ (∀ x ∈ xs, |toRat x| ≤ toRat m) ∧
      (toRat m = toRat p ∨ ∃ x ∈ xs, toRat m = |toRat x|) := by
  induction xs generalizing p with
  | nil => exact ⟨hp, le_rfl, by simp, Or.inl rfl⟩
  | cons y ys ih =>
    have hy : y.abs.isFinite = true := by simpa using hxs y List.mem_cons_self
    have hmax := toRat_largerFloat hp hy
    rw [toRat_abs] at hmax
    obtain ⟨hm, hle, hall, heq⟩ :=
      ih (isFinite_largerFloat hp hy) fun x hx => hxs x (List.mem_cons_of_mem y hx)
    rw [hmax] at hle heq
    refine ⟨hm, (le_max_left _ _).trans hle, ?_, ?_⟩
    · intro x hx
      rcases List.mem_cons.mp hx with rfl | hx
      · exact (le_max_right _ _).trans hle
      · exact hall x hx
    · rcases heq with heq | ⟨x, hx, heq⟩
      · rcases max_choice (toRat p) |toRat y| with hc | hc
        · exact Or.inl (heq.trans hc)
        · exact Or.inr ⟨y, List.mem_cons_self, heq.trans hc⟩
      · exact Or.inr ⟨x, List.mem_cons_of_mem y hx, heq⟩

theorem sq_peak_le (hxs : ∀ x ∈ xs, x.isFinite = true) : toRat (peak xs) ^ 2 ≤ sumSq xs := by
  obtain ⟨-, -, -, heq⟩ := foldl_larger isFinite_zero hxs
  change toRat (peak xs) = _ ∨ ∃ x ∈ xs, toRat (peak xs) = _ at heq
  rcases heq with heq | ⟨x, hx, heq⟩
  · rw [heq, toRat_zero, zero_pow two_ne_zero]
    exact sumSq_nonneg xs
  · rw [heq, sq_abs]
    exact sq_le_sumSq hx

/-- A norm that is computed from the squares of at most four components. -/
structure SquareNorm (T : Type) where
  toList : T → List Float32
  norm : T → Float32
  divide : T → Float32 → T
  toList_divide : ∀ v s, toList (divide v s) = (toList v).map (· / s)
  toList_ne_nil : ∀ v, toList v ≠ []
  length_toList_le : ∀ v, (toList v).length ≤ 4
  isFinite_of_norm : ∀ v, (norm v).isFinite = true → ∀ x ∈ toList v, x.isFinite = true
  norm_near : ∀ v, (norm v).isFinite = true → 0 ≤ toRat (norm v) ∧
    |toRat (norm v) ^ 2 - sumSq (toList v)| ≤ 9 / 2 ^ 24 * sumSq (toList v) + 22 / 2 ^ 150

namespace SquareNorm
variable {T : Type} {v : T}

/-- The norm, relative to the largest component where the plain squares are too large. -/
def length (N : SquareNorm T) (v : T) : Float32 :=
  if (N.norm v).isFinite || !(N.toList v).all Float32.isFinite then N.norm v
  else N.norm (N.divide v (peak (N.toList v))) * peak (N.toList v)

def quaternion (f : Elementary) : SquareNorm (Quaternion Float32) where
  toList := Quaternion.toList
  norm := @Quaternion.norm _ f.numeric
  divide := @Quaternion.divide _ f.numeric
  toList_divide _ _ := rfl
  toList_ne_nil _ := by simp [Quaternion.toList]
  length_toList_le _ := le_rfl
  isFinite_of_norm _ h := (estimates_four (isFinite_of_sqrt h)).1
  norm_near _ h := estimates_sqrt (estimates_four (isFinite_of_sqrt h)).2 h

def vec3 (f : Elementary) : SquareNorm (Vec3 Float32) where
  toList := Vec3.toList
  norm := @Vec3.norm _ f.numeric
  divide := @Vec3.divide _ f.numeric
  toList_divide _ _ := rfl
  toList_ne_nil _ := by simp [Vec3.toList]
  length_toList_le _ := by simp [Vec3.toList]
  isFinite_of_norm _ h := (estimates_three (isFinite_of_sqrt h)).1
  norm_near _ h := estimates_sqrt (estimates_three (isFinite_of_sqrt h)).2 h

theorem length_quaternion (f : Elementary) (q : Quaternion Float32) :
    @Quaternion.length _ f.numeric q = (quaternion f).length q := rfl

theorem length_vec3 (f : Elementary) (v : Vec3 Float32) :
    @Vec3.length _ f.numeric v = (vec3 f).length v := rfl

/-- A plain norm that is not tiny is accurate. -/
theorem norm_within (N : SquareNorm T) (h : (N.norm v).isFinite = true)
    (hlow : 1 / 2 ^ 34 ≤ toRat (N.norm v)) :
    Within 10 (sumSq (N.toList v)) (toRat (N.norm v) ^ 2) := by
  have hn := (N.norm_near v h).2
  have hsq : (1 / 2 ^ 34 : ℚ) ^ 2 ≤ toRat (N.norm v) ^ 2 := pow_le_pow_left₀ (by norm_num) hlow 2
  have hS := sumSq_nonneg (N.toList v)
  refine hn.trans ?_
  have hlow' : (1 / 2 ^ 70 : ℚ) ≤ sumSq (N.toList v) := by
    have := (abs_le.mp hn).2
    norm_num at *
    linarith
  norm_num at *
  linarith

/-- The components relative to the largest one: no square is too large, and one is one. -/
theorem rescaled (N : SquareNorm T) (hv : ∀ x ∈ N.toList v, x.isFinite = true)
    (h : (N.norm (N.divide v (peak (N.toList v)))).isFinite = true) :
    (peak (N.toList v)).isFinite = true ∧ 0 < toRat (peak (N.toList v)) ∧
      Within 15 (sumSq (N.toList v) / toRat (peak (N.toList v)) ^ 2)
        (toRat (N.norm (N.divide v (peak (N.toList v)))) ^ 2) := by
  obtain ⟨hp, hp0, hle, -⟩ := foldl_larger isFinite_zero hv
  change (peak (N.toList v)).isFinite = true at hp
  change _ ≤ toRat (peak (N.toList v)) at hp0
  change ∀ x ∈ _, |toRat x| ≤ toRat (peak (N.toList v)) at hle
  have hdiv := N.isFinite_of_norm _ h
  have hpeak := sq_peak_le hv
  have hlist := N.toList_divide v (peak (N.toList v))
  have hlen : ((N.toList v).length : ℚ) ≤ 4 := by exact_mod_cast N.length_toList_le v
  have hnear := N.norm_near _ h
  rw [hlist] at hdiv hnear
  generalize peak (N.toList v) = P at *
  have hne : toRat P ≠ 0 := by
    obtain ⟨y, hy⟩ := List.exists_mem_of_ne_nil _ (N.toList_ne_nil v)
    exact toRat_ne_zero_of_div (hdiv _ (List.mem_map_of_mem hy)) (hv y hy) hp
  have hpos : 0 < toRat P := by
    rw [toRat_zero] at hp0
    exact lt_of_le_of_ne hp0 (Ne.symm hne)
  refine ⟨hp, hpos, ?_⟩
  have hT : 1 ≤ sumSq (N.toList v) / toRat P ^ 2 := (one_le_div (by positivity)).mpr hpeak
  have hR := sumSq_map_div_near hp hne fun x hx =>
    ⟨hv x hx, hdiv _ (List.mem_map_of_mem hx), by
      rw [abs_div, abs_of_pos hpos, div_le_iff₀ hpos]
      linarith [hle x hx]⟩
  generalize sumSq (N.toList v) / toRat P ^ 2 = X at *
  have hlen' : ((N.toList v).length : ℚ) * (5 / 2 ^ 150) ≤ 4 * (5 / 2 ^ 150) :=
    mul_le_mul_of_nonneg_right hlen (by positivity)
  have hXR : Within 4 X (sumSq ((N.toList v).map (· / P))) := by
    unfold Within
    linarith
  have hRn : Within 10 (sumSq ((N.toList v).map (· / P)))
      (toRat (N.norm (N.divide v P)) ^ 2) := by
    unfold Within at hXR ⊢
    have := (abs_le.mp hXR).1
    linarith [hnear.2]
  have := within_trans hXR hRn (by linarith) (by norm_num) (by norm_num) (by norm_num)
  norm_num at this
  exact this

/-- A length that is neither tiny nor infinite is accurate on either path. -/
theorem length_within (N : SquareNorm T) (h : (N.length v).isFinite = true)
    (hlow : 1 / 2 ^ 34 ≤ toRat (N.length v)) :
    (∀ x ∈ N.toList v, x.isFinite = true) ∧
      Within 21 (sumSq (N.toList v)) (toRat (N.length v) ^ 2) := by
  unfold length at h hlow ⊢
  split
  · next hplain =>
    rw [if_pos hplain] at h hlow
    exact ⟨N.isFinite_of_norm v h,
      within_mono (N.norm_within h hlow) (sumSq_nonneg _) (by norm_num)⟩
  · next hplain =>
    rw [if_neg hplain] at h hlow
    have hv : ∀ x ∈ N.toList v, x.isFinite = true := by
      simp only [Bool.or_eq_true, Bool.not_eq_true', not_or, Bool.not_eq_false] at hplain
      exact List.all_eq_true.mp hplain.2
    refine ⟨hv, ?_⟩
    obtain ⟨hρ, -⟩ := isFinite_of_mul h
    obtain ⟨hP, hpos, hw⟩ := N.rescaled hv hρ
    have hmul := toRat_mul h
    have hρ0 := (N.norm_near _ hρ).1
    generalize peak (N.toList v) = P at *
    generalize N.norm (N.divide v P) = ρ at *
    have hprod : 0 ≤ toRat ρ * toRat P := mul_nonneg hρ0 hpos.le
    have hbig : 1 / 2 ^ 100 ≤ toRat ρ * toRat P := by
      unfold Near at hmul
      rw [abs_of_nonneg hprod] at hmul
      linarith [(abs_le.mp hmul).2]
    have hL := within_sq (within_of_near hmul hbig) hprod (by norm_num) (by norm_num)
    have hS := within_mul_right hw (sq_nonneg (toRat P))
    rw [div_mul_cancel₀ _ (by positivity), ← mul_pow] at hS
    have := within_trans hS hL (sumSq_nonneg _) (by norm_num) (by norm_num) (by norm_num)
    norm_num at this
    exact this

end SquareNorm
end Strapdown.Binary
