import Strapdown.Proofs.Attitude.UnitNorm
import Strapdown.Proofs.Binary.Bounded

/-!
Rotations, rotation vectors and angles are numbers whatever they are made from: no infinity and
nothing undefined gets past the guards, if the elementary functions keep to their ranges.
-/
namespace Strapdown
open Binary

namespace Binary

variable {a b : Float32} {k : ℤ}

/-- Half a turn, in radians. -/
def halfTurn : Float32 := 3.1415927

/-- A quarter turn, in radians. -/
def quarterTurn : Float32 := 1.5707964

theorem turns_eq : (halfTurn.isFinite ∧ quarterTurn.isFinite) ∧
    toRat halfTurn = 13176795 / 2 ^ 22 ∧ toRat quarterTurn = 13176795 / 2 ^ 23 := by decide +kernel

theorem isFinite_halfTurn : halfTurn.isFinite = true := turns_eq.1.1

theorem isFinite_quarterTurn : quarterTurn.isFinite = true := turns_eq.1.2

theorem toRat_halfTurn : toRat halfTurn = 13176795 / 2 ^ 22 := turns_eq.2.1

theorem toRat_quarterTurn : toRat quarterTurn = 13176795 / 2 ^ 23 := turns_eq.2.2

theorem bounded_one : Bounded 0 1.0 := ⟨isFinite_one, by simp⟩

theorem two_eq : (2.0 : Float32).isFinite ∧ toRat 2.0 = 2 := by decide +kernel

theorem toRat_two : toRat 2.0 = 2 := two_eq.2

theorem bounded_two : Bounded 1 2.0 := by
  refine ⟨two_eq.1, ?_⟩
  rw [toRat_two]
  norm_num

theorem between_double (h : Between 0.0 quarterTurn a) : Between 0.0 halfTurn (2.0 * a) := by
  rw [between_iff isFinite_zero isFinite_quarterTurn, toRat_zero, toRat_quarterTurn] at h
  obtain ⟨ha, hlow, hhigh⟩ := h
  have hb : Bounded 1 a := by
    refine ⟨ha, ?_⟩
    rw [abs_of_nonneg hlow]
    exact hhigh.trans (by norm_num)
  have hmul := bounded_mul bounded_two hb (by decide)
  have hr := rounds_mul hmul.isFinite
  rw [toRat_two] at hr
  have hle : 2 * toRat a ≤ (13176795 : ℤ) * 2 ^ (-22 : ℤ) := by
    norm_num at hhigh ⊢
    linarith
  have hlt : |2 * toRat a| < 2 ^ (-22 + (Float.Model.Format.binary32.mantissaBits : ℤ)) := by
    rw [abs_of_nonneg (by positivity)]
    norm_num [Float.Model.Format.mantissaBits] at hhigh ⊢
    linarith
  rw [between_iff isFinite_zero isFinite_halfTurn, toRat_zero, toRat_halfTurn]
  refine ⟨hmul.isFinite, hr.nonneg (by positivity), ?_⟩
  refine (hr.le_of_le (by decide) hlt hle).trans_eq ?_
  norm_num

/-- Sums of numbers that are not negative, such as squares. -/
theorem bounded_add_nonneg (ha : Bounded k a ∧ 0 ≤ toRat a) (hb : Bounded k b ∧ 0 ≤ toRat b)
    (hk : -149 ≤ k + 1 ∧ k + 1 ≤ 127) : Bounded (k + 1) (a + b) ∧ 0 ≤ toRat (a + b) := by
  have hsum := bounded_add ha.1 hb.1 hk
  exact ⟨hsum, toRat_add_nonneg hsum.isFinite (add_nonneg ha.2 hb.2)⟩

theorem bounded_mul_self (ha : Bounded k a) (hk : -149 ≤ k + k ∧ k + k ≤ 127) :
    Bounded (k + k) (a * a) ∧ 0 ≤ toRat (a * a) := by
  have hsq := bounded_mul ha ha hk
  exact ⟨hsq, toRat_mul_self_nonneg hsq.isFinite⟩

end Binary

variable {f : Elementary} {q : Quaternion Float32} {v : Vec3 Float32} {t : ℚ}

/-- Elementary functions give numbers in their usual ranges for numbers in their domains. Of the
arccosine only the half for cosines that are not negative is in use. -/
structure Elementary.InRange (f : Elementary) : Prop where
  sin : ∀ x : Float32, x.isFinite = true → Between (-1.0) 1.0 (f.sin x)
  cos : ∀ x : Float32, x.isFinite = true → Between (-1.0) 1.0 (f.cos x)
  asin : ∀ x, Between (-1.0) 1.0 x → Between (-quarterTurn) quarterTurn (f.asin x)
  acos : ∀ x, Between 0.0 1.0 x → Between 0.0 quarterTurn (f.acos x)
  atan2 : ∀ y x : Float32, y.isFinite = true → x.isFinite = true →
    Between (-halfTurn) halfTurn (f.atan2 y x)

theorem Vec3.isFinite_iff (f : Elementary) :
    @Vec3.isFinite _ f.numeric v = true ↔ ∀ x ∈ v.toList, x.isFinite = true := List.all_eq_true

theorem Quaternion.isFinite_iff (f : Elementary) :
    @Quaternion.isFinite _ f.numeric q = true ↔ ∀ x ∈ q.toList, x.isFinite = true :=
  List.all_eq_true

theorem Vec3.isFinite_norm_of_bounded (f : Elementary) {k : ℤ} (h : ∀ x ∈ v.toList, Bounded k x)
    (hk : 0 ≤ k ∧ k ≤ 60) : (@Vec3.norm _ f.numeric v).isFinite = true := by
  simp only [toList, List.forall_mem_cons] at h
  obtain ⟨hx, hy, hz, -⟩ := h
  have hxy := bounded_add_nonneg (bounded_mul_self hx (by omega)) (bounded_mul_self hy (by omega))
    (by omega)
  have hzz := bounded_mul_self hz (by omega)
  have hsum := bounded_add_nonneg hxy ⟨bounded_mono hzz.1 (by omega), hzz.2⟩ (by omega)
  exact isFinite_sqrt hsum.1.isFinite hsum.2

theorem Vec3.isFinite_norm (f : Elementary) (h : ∀ x ∈ v.toList, Bounded 10 x) :
    (@Vec3.norm _ f.numeric v).isFinite = true :=
  isFinite_norm_of_bounded f h (by decide)

namespace Quaternion

theorem isFinite_norm (f : Elementary) (h : ∀ x ∈ q.toList, Bounded 10 x) :
    (@norm _ f.numeric q).isFinite = true := by
  simp only [toList, List.forall_mem_cons] at h
  obtain ⟨hw, hx, hy, hz, -⟩ := h
  have hxz := bounded_add_nonneg (bounded_mul_self hx (by decide)) (bounded_mul_self hz (by decide))
    (by decide)
  have hyw := bounded_add_nonneg (bounded_mul_self hy (by decide)) (bounded_mul_self hw (by decide))
    (by decide)
  have hsum := bounded_add_nonneg hxz hyw (by decide)
  exact isFinite_sqrt hsum.1.isFinite hsum.2

theorem IsUnit.bounded (h : q.IsUnit t) (ht : t ≤ 3) : ∀ x ∈ q.toList, Bounded 1 x := by
  intro x hx
  refine ⟨h.isFinite x hx, ?_⟩
  have hsq := sq_le_sumSq hx
  have hone := (abs_le.mp h.near_one).2
  rw [zpow_one]
  apply abs_le_of_sq_le_sq _ zero_le_two
  linarith

/-- The scaled vector is undefined only where the angle is none to speak of. -/
theorem isFinite_exp (hf : f.InRange) (v : Vec3 Float32) :
    @isFinite _ f.numeric (@exp _ f.numeric v) = true := by
  rw [isFinite_iff]
  unfold exp
  simp only
  split
  · exact (isUnit_normalize f _).isFinite
  · next hd =>
    rw [Bool.not_eq_true] at hd
    have hhalf := isFinite_half_mul (not_degenerate hd).1
    obtain ⟨hsin, hle⟩ := (between_neg_iff isFinite_one).mp (hf.sin _ hhalf)
    rw [toRat_one] at hle
    have hvec := (scale_axis_near hd hsin hle).1
    intro x hx
    rcases List.mem_cons.mp hx with rfl | hx
    · exact (hf.cos _ hhalf).1
    · exact hvec x hx

theorem bounded_normalize (f : Elementary) (q : Quaternion Float32) :
    ∀ x ∈ (@normalize _ f.numeric q).toList, Bounded 1 x :=
  (isUnit_normalize f q).bounded (by norm_num)

theorem bounded_shortWay (f : Elementary) {k : ℤ} (h : ∀ x ∈ q.toList, Bounded k x) :
    ∀ x ∈ (@shortWay _ f.numeric q).toList, Bounded k x := by
  unfold shortWay
  split
  · change ∀ x ∈ q.toList.map Neg.neg, _
    intro y hy
    obtain ⟨x, hx, rfl⟩ := List.mem_map.mp hy
    exact bounded_neg (h x hx)
  · exact h

theorem isFinite_sine (f : Elementary) (h : ∀ x ∈ q.toList, Bounded 1 x) :
    (@Vec3.norm _ f.numeric q.vec).isFinite = true :=
  Vec3.isFinite_norm f fun x hx => bounded_mono (h x (List.mem_cons_of_mem _ hx)) (by decide)

theorem le_of_not_negligible {x : Float32} (hx : x.isFinite = true)
    (h : ¬ @Numeric.lt _ f.numeric x 1e-10 = true) : 1 / 2 ^ 34 ≤ toRat x := by
  have hd : @degenerate _ f.numeric x = false := by
    change (!x.isFinite || _) = false
    rw [hx]
    exact Bool.eq_false_iff.mpr h
  exact (not_degenerate hd).2

/-- The factor of a rotation vector is at most the angle over the least sine that counts. -/
theorem bounded_log (hf : f.InRange) (q : Quaternion Float32) :
    ∀ x ∈ (@log _ f.numeric q).toList, Bounded 38 x := by
  have hunit := bounded_shortWay f (bounded_normalize f q)
  unfold log
  simp only
  generalize @shortWay _ f.numeric (@normalize _ f.numeric q) = u at hunit ⊢
  have hscaled {k : ℤ} {s : Float32} (hs : Bounded k s) (hk : 0 ≤ k ∧ k ≤ 37) :
      ∀ x ∈ (u.vec.map (· * s)).toList, Bounded 38 x := by
    change ∀ x ∈ u.vec.toList.map (· * s), _
    intro y hy
    obtain ⟨x, hx, rfl⟩ := List.mem_map.mp hy
    have hprod := bounded_mul (hunit x (List.mem_cons_of_mem _ hx)) hs (by omega)
    exact bounded_mono hprod (by omega)
  have hsine := isFinite_sine f hunit
  have hw : Bounded 1 u.w := hunit _ List.mem_cons_self
  split
  · exact hscaled bounded_two (by decide)
  · next hlt =>
    have hlow : (2 : ℚ) ^ (-34 : ℤ) ≤ |toRat (@Vec3.norm _ f.numeric u.vec)| :=
      ((le_of_not_negligible hsine hlt).trans' (by norm_num)).trans (le_abs_self _)
    have hangle : Bounded 2 (f.atan2 (@Vec3.norm _ f.numeric u.vec) u.w) :=
      bounded_of_between isFinite_halfTurn (by rw [toRat_halfTurn]; norm_num)
        (hf.atan2 _ _ hsine hw.isFinite)
    have hfactor :=
      bounded_div (bounded_mul bounded_two hangle (by decide)) hsine hlow (by decide)
    exact hscaled hfactor (by decide)

theorem isFinite_log (hf : f.InRange) (q : Quaternion Float32) :
    @Vec3.isFinite _ f.numeric (@log _ f.numeric q) = true :=
  (Vec3.isFinite_iff f).mpr fun x hx => (bounded_log hf q x hx).isFinite

theorem isFinite_errorTo (hf : f.InRange) (a b : Quaternion Float32) :
    @Vec3.isFinite _ f.numeric (@errorTo _ f.numeric a b) = true :=
  isFinite_log hf _

/-- The drift between two attitudes is a number. -/
theorem isFinite_drift (hf : f.InRange) (a b : Quaternion Float32) :
    (@Vec3.norm _ f.numeric (@errorTo _ f.numeric a b)).isFinite = true :=
  Vec3.isFinite_norm_of_bounded f (bounded_log hf _) (by decide)

theorem isFinite_smallErrorTo (f : Elementary) (a b : Quaternion Float32) :
    @Vec3.isFinite _ f.numeric (@smallErrorTo _ f.numeric a b) = true := by
  unfold smallErrorTo
  simp only
  split
  · assumption
  · rw [Vec3.isFinite_iff]
    change ∀ x ∈ [0.0, 0.0, 0.0], _
    simp

/-- Twice the angle of a cosine that is not negative is at most half a turn. -/
theorem between_angleTo (hf : f.InRange) (a b : Quaternion Float32) :
    Between 0.0 halfTurn (@angleTo _ f.numeric a b) := by
  rw [between_iff isFinite_zero isFinite_halfTurn, toRat_zero, toRat_halfTurn]
  unfold angleTo
  simp only
  split
  · next hfin =>
    have hcos := between_clamp f isFinite_zero isFinite_one (by simp) hfin
    have hdouble := between_double (hf.acos _ hcos)
    rwa [between_iff isFinite_zero isFinite_halfTurn, toRat_zero, toRat_halfTurn] at hdouble
  · change (0.0 : Float32).isFinite = true ∧ 0 ≤ toRat 0.0 ∧ toRat 0.0 ≤ _
    rw [toRat_zero]
    exact ⟨isFinite_zero, le_rfl, by norm_num⟩

end Quaternion

namespace Euler

/-- The entries that angles are read from, for a unit quaternion. -/
theorem isFinite_toDcm (f : Elementary) (h : ∀ x ∈ q.toList, Bounded 1 x) :
    let m := @Quaternion.toDcm _ f.numeric q
    (m.row0.x.isFinite = true ∧ m.row1.x.isFinite = true) ∧
      m.row2.x.isFinite = true ∧ m.row2.y.isFinite = true ∧ m.row2.z.isFinite = true := by
  simp only [Quaternion.toList, List.forall_mem_cons] at h
  obtain ⟨hw, hx, hy, hz, -⟩ := h
  have hprod {a b : Float32} (ha : Bounded 1 a) (hb : Bounded 1 b) : Bounded 2 (a * b) :=
    bounded_mul ha hb (by decide)
  have htwice {a : Float32} (ha : Bounded 3 a) : Bounded 4 (2.0 * a) :=
    bounded_mul bounded_two ha (by decide)
  have hsum {a b c d : Float32} (ha : Bounded 1 a) (hb : Bounded 1 b) (hc : Bounded 1 c)
      (hd : Bounded 1 d) : Bounded 4 (2.0 * (a * b + c * d)) :=
    htwice (bounded_add (hprod ha hb) (hprod hc hd) (by decide))
  have hdiagonal {a b : Float32} (ha : Bounded 1 a) (hb : Bounded 1 b) :
      (1.0 - 2.0 * (a * a + b * b)).isFinite = true :=
    (bounded_sub (bounded_mono bounded_one (by decide)) (hsum ha ha hb hb) (by decide)).isFinite
  exact ⟨⟨hdiagonal hy hz, (hsum hx hy hw hz).isFinite⟩,
    (htwice (bounded_sub (hprod hx hz) (hprod hw hy) (by decide))).isFinite,
    (hsum hy hz hw hx).isFinite, hdiagonal hx hy⟩

theorem between_ofQuaternion (hf : f.InRange) (q : Quaternion Float32) :
    let e := @ofQuaternion _ f.numeric q
    Between (-halfTurn) halfTurn e.roll ∧ Between (-quarterTurn) quarterTurn e.pitch ∧
      Between (-halfTurn) halfTurn e.yaw := by
  obtain ⟨⟨h00, h10⟩, h20, h21, h22⟩ := isFinite_toDcm f (Quaternion.bounded_normalize f q)
  have hsine := between_clamp_one f ((isFinite_neg _).trans h20)
  exact ⟨hf.atan2 _ _ h21 h22, hf.asin _ hsine, hf.atan2 _ _ h10 h00⟩

theorem isFinite_inDegrees (hf : f.InRange) (q : Quaternion Float32) :
    @isFinite _ f.numeric (@inDegrees _ f.numeric (@ofQuaternion _ f.numeric q)) = true := by
  have hfactor : Bounded 6 57.29578 := by
    have hrange : 0 ≤ toRat 57.29578 ∧ toRat 57.29578 ≤ 64 := by decide +kernel
    refine ⟨by decide +kernel, ?_⟩
    rw [abs_of_nonneg hrange.1]
    exact hrange.2.trans (by norm_num)
  have hdegrees {a m : Float32} (hm : m.isFinite = true) (hk : toRat m ≤ 2 ^ (2 : ℤ))
      (ha : Between (-m) m a) : (a * 57.29578).isFinite = true :=
    (bounded_mul (bounded_of_between hm hk ha) hfactor (by decide)).isFinite
  have hhalf : toRat halfTurn ≤ 2 ^ (2 : ℤ) := by rw [toRat_halfTurn]; norm_num
  have hquarter : toRat quarterTurn ≤ 2 ^ (2 : ℤ) := by rw [toRat_quarterTurn]; norm_num
  obtain ⟨hroll, hpitch, hyaw⟩ := between_ofQuaternion hf q
  simp only [isFinite, Bool.and_eq_true]
  exact ⟨⟨hdegrees isFinite_halfTurn hhalf hroll, hdegrees isFinite_quarterTurn hquarter hpitch⟩,
    hdegrees isFinite_halfTurn hhalf hyaw⟩

end Euler
end Strapdown
