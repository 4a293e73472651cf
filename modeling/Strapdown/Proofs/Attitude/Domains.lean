import Strapdown.Proofs.Attitude.Finite

/-!
Elementary functions and divisions are only asked within their domains: what they would answer
outside of them makes no difference to any attitude, rotation vector or angle.
-/
namespace Strapdown
open Binary

variable {f g : Elementary} {div : Float32 → Float32 → Float32} {q : Quaternion Float32}
  {v : Vec3 Float32} {s : Float32}

/-- Binary numbers with the functions of a library and with a division of their own. -/
@[reducible]
def Elementary.numericWith (f : Elementary) (div : Float32 → Float32 → Float32) :
    Numeric Float32 :=
  { f.numeric with toDiv := ⟨div⟩ }

/-- A library and a division that answer as another library and as binary division do, within the
domains. No number is divided by zero, by an infinity or by what is no number. -/
structure Elementary.Agrees (f g : Elementary) (div : Float32 → Float32 → Float32) : Prop where
  sin : ∀ x : Float32, x.isFinite = true → g.sin x = f.sin x
  cos : ∀ x : Float32, x.isFinite = true → g.cos x = f.cos x
  asin : ∀ x, Between (-1.0) 1.0 x → g.asin x = f.asin x
  acos : ∀ x, Between 0.0 1.0 x → g.acos x = f.acos x
  atan2 : ∀ y x : Float32, y.isFinite = true → x.isFinite = true → g.atan2 y x = f.atan2 y x
  div : ∀ x s, toRat s ≠ 0 → div x s = x / s

theorem Vec3.divide_numericWith (h : f.Agrees g div) (v : Vec3 Float32) (hs : toRat s ≠ 0) :
    @Vec3.divide _ (g.numericWith div) v s = @Vec3.divide _ f.numeric v s := by
  apply Vec3.ext <;> exact h.div _ _ hs

theorem Quaternion.divide_numericWith (h : f.Agrees g div) (q : Quaternion Float32)
    (hs : toRat s ≠ 0) :
    @Quaternion.divide _ (g.numericWith div) q s = @Quaternion.divide _ f.numeric q s := by
  apply Quaternion.ext <;> exact h.div _ _ hs

/-- The largest of components that are not all small is not zero. -/
theorem Binary.toRat_peak_ne_zero {xs : List Float32} (hxs : ∀ x ∈ xs, x.isFinite = true)
    (h : ¬ ∀ x ∈ xs, Bounded 10 x) : toRat (peak xs) ≠ 0 := by
  obtain ⟨-, -, hle, -⟩ := foldl_larger isFinite_zero hxs
  change ∀ x ∈ xs, |toRat x| ≤ toRat (peak xs) at hle
  intro hz
  rw [hz] at hle
  exact h fun x hx => ⟨hxs x hx, (hle x hx).trans (by positivity)⟩

/-- A length is rescaled only by a largest component that is not zero. -/
theorem Binary.SquareNorm.length_eq {T : Type} {v : T} (N : SquareNorm T)
    (hsmall : (∀ x ∈ N.toList v, Bounded 10 x) → (N.norm v).isFinite = true)
    {divide : Float32 → T} (hdivide : ∀ s, toRat s ≠ 0 → divide s = N.divide v s) :
    (if (N.norm v).isFinite || !(N.toList v).all Float32.isFinite then N.norm v
      else N.norm (divide (peak (N.toList v))) * peak (N.toList v)) = N.length v := by
  unfold length
  split
  · rfl
  · next hplain =>
    simp only [Bool.or_eq_true, Bool.not_eq_true', not_or, Bool.not_eq_false] at hplain
    have hpeak := toRat_peak_ne_zero (List.all_eq_true.mp hplain.2) (mt hsmall hplain.1)
    rw [hdivide _ hpeak]

theorem Vec3.length_numericWith (h : f.Agrees g div) (v : Vec3 Float32) :
    @Vec3.length _ (g.numericWith div) v = @Vec3.length _ f.numeric v :=
  (SquareNorm.vec3 f).length_eq (Vec3.isFinite_norm f) fun _ hs => Vec3.divide_numericWith h v hs

namespace Quaternion

theorem length_numericWith (h : f.Agrees g div) (q : Quaternion Float32) :
    @length _ (g.numericWith div) q = @length _ f.numeric q :=
  (SquareNorm.quaternion f).length_eq (isFinite_norm f) fun _ hs => divide_numericWith h q hs

theorem normalize_numericWith (h : f.Agrees g div) (q : Quaternion Float32) :
    @normalize _ (g.numericWith div) q = @normalize _ f.numeric q := by
  have hlength := length_numericWith h q
  unfold normalize
  rw [hlength]
  generalize @length _ f.numeric q = L
  by_cases hd : @degenerate _ f.numeric L = true
  · exact (if_pos hd).trans (if_pos hd).symm
  · have hlow := (not_degenerate (Bool.eq_false_iff.mpr hd)).2
    have hL : toRat L ≠ 0 := (lt_of_lt_of_le (by positivity) hlow).ne'
    exact (if_neg hd).trans ((divide_numericWith h q hL).trans (if_neg hd).symm)

theorem exp_numericWith (h : f.Agrees g div) (v : Vec3 Float32) :
    @exp _ (g.numericWith div) v = @exp _ f.numeric v := by
  have hlength := Vec3.length_numericWith h v
  unfold exp
  simp only
  rw [hlength]
  generalize @Vec3.length _ f.numeric v = L
  by_cases hd : @degenerate _ f.numeric L = true
  · exact (if_pos hd).trans ((normalize_numericWith h _).trans (if_pos hd).symm)
  · obtain ⟨hfin, hlow⟩ := not_degenerate (Bool.eq_false_iff.mpr hd)
    have hL : toRat L ≠ 0 := (lt_of_lt_of_le (by positivity) hlow).ne'
    have hhalf := isFinite_half_mul hfin
    refine (if_neg hd).trans (Eq.trans ?_ (if_neg hd).symm)
    change ofParts (g.cos (L * 0.5)) (v.map (· * div (g.sin (L * 0.5)) L)) =
      ofParts (f.cos (L * 0.5)) (v.map (· * (f.sin (L * 0.5) / L)))
    rw [h.cos _ hhalf, h.sin _ hhalf, h.div _ _ hL]

theorem log_numericWith (h : f.Agrees g div) (q : Quaternion Float32) :
    @log _ (g.numericWith div) q = @log _ f.numeric q := by
  have hnormalize := normalize_numericWith h q
  have hshort (u : Quaternion Float32) :
      @shortWay _ (g.numericWith div) u = @shortWay _ f.numeric u := rfl
  have hunit := bounded_shortWay f (bounded_normalize f q)
  unfold log
  simp only
  rw [hnormalize, hshort]
  generalize @shortWay _ f.numeric (@normalize _ f.numeric q) = u at hunit ⊢
  have hsine := isFinite_sine f hunit
  have hw : Bounded 1 u.w := hunit _ List.mem_cons_self
  by_cases hlt : @Numeric.lt _ f.numeric (@Vec3.norm _ f.numeric u.vec) 1e-10 = true
  · exact (if_pos hlt).trans (if_pos hlt).symm
  · have hlow := le_of_not_negligible hsine hlt
    have hne : toRat (@Vec3.norm _ f.numeric u.vec) ≠ 0 :=
      (lt_of_lt_of_le (by positivity) hlow).ne'
    refine (if_neg hlt).trans (Eq.trans ?_ (if_neg hlt).symm)
    have hangle := h.atan2 _ _ hsine hw.isFinite
    have hquotient := h.div (2.0 * f.atan2 (@Vec3.norm _ f.numeric u.vec) u.w) _ hne
    change u.vec.map (· * div (2.0 * g.atan2 (@Vec3.norm _ f.numeric u.vec) u.w)
      (@Vec3.norm _ f.numeric u.vec)) = _
    rw [hangle, hquotient]
    rfl

theorem angleTo_numericWith (h : f.Agrees g div) (a b : Quaternion Float32) :
    @angleTo _ (g.numericWith div) a b = @angleTo _ f.numeric a b := by
  unfold angleTo
  simp only
  by_cases hfin : (@dot _ f.numeric a b).abs.isFinite = true
  · refine (if_pos hfin).trans (Eq.trans ?_ (if_pos hfin).symm)
    have hcos := between_clamp f isFinite_zero isFinite_one (by simp) hfin
    exact congrArg (2.0 * ·) (h.acos _ hcos)
  · exact (if_neg hfin).trans (if_neg hfin).symm

end Quaternion

theorem Euler.ofQuaternion_numericWith (h : f.Agrees g div) (q : Quaternion Float32) :
    @Euler.ofQuaternion _ (g.numericWith div) q = @Euler.ofQuaternion _ f.numeric q := by
  obtain ⟨⟨h00, h10⟩, h20, h21, h22⟩ := Euler.isFinite_toDcm f (Quaternion.bounded_normalize f q)
  have hsine := between_clamp_one f ((isFinite_neg _).trans h20)
  have hnormalize := Quaternion.normalize_numericWith h q
  have htoDcm (u : Quaternion Float32) :
      @Quaternion.toDcm _ (g.numericWith div) u = @Quaternion.toDcm _ f.numeric u := rfl
  have hofDcm (m : Dcm Float32) : @Euler.ofDcm _ (g.numericWith div) m =
      ⟨g.atan2 m.row2.y m.row2.z,
        g.asin (@Numeric.clamp _ f.numeric (-1.0) 1.0 (-m.row2.x)),
        g.atan2 m.row1.x m.row0.x⟩ := rfl
  unfold Euler.ofQuaternion
  rw [hnormalize, htoDcm, hofDcm, h.atan2 _ _ h21 h22, h.atan2 _ _ h10 h00, h.asin _ hsine]
  rfl

namespace Elementary

/-- Whatever goes in, numbers come out, and nothing is asked outside of its domain. -/
theorem numbers_of_any_input (hf : f.InRange) :
    (∀ v, @Quaternion.isFinite _ f.numeric (@Quaternion.exp _ f.numeric v) = true) ∧
    (∀ q, @Vec3.isFinite _ f.numeric (@Quaternion.log _ f.numeric q) = true) ∧
    (∀ a b, @Vec3.isFinite _ f.numeric (@Quaternion.smallErrorTo _ f.numeric a b) = true ∧
      @Vec3.isFinite _ f.numeric (@Quaternion.errorTo _ f.numeric a b) = true ∧
      Between 0.0 halfTurn (@Quaternion.angleTo _ f.numeric a b)) ∧
    (∀ q, Between (-halfTurn) halfTurn (@Euler.ofQuaternion _ f.numeric q).roll ∧
      Between (-quarterTurn) quarterTurn (@Euler.ofQuaternion _ f.numeric q).pitch ∧
      Between (-halfTurn) halfTurn (@Euler.ofQuaternion _ f.numeric q).yaw ∧
      @Euler.isFinite _ f.numeric
        (@Euler.inDegrees _ f.numeric (@Euler.ofQuaternion _ f.numeric q)) = true) ∧
    ∀ g div, f.Agrees g div →
      (∀ v, @Quaternion.exp _ (g.numericWith div) v = @Quaternion.exp _ f.numeric v) ∧
      (∀ q, @Quaternion.log _ (g.numericWith div) q = @Quaternion.log _ f.numeric q) ∧
      (∀ a b, @Quaternion.smallErrorTo _ (g.numericWith div) a b =
          @Quaternion.smallErrorTo _ f.numeric a b ∧
        @Quaternion.errorTo _ (g.numericWith div) a b = @Quaternion.errorTo _ f.numeric a b ∧
        @Quaternion.angleTo _ (g.numericWith div) a b = @Quaternion.angleTo _ f.numeric a b) ∧
      ∀ q, @Euler.ofQuaternion _ (g.numericWith div) q = @Euler.ofQuaternion _ f.numeric q := by
  refine ⟨Quaternion.isFinite_exp hf, Quaternion.isFinite_log hf, ?_, ?_, ?_⟩
  · intro a b
    exact ⟨Quaternion.isFinite_smallErrorTo f a b, Quaternion.isFinite_errorTo hf a b,
      Quaternion.between_angleTo hf a b⟩
  · intro q
    obtain ⟨hroll, hpitch, hyaw⟩ := Euler.between_ofQuaternion hf q
    exact ⟨hroll, hpitch, hyaw, Euler.isFinite_inDegrees hf q⟩
  · intro g div h
    refine ⟨Quaternion.exp_numericWith h, Quaternion.log_numericWith h, ?_,
      Euler.ofQuaternion_numericWith h⟩
    intro a b
    exact ⟨rfl, Quaternion.log_numericWith h _, Quaternion.angleTo_numericWith h a b⟩

/-- The functions at quarter turns, and at one radian. -/
def quarterTurns : Elementary where
  sin x := if x = 1.0 then 0.84147098 else 0.0
  cos x := if x = 1.0 then 0.5403023 else 1.0
  asin x := if x = 1.0 then quarterTurn else if x = -1.0 then -quarterTurn else x
  acos x := if x = 1.0 then 0.0 else quarterTurn
  atan2 y _ := if y = 0.0 then 0.0 else quarterTurn

/-- The same functions, but with an answer out of range for what is not in their domains. -/
def quarterTurnsOnly : Elementary where
  sin x := if x.isFinite then quarterTurns.sin x else 7.0
  cos x := if x.isFinite then quarterTurns.cos x else 7.0
  asin x := if Between (-1.0) 1.0 x then quarterTurns.asin x else 7.0
  acos x := if Between 0.0 1.0 x then quarterTurns.acos x else 7.0
  atan2 y x := if y.isFinite ∧ x.isFinite then quarterTurns.atan2 y x else 7.0

theorem inRange_quarterTurns : quarterTurns.InRange where
  sin x _ := by
    simp only [quarterTurns]
    split <;> decide +kernel
  cos x _ := by
    simp only [quarterTurns]
    split <;> decide +kernel
  asin x hx := by
    simp only [quarterTurns]
    split_ifs
    · decide +kernel
    · decide +kernel
    · obtain ⟨hfin, hle⟩ := (between_neg_iff isFinite_one).mp hx
      rw [toRat_one] at hle
      refine (between_neg_iff isFinite_quarterTurn).mpr ⟨hfin, hle.trans ?_⟩
      rw [toRat_quarterTurn]
      norm_num
  acos x _ := by
    simp only [quarterTurns]
    split <;> decide +kernel
  atan2 y x _ _ := by
    simp only [quarterTurns]
    split <;> decide +kernel

theorem agrees_quarterTurnsOnly :
    quarterTurns.Agrees quarterTurnsOnly fun x s => if s = 0.0 then 7.0 else x / s where
  sin _ h := if_pos h
  cos _ h := if_pos h
  asin _ h := if_pos h
  acos _ h := if_pos h
  atan2 _ _ hy hx := if_pos ⟨hy, hx⟩
  div _ s hs := by
    refine if_neg ?_
    rintro rfl
    exact hs toRat_zero

theorem numbers_of_quarterTurns :
    quarterTurns.InRange ∧
    @Quaternion.isFinite _ quarterTurns.numeric
      (@Quaternion.exp _ quarterTurns.numeric ⟨0.0 / 0.0, 1.0 / 0.0, 3e38⟩) = true ∧
    @Quaternion.log _ quarterTurns.numeric ⟨0.0, 3e38, 0.0, 0.0⟩ = ⟨halfTurn, 0.0, 0.0⟩ ∧
    @Vec3.isFinite _ quarterTurns.numeric
      (@Quaternion.log _ quarterTurns.numeric ⟨0.0, 3e38, 0.0, 0.0⟩) = true ∧
    @Quaternion.angleTo _ quarterTurns.numeric ⟨1.0, 0.0, 0.0, 0.0⟩ ⟨0.0, 1.0, 0.0, 0.0⟩ =
      halfTurn ∧
    Between 0.0 halfTurn (@Quaternion.angleTo _ quarterTurns.numeric
      ⟨1.0, 0.0, 0.0, 0.0⟩ ⟨0.0, 1.0, 0.0, 0.0⟩) ∧
    Between (-quarterTurn) quarterTurn
      (@Euler.ofQuaternion _ quarterTurns.numeric ⟨3e38, 0.0, 3e38, 0.0⟩).pitch ∧
    @Quaternion.log _ (quarterTurnsOnly.numericWith fun x s => if s = 0.0 then 7.0 else x / s)
      ⟨0.0, 3e38, 0.0, 0.0⟩ = @Quaternion.log _ quarterTurns.numeric ⟨0.0, 3e38, 0.0, 0.0⟩ := by
  obtain ⟨hexp, hlog, herror, heuler, hdomains⟩ := numbers_of_any_input inRange_quarterTurns
  exact ⟨inRange_quarterTurns, hexp _, by decide +kernel, hlog _, by decide +kernel,
    (herror _ _).2.2, (heuler _).2.1, (hdomains _ _ agrees_quarterTurnsOnly).2.1 _⟩

end Elementary
end Strapdown
