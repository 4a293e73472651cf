import Mathlib
import Strapdown.Proofs.Exact.Geodesic

/-!
Rotating vectors, in exact arithmetic. The matrix of a unit quaternion and its products turn vectors
alike, without bending or mirroring them, and turning by a product is turning twice. All of it is
algebra and holds for the numbers of any commutative ring; lengths are those of real vectors.
-/
namespace Strapdown
open Matrix

/-- Numbers that are added and multiplied as in a commutative ring. -/
class Numeric.ExactRing (R : Type) extends CommRing R, Numeric R where
  two_eq : two = (2 : ℕ)

/-- The exact numbers as a ring. -/
@[reducible]
noncomputable def Numeric.exactRing : Numeric.ExactRing ℝ where
  __ := Real.commRing
  __ := Numeric.exact
  two_eq := rfl

/-- The components of a vector. -/
def Vec3.column {S : Type} (v : Vec3 S) : Fin 3 → S := ![v.x, v.y, v.z]

/-- The entries of a direction cosine matrix. -/
def Dcm.matrix {S : Type} (m : Dcm S) : Matrix (Fin 3) (Fin 3) S :=
  .of ![m.row0.column, m.row1.column, m.row2.column]

theorem Vec3.exists_column {S : Type} (w : Fin 3 → S) : ∃ v : Vec3 S, v.column = w := by
  refine ⟨⟨w 0, w 1, w 2⟩, ?_⟩
  ext i
  fin_cases i <;> rfl

variable {R : Type} [Numeric.ExactRing R] {a b q : Quaternion R} {u v : Vec3 R}

namespace Numeric

theorem zero_eq : (Numeric.zero : R) = 0 := rfl

theorem one_eq : (Numeric.one : R) = 1 := rfl

theorem two_eq : (Numeric.two : R) = 2 :=
  (ExactRing.two_eq (R := R)).trans Nat.cast_two

end Numeric

namespace Quaternion

theorem w_mul (a b : Quaternion R) :
    (a * b).w = a.w * b.w - a.x * b.x - a.y * b.y - a.z * b.z := rfl

theorem x_mul (a b : Quaternion R) :
    (a * b).x = a.w * b.x + a.x * b.w + a.y * b.z - a.z * b.y := rfl

theorem y_mul (a b : Quaternion R) :
    (a * b).y = a.w * b.y - a.x * b.z + a.y * b.w + a.z * b.x := rfl

theorem z_mul (a b : Quaternion R) :
    (a * b).z = a.w * b.z + a.x * b.y - a.y * b.x + a.z * b.w := rfl

protected theorem mul_assoc (a b c : Quaternion R) : a * b * c = a * (b * c) := by
  ext <;> simp only [w_mul, x_mul, y_mul, z_mul] <;> ring

theorem conjugate_conjugate (q : Quaternion R) : q.conjugate.conjugate = q := by
  ext <;> simp only [conjugate, neg_neg]

theorem conjugate_mul (a b : Quaternion R) :
    (a * b).conjugate = b.conjugate * a.conjugate := by
  ext <;> simp only [conjugate, w_mul, x_mul, y_mul, z_mul] <;> ring

theorem mul_conjugate (h : q.dot q = 1) : q * q.conjugate = identity := by
  rw [dot] at h
  ext <;> simp only [conjugate, identity, w_mul, x_mul, y_mul, z_mul, Numeric.zero_eq,
    Numeric.one_eq]
  · linear_combination h
  · ring
  · ring
  · ring

theorem identity_mul (q : Quaternion R) : identity * q = q := by
  ext <;> simp only [identity, w_mul, x_mul, y_mul, z_mul, Numeric.zero_eq, Numeric.one_eq] <;> ring

theorem mul_conjugate_mul (h : q.dot q = 1) (p : Quaternion R) : q * (q.conjugate * p) = p := by
  rw [← Quaternion.mul_assoc, mul_conjugate h, identity_mul]

theorem dot_conjugate (h : q.dot q = 1) : q.conjugate.dot q.conjugate = 1 := by
  rw [← h]
  simp only [dot, conjugate]
  ring

/-- Turning leaves no scalar part behind. -/
theorem ofParts_rotate (q : Quaternion R) (v : Vec3 R) :
    ofParts Numeric.zero (q.rotate v) = q * ofParts Numeric.zero v * q.conjugate := by
  ext
  · simp only [conjugate, ofParts, w_mul, x_mul, y_mul, z_mul, Numeric.zero_eq]
    ring
  · rfl
  · rfl
  · rfl

theorem rotate_mul (a b : Quaternion R) (v : Vec3 R) :
    (a * b).rotate v = a.rotate (b.rotate v) := by
  have hsandwich : a * b * ofParts Numeric.zero v * (a * b).conjugate =
      a * ofParts Numeric.zero (b.rotate v) * a.conjugate := by
    rw [ofParts_rotate, conjugate_mul]
    simp only [Quaternion.mul_assoc]
  exact congrArg vec hsandwich

theorem rotate_identity (v : Vec3 R) : (identity : Quaternion R).rotate v = v := by
  ext <;> simp only [rotate, vec, identity, conjugate, ofParts, w_mul, x_mul, y_mul, z_mul,
    Numeric.zero_eq, Numeric.one_eq] <;> ring

theorem rotateBack_eq (q : Quaternion R) (v : Vec3 R) : q.rotateBack v = q.conjugate.rotate v := by
  rw [rotate, conjugate_conjugate]
  rfl

theorem rotateBack_mul (a b : Quaternion R) (v : Vec3 R) :
    (a * b).rotateBack v = b.rotateBack (a.rotateBack v) := by
  rw [rotateBack_eq, rotateBack_eq, rotateBack_eq, conjugate_mul, rotate_mul]

theorem rotate_rotateBack (h : q.dot q = 1) (v : Vec3 R) : q.rotate (q.rotateBack v) = v := by
  rw [rotateBack_eq, ← rotate_mul, mul_conjugate h, rotate_identity]

theorem rotateBack_rotate (h : q.dot q = 1) (v : Vec3 R) : q.rotateBack (q.rotate v) = v := by
  have hback := rotate_rotateBack (dot_conjugate h) v
  rwa [rotateBack_eq, conjugate_conjugate, ← rotateBack_eq] at hback

/-- What a matrix makes of a vector, row by row. -/
theorem matrix_mulVec (m : Dcm R) (v : Vec3 R) : m.matrix *ᵥ v.column =
    Vec3.column ⟨m.row0.x * v.x + m.row0.y * v.y + m.row0.z * v.z,
      m.row1.x * v.x + m.row1.y * v.y + m.row1.z * v.z,
      m.row2.x * v.x + m.row2.y * v.y + m.row2.z * v.z⟩ := by
  ext i
  fin_cases i <;> simp [Dcm.matrix, Vec3.column, mulVec, dotProduct, Fin.sum_univ_three]

theorem rotate_eq (h : q.dot q = 1) (v : Vec3 R) : q.rotate v =
    ⟨q.toDcm.row0.x * v.x + q.toDcm.row0.y * v.y + q.toDcm.row0.z * v.z,
      q.toDcm.row1.x * v.x + q.toDcm.row1.y * v.y + q.toDcm.row1.z * v.z,
      q.toDcm.row2.x * v.x + q.toDcm.row2.y * v.y + q.toDcm.row2.z * v.z⟩ := by
  rw [dot] at h
  ext <;> simp only [toDcm, rotate, vec, conjugate, ofParts, w_mul, x_mul, y_mul, z_mul,
    Numeric.zero_eq, Numeric.one_eq, Numeric.two_eq]
  · linear_combination v.x * h
  · linear_combination v.y * h
  · linear_combination v.z * h

theorem toDcm_mulVec (h : q.dot q = 1) (v : Vec3 R) :
    q.toDcm.matrix *ᵥ v.column = (q.rotate v).column := by
  rw [matrix_mulVec, rotate_eq h]

theorem dot_mul_self (a b : Quaternion R) : (a * b).dot (a * b) = a.dot a * b.dot b := by
  simp only [dot, w_mul, x_mul, y_mul, z_mul]
  ring

theorem toDcm_mul (ha : a.dot a = 1) (hb : b.dot b = 1) :
    (a * b).toDcm.matrix = a.toDcm.matrix * b.toDcm.matrix := by
  have hab : (a * b).dot (a * b) = 1 := by rw [dot_mul_self, ha, hb, one_mul]
  -- A matrix is what it makes of vectors, which is turning them.
  refine Matrix.mulVec_injective (funext fun w => ?_)
  obtain ⟨v, rfl⟩ := Vec3.exists_column w
  rw [← mulVec_mulVec, toDcm_mulVec hb, toDcm_mulVec ha, toDcm_mulVec hab, rotate_mul]

theorem toDcm_conjugate (q : Quaternion R) : q.conjugate.toDcm.matrix = q.toDcm.matrixᵀ := by
  ext i j
  fin_cases i <;> fin_cases j <;> simp [Dcm.matrix, Vec3.column, toDcm, conjugate] <;> ring

theorem toDcm_identity : (identity : Quaternion R).toDcm.matrix = 1 := by
  ext i j
  fin_cases i <;> fin_cases j <;>
    simp [Dcm.matrix, Vec3.column, toDcm, identity, Numeric.zero_eq, Numeric.one_eq]

theorem toDcm_mul_transpose (h : q.dot q = 1) : q.toDcm.matrix * q.toDcm.matrixᵀ = 1 := by
  rw [← toDcm_conjugate, ← toDcm_mul h (dot_conjugate h), mul_conjugate h, toDcm_identity]

theorem det_toDcm (h : q.dot q = 1) : q.toDcm.matrix.det = 1 := by
  rw [dot] at h
  rw [det_fin_three]
  simp only [Dcm.matrix, Vec3.column, toDcm, of_apply, cons_val, Numeric.one_eq, Numeric.two_eq]
  linear_combination 4 * (q.x * q.x + q.y * q.y + q.z * q.z) * h

theorem transpose_mul_toDcm (h : q.dot q = 1) : q.toDcm.matrixᵀ * q.toDcm.matrix = 1 :=
  mul_eq_one_comm.mp (toDcm_mul_transpose h)

theorem dot_rotate (h : q.dot q = 1) (u v : Vec3 R) :
    (q.rotate u).column ⬝ᵥ (q.rotate v).column = u.column ⬝ᵥ v.column := by
  rw [← toDcm_mulVec h, ← toDcm_mulVec h, dotProduct_mulVec, ← mulVec_transpose, mulVec_mulVec,
    transpose_mul_toDcm h, one_mulVec]

/-- Turning vectors rigidly, in the same way by products and by the matrix. -/
structure Rotates {R : Type} [CommRing R] [Numeric R] (q : Quaternion R) : Prop where
  toDcm_mulVec : ∀ v : Vec3 R, q.toDcm.matrix *ᵥ v.column = (q.rotate v).column
  toDcm_mul_transpose : q.toDcm.matrix * q.toDcm.matrixᵀ = 1
  transpose_mul_toDcm : q.toDcm.matrixᵀ * q.toDcm.matrix = 1
  det_toDcm : q.toDcm.matrix.det = 1
  dot_rotate : ∀ u v : Vec3 R,
    (q.rotate u).column ⬝ᵥ (q.rotate v).column = u.column ⬝ᵥ v.column
  rotateBack_rotate : ∀ v : Vec3 R, q.rotateBack (q.rotate v) = v
  rotate_rotateBack : ∀ v : Vec3 R, q.rotate (q.rotateBack v) = v
  rotate_conjugate : ∀ v : Vec3 R, q.conjugate.rotate v = q.rotateBack v
  transpose_mulVec : ∀ v : Vec3 R, q.toDcm.matrixᵀ *ᵥ v.column = (q.rotateBack v).column

theorem rotates (h : q.dot q = 1) : q.Rotates where
  toDcm_mulVec := toDcm_mulVec h
  toDcm_mul_transpose := toDcm_mul_transpose h
  transpose_mul_toDcm := transpose_mul_toDcm h
  det_toDcm := det_toDcm h
  dot_rotate := dot_rotate h
  rotateBack_rotate := rotateBack_rotate h
  rotate_rotateBack := rotate_rotateBack h
  rotate_conjugate v := (rotateBack_eq q v).symm
  transpose_mulVec v := by
    rw [← toDcm_conjugate, toDcm_mulVec (dot_conjugate h), rotateBack_eq]

section
attribute [local instance] Numeric.exactRing Numeric.exact
attribute [-instance] Numeric.toDiv

theorem norm_rotate {q : Quaternion ℝ} (h : q.norm = 1) (v : Vec3 ℝ) :
    (q.rotate v).norm = v.norm := by
  have hdot := dot_rotate (dot_self h) v v
  have hnorm (v : Vec3 ℝ) : v.norm = √(v.column ⬝ᵥ v.column) := by
    rw [dotProduct, Fin.sum_univ_three]
    rfl
  rw [hnorm, hnorm, hdot]

/-- Unit quaternions turn vectors rigidly and without mirroring them, by products as by their
matrix, and a product turns as its factors do one after the other. Nothing but the laws of a
commutative ring is needed for that, save for lengths. -/
theorem rotations_agree_and_compose :
    (∀ q : Quaternion ℝ, q.norm = 1 → q.Rotates ∧ ∀ v, (q.rotate v).norm = v.norm) ∧
    (∀ (a b : Quaternion ℝ) (v : Vec3 ℝ), a.norm = 1 → b.norm = 1 →
      (a * b).rotate v = a.rotate (b.rotate v) ∧
      (a * b).toDcm.matrix = a.toDcm.matrix * b.toDcm.matrix) ∧
    (∀ (R : Type) [Numeric.ExactRing R] (q : Quaternion R), q.dot q = 1 → q.Rotates) ∧
    ∀ (R : Type) [Numeric.ExactRing R] (a b : Quaternion R) (v : Vec3 R),
      a.dot a = 1 → b.dot b = 1 →
      (a * b).rotate v = a.rotate (b.rotate v) ∧
      (a * b).toDcm.matrix = a.toDcm.matrix * b.toDcm.matrix := by
  refine ⟨fun q h => ⟨rotates (dot_self h), norm_rotate h⟩, ?_, fun R _ q => rotates, ?_⟩
  · intro a b v ha hb
    exact ⟨rotate_mul a b v, toDcm_mul (dot_self ha) (dot_self hb)⟩
  · intro R _ a b v ha hb
    exact ⟨rotate_mul a b v, toDcm_mul ha hb⟩

/-- A third of a turn about the diagonal. -/
noncomputable def thirdTurn : Quaternion ℝ :=
  ⟨1 / (2 : ℕ), 1 / (2 : ℕ), 1 / (2 : ℕ), 1 / (2 : ℕ)⟩

theorem thirdTurn_agrees_and_composes :
    thirdTurn.norm = 1 ∧ thirdTurn.rotate ⟨1, 2, 3⟩ = ⟨3, 1, 2⟩ ∧
      (thirdTurn.Rotates ∧ ∀ v, (thirdTurn.rotate v).norm = v.norm) ∧
      (thirdTurn * thirdTurn).rotate ⟨1, 2, 3⟩ = thirdTurn.rotate ⟨3, 1, 2⟩ ∧
      (thirdTurn * thirdTurn).toDcm.matrix = thirdTurn.toDcm.matrix * thirdTurn.toDcm.matrix := by
  have hdot : thirdTurn.dot thirdTurn = 1 := by norm_num [dot, thirdTurn]
  have hnorm : thirdTurn.norm = 1 := norm_eq_one hdot
  have hturn : thirdTurn.rotate ⟨1, 2, 3⟩ = ⟨3, 1, 2⟩ := by
    rw [rotate_eq hdot]
    ext <;> norm_num [thirdTurn, toDcm, Numeric.one_eq, Numeric.two_eq]
  obtain ⟨hreal, hcompose, hring, hringCompose⟩ := rotations_agree_and_compose
  obtain ⟨hrotate, -⟩ := hcompose thirdTurn thirdTurn ⟨1, 2, 3⟩ hnorm hnorm
  obtain ⟨-, hmatrix⟩ := hringCompose ℝ thirdTurn thirdTurn ⟨1, 2, 3⟩ hdot hdot
  rw [hturn] at hrotate
  exact ⟨hnorm, hturn, ⟨hring ℝ thirdTurn hdot, (hreal thirdTurn hnorm).2⟩, hrotate, hmatrix⟩

end

end Quaternion
end Strapdown
