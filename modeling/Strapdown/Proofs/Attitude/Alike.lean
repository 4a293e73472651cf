import Strapdown.Proofs.Attitude.UnitNorm
import Strapdown.Proofs.Binary.ZeroSigns

/-!
Attitudes that are the same but for the sign of zeros stay so when they are turned. Nothing is ever
divided by a zero there, which is all that could tell zeros apart.
-/
namespace Strapdown
open Binary

variable {u v : Vec3 Float32} {p q p' q' : Quaternion Float32} {s dt : Float32}

/-- Alike in each component. -/
structure Vec3.Alike (u v : Vec3 Float32) : Prop where
  x : Binary.Alike u.x v.x
  y : Binary.Alike u.y v.y
  z : Binary.Alike u.z v.z

/-- Alike in each component. -/
structure Quaternion.Alike (p q : Quaternion Float32) : Prop where
  w : Binary.Alike p.w q.w
  x : Binary.Alike p.x q.x
  y : Binary.Alike p.y q.y
  z : Binary.Alike p.z q.z

theorem degenerate_congr {a b : Float32} (h : Binary.Alike a b) :
    Quaternion.degenerate a = Quaternion.degenerate b := by
  have hlt : decide (a < 1e-10) = decide (b < 1e-10) :=
    decide_eq_decide.mpr (lt_congr h (.refl _))
  change (!a.isFinite || decide (a < 1e-10)) = (!b.isFinite || decide (b < 1e-10))
  rw [isFinite_congr h, hlt]

/-- Lengths that count are the same. -/
theorem eq_of_not_degenerate {a b : Float32} (h : Binary.Alike a b)
    (hd : Quaternion.degenerate a = false) : a = b :=
  eq_of_alike h (lt_of_lt_of_le (by positivity) (not_degenerate (f := .native) hd).2).ne'

theorem Binary.peak_congr {xs ys : List Float32} (h : List.Forall₂ Binary.Alike xs ys) :
    peak xs = peak ys := by
  have hmap : xs.map Float32.abs = ys.map Float32.abs := by
    induction h with
    | nil => rfl
    | cons h _ ih => rw [List.map_cons, List.map_cons, abs_congr h, ih]
  rw [peak, hmap, peak]

theorem Binary.all_isFinite_congr {xs ys : List Float32} (h : List.Forall₂ Binary.Alike xs ys) :
    xs.all Float32.isFinite = ys.all Float32.isFinite := by
  induction h with
  | nil => rfl
  | cons h _ ih => rw [List.all_cons, List.all_cons, isFinite_congr h, ih]

theorem Binary.SquareNorm.alike_length {T : Type} {u v : T} (N : SquareNorm T)
    (hlist : List.Forall₂ Binary.Alike (N.toList u) (N.toList v))
    (hnorm : Binary.Alike (N.norm u) (N.norm v))
    (hdivide : ∀ s, Binary.Alike (N.norm (N.divide u s)) (N.norm (N.divide v s))) :
    Binary.Alike (N.length u) (N.length v) := by
  unfold length
  rw [isFinite_congr hnorm, all_isFinite_congr hlist, peak_congr hlist]
  split
  · exact hnorm
  · exact alike_mul (hdivide _) (.refl _)

namespace Vec3

theorem Alike.refl (v : Vec3 Float32) : v.Alike v := ⟨.refl _, .refl _, .refl _⟩

theorem alike_map {g : Float32 → Float32} (hg : ∀ a b, Binary.Alike a b → Binary.Alike (g a) (g b))
    (h : u.Alike v) : (u.map g).Alike (v.map g) :=
  ⟨hg _ _ h.x, hg _ _ h.y, hg _ _ h.z⟩

theorem alike_scale (h : u.Alike v) (s : Float32) : (u.scale s).Alike (v.scale s) :=
  alike_map (fun _ _ h => alike_mul h (.refl s)) h

theorem alike_divide (h : u.Alike v) (s : Float32) : (u.divide s).Alike (v.divide s) :=
  alike_map (fun _ _ h => alike_div h s) h

theorem alike_norm (h : u.Alike v) : Binary.Alike u.norm v.norm :=
  alike_sqrt (alike_add (alike_add (alike_mul h.x h.x) (alike_mul h.y h.y)) (alike_mul h.z h.z))

theorem Alike.toList (h : u.Alike v) : List.Forall₂ Binary.Alike u.toList v.toList :=
  .cons h.x (.cons h.y (.cons h.z .nil))

theorem alike_length (h : u.Alike v) : Binary.Alike u.length v.length :=
  (SquareNorm.vec3 .native).alike_length h.toList (alike_norm h) fun s =>
    alike_norm (alike_divide h s)

end Vec3

namespace Quaternion

theorem Alike.refl (q : Quaternion Float32) : q.Alike q := ⟨.refl _, .refl _, .refl _, .refl _⟩

theorem Alike.toList (h : p.Alike q) : List.Forall₂ Binary.Alike p.toList q.toList :=
  .cons h.w (.cons h.x (.cons h.y (.cons h.z .nil)))

theorem alike_ofParts {a b : Float32} (h : Binary.Alike a b) (hv : u.Alike v) :
    (ofParts a u).Alike (ofParts b v) :=
  ⟨h, hv.x, hv.y, hv.z⟩

theorem alike_divide (h : p.Alike q) (s : Float32) : (p.divide s).Alike (q.divide s) :=
  ⟨alike_div h.w s, alike_div h.x s, alike_div h.y s, alike_div h.z s⟩

theorem alike_norm (h : p.Alike q) : Binary.Alike p.norm q.norm :=
  alike_sqrt (alike_add (alike_add (alike_mul h.x h.x) (alike_mul h.z h.z))
    (alike_add (alike_mul h.y h.y) (alike_mul h.w h.w)))

theorem alike_length (h : p.Alike q) : Binary.Alike p.length q.length :=
  (SquareNorm.quaternion .native).alike_length h.toList (alike_norm h) fun s =>
    alike_norm (alike_divide h s)

theorem alike_mul (hp : p.Alike p') (hq : q.Alike q') : (p * q).Alike (p' * q') where
  w := alike_sub (alike_sub (alike_sub (Binary.alike_mul hp.w hq.w) (Binary.alike_mul hp.x hq.x))
    (Binary.alike_mul hp.y hq.y)) (Binary.alike_mul hp.z hq.z)
  x := alike_sub (alike_add (alike_add (Binary.alike_mul hp.w hq.x) (Binary.alike_mul hp.x hq.w))
    (Binary.alike_mul hp.y hq.z)) (Binary.alike_mul hp.z hq.y)
  y := alike_add (alike_add (alike_sub (Binary.alike_mul hp.w hq.y) (Binary.alike_mul hp.x hq.z))
    (Binary.alike_mul hp.y hq.w)) (Binary.alike_mul hp.z hq.x)
  z := alike_add (alike_sub (alike_add (Binary.alike_mul hp.w hq.z) (Binary.alike_mul hp.x hq.y))
    (Binary.alike_mul hp.y hq.x)) (Binary.alike_mul hp.z hq.w)

theorem alike_normalize (h : p.Alike q) : p.normalize.Alike q.normalize := by
  have hlength := alike_length h
  unfold normalize
  rw [← degenerate_congr hlength]
  split
  · exact .refl _
  · next hd =>
    rw [eq_of_not_degenerate hlength (Bool.eq_false_iff.mpr hd)]
    exact alike_divide h _

theorem alike_exp (h : u.Alike v) : (exp u).Alike (exp v) := by
  have hlength := Vec3.alike_length h
  unfold exp
  simp only
  rw [← degenerate_congr hlength]
  split
  · exact alike_normalize (alike_ofParts (.refl _) (Vec3.alike_scale h _))
  · next hd =>
    rw [eq_of_not_degenerate hlength (Bool.eq_false_iff.mpr hd)]
    exact alike_ofParts (.refl _) (Vec3.alike_scale h _)

theorem alike_integrate (hq : p.Alike q) (hrate : u.Alike v) (dt : Float32) :
    (p.integrate u dt).Alike (q.integrate v dt) :=
  alike_normalize (alike_mul hq (alike_exp (Vec3.alike_scale hrate dt)))

end Quaternion
end Strapdown
