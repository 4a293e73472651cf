import Strapdown.Proofs.Attitude.Antipodal
import Strapdown.Proofs.Exact.Flight
import Strapdown.Proofs.Simulation.IdealGyro

/-!
It does not matter which of a quaternion and its negative a flight starts from. What telemetry shows
is the same, but that a roll or a yaw of half a turn is shown from one end or the other.
-/
namespace Strapdown
open Binary

variable {f : Elementary} {p q : Quaternion Float32} {dt : Float32} {rates : List (Vec3 Float32)}

/-- The angles of an attitude as telemetry shows them, in degrees. -/
def Euler.shown {S : Type} [Numeric S] (q : Quaternion S) : Euler S := (ofQuaternion q).inDegrees

/-- Telemetry shows the estimate. -/
theorem TelemetryRecord.attitude_ofSample (s : Sample) :
    (ofSample s).attitude = Euler.shown s.attitudes.estimate := rfl

namespace Quaternion

/-- No step of a flight has to start over from the identity. -/
def lasts {S : Type} [Numeric S] (dt : S) : Quaternion S → List (Vec3 S) → Bool
  | _, [] => true
  | q, rate :: rates =>
    !degenerate (q * exp (rate.scale dt)).length && lasts dt (q.integrate rate dt) rates

theorem beq_integrate_neg (q : Quaternion Float32) (rate : Vec3 Float32) (dt : Float32) :
    if degenerate (q * @exp _ f.numeric (rate.scale dt)).length then
      @integrate _ f.numeric (-q) rate dt = identity ∧ @integrate _ f.numeric q rate dt = identity
    else List.Forall₂ (fun a b => (a == b) = true) (@integrate _ f.numeric (-q) rate dt).toList
      (-@integrate _ f.numeric q rate dt).toList := by
  have hopposite := opposite_integrate (f := f) (opposite_neg q) rate dt
  split
  · next hd => rwa [if_pos hd] at hopposite
  · next hd =>
    rw [if_neg hd] at hopposite
    exact beq_of_forall₂ hopposite.toList (isUnit_integrate f (-q) rate dt).isFinite

theorem opposite_turned (h : p.Opposite q) (hl : @lasts _ f.numeric dt q rates = true) :
    (@turned _ f.numeric p dt rates).Opposite (@turned _ f.numeric q dt rates) := by
  induction rates generalizing p q with
  | nil => exact h
  | cons rate rates ih =>
    simp only [lasts, Bool.and_eq_true, Bool.not_eq_true'] at hl
    obtain ⟨hd, hl⟩ := hl
    have hstep := opposite_integrate (f := f) h rate dt
    split at hstep
    · next hback => exact absurd hback (Bool.eq_false_iff.mp hd)
    · exact ih hstep hl

theorem sameTurn_turned (hf : f.SignsOfZeros) (h : p.Opposite q)
    (hl : @lasts _ f.numeric dt q rates = true) :
    Euler.SameTurn 180.0 (@Euler.shown _ f.numeric (@turned _ f.numeric p dt rates))
      (@Euler.shown _ f.numeric (@turned _ f.numeric q dt rates)) := by
  have hturn := Euler.sameTurn_ofQuaternion hf (opposite_turned h hl)
  rw [Euler.ofQuaternion_neg] at hturn
  exact Euler.sameTurn_inDegrees hturn

/-- A quaternion and its negative stand for one attitude. -/
theorem same_attitude_of_neg (f : Elementary) :
    (∀ q : Quaternion Float32, (-q).toDcm = q.toDcm ∧
      @Euler.ofQuaternion _ f.numeric (-q) = @Euler.ofQuaternion _ f.numeric q) ∧
    (∀ (q : Quaternion Float32) (v : Vec3 Float32),
      ((-q).rotate v).Alike (q.rotate v) ∧ ((-q).rotateBack v).Alike (q.rotateBack v)) ∧
    (∀ q : Quaternion Float32,
      if degenerate q.length then (-q).normalize = identity ∧ q.normalize = identity
      else (-q).normalize = -q.normalize) ∧
    (∀ (q : Quaternion Float32) (rate : Vec3 Float32) (dt : Float32),
      if degenerate (q * @exp _ f.numeric (rate.scale dt)).length then
        @integrate _ f.numeric (-q) rate dt = identity ∧
          @integrate _ f.numeric q rate dt = identity
      else List.Forall₂ (fun a b => (a == b) = true) (@integrate _ f.numeric (-q) rate dt).toList
        (-@integrate _ f.numeric q rate dt).toList) ∧
    (f.SignsOfZeros → ∀ (q : Quaternion Float32) (dt : Float32) (rates : List (Vec3 Float32)),
      @lasts _ f.numeric dt q rates = true →
      Euler.SameTurn 180.0 (@Euler.shown _ f.numeric (@turned _ f.numeric (-q) dt rates))
        (@Euler.shown _ f.numeric (@turned _ f.numeric q dt rates))) := by
  refine ⟨fun q => ⟨q.toDcm_neg, Euler.ofQuaternion_neg f q⟩,
    fun q v => ⟨alike_rotate_neg q v, alike_rotateBack_neg q v⟩, normalize_neg,
    beq_integrate_neg, ?_⟩
  intro hf q dt rates hl
  exact sameTurn_turned hf (opposite_neg q) hl

/-- A flight of two radians about an axis and back again, which ends at a roll and a yaw of a quarter
turn from either sign. -/
theorem compass_shows_same_attitude :
    Elementary.compass.SignsOfZeros ∧
    @lasts _ Elementary.compass.numeric 1.0 ⟨0.5, 0.5, 0.5, 0.5⟩
      [⟨2.0, 0.0, 0.0⟩, ⟨-2.0, 0.0, 0.0⟩] = true ∧
    @Euler.shown _ Elementary.compass.numeric (@turned _ Elementary.compass.numeric
      ⟨0.5, 0.5, 0.5, 0.5⟩ 1.0 [⟨2.0, 0.0, 0.0⟩, ⟨-2.0, 0.0, 0.0⟩]) = ⟨90.0, -0.0, 90.0⟩ ∧
    Euler.SameTurn 180.0
      (@Euler.shown _ Elementary.compass.numeric (@turned _ Elementary.compass.numeric
        (-⟨0.5, 0.5, 0.5, 0.5⟩) 1.0 [⟨2.0, 0.0, 0.0⟩, ⟨-2.0, 0.0, 0.0⟩]))
      (@Euler.shown _ Elementary.compass.numeric (@turned _ Elementary.compass.numeric
        ⟨0.5, 0.5, 0.5, 0.5⟩ 1.0 [⟨2.0, 0.0, 0.0⟩, ⟨-2.0, 0.0, 0.0⟩])) := by
  obtain ⟨-, -, -, -, hshown⟩ := same_attitude_of_neg Elementary.compass
  have hlasts : @lasts _ Elementary.compass.numeric 1.0 ⟨0.5, 0.5, 0.5, 0.5⟩
      [⟨2.0, 0.0, 0.0⟩, ⟨-2.0, 0.0, 0.0⟩] = true := by decide +kernel
  exact ⟨Elementary.signsOfZeros_compass, hlasts, by decide +kernel,
    hshown Elementary.signsOfZeros_compass _ _ _ hlasts⟩

/-- Half a turn of yaw, reached from its two ends. The signs of the zeros that a product of the two
quaternions leaves behind are not those of a negative. -/
theorem yaw_of_half_turn_depends_on_sign :
    Elementary.compass.SignsOfZeros ∧
    @lasts _ Elementary.compass.numeric 1.0 ⟨0.0, 0.0, 0.6, 0.8⟩ [⟨0.0, 0.0, 0.0⟩] = true ∧
    (@Euler.shown _ Elementary.compass.numeric (@turned _ Elementary.compass.numeric
      ⟨0.0, 0.0, 0.6, 0.8⟩ 1.0 [⟨0.0, 0.0, 0.0⟩])).yaw = 180.0 ∧
    (@Euler.shown _ Elementary.compass.numeric (@turned _ Elementary.compass.numeric
      (-⟨0.0, 0.0, 0.6, 0.8⟩) 1.0 [⟨0.0, 0.0, 0.0⟩])).yaw = -180.0 ∧
    ((180.0 : Float32) == -180.0) = false := by
  exact ⟨Elementary.signsOfZeros_compass, by decide +kernel⟩

end Quaternion
end Strapdown
