import Strapdown.Random.Normal
import Strapdown.Scenario

/-!
Gyros that measure a body rate with a constant bias and white noise. The noise follows from the seed
alone, whatever is measured.
-/

namespace Strapdown

structure Gyro where
  /-- The standard deviation of the noise; a noiseless gyro has none. -/
  noise : Option Float32
  bias : Vec3 Float32
  stream : ChaCha.Stream

namespace Gyro

/-- Noise takes a positive finite deviation. -/
def ofModel (m : GyroModel) : Gyro where
  noise := if m.noise > 0.0 ∧ m.noise.isFinite then some m.noise else none
  bias := m.bias
  stream := .ofSeed m.seed

/-- No bias and no noise. -/
def ideal : Gyro := ofModel ⟨0.0, Vec3.zero, 0⟩

/-- The noise on one axis. -/
def sampleNoise (deviation : Float32) (s : ChaCha.Stream) : Float32 × ChaCha.Stream :=
  let (n, s) := Normal.draw s
  (0.0 + deviation * n.toFloat32, s)

/-- Measures a rate. Noise is drawn for x, y and z in turn. -/
def measure (g : Gyro) (rate : Vec3 Float32) : Vec3 Float32 × Gyro :=
  match g.noise with
  | none => (rate + g.bias, g)
  | some deviation =>
    let (x, s) := sampleNoise deviation g.stream
    let (y, s) := sampleNoise deviation s
    let (z, s) := sampleNoise deviation s
    (rate + g.bias + ⟨x, y, z⟩, { g with stream := s })

/-- Measures rates one after the other. -/
def measureAll (g : Gyro) : List (Vec3 Float32) → List (Vec3 Float32)
  | [] => []
  | rate :: rates =>
    let (measured, g) := g.measure rate
    measured :: measureAll g rates

end Gyro
end Strapdown
