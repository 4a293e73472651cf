import Mathlib
import Strapdown.Gyro

/-!
Gyros over any number of measurements. A seed has one stream of standard normal numbers, and a gyro
with noise takes three of them for each measurement, in turn, whatever it measures. A gyro without
noise takes none.
-/
namespace Strapdown

variable {g : Gyro} {rate : Vec3 Float32} {rs : List (Vec3 Float32)} {deviation : Float32}
  {model : GyroModel} {n : ℕ}

namespace Normal
open ChaCha (Stream)

/-- The stream after so many numbers are drawn, however many words each of them takes. -/
def after (s : Stream) (n : ℕ) : Stream := (fun s => (draw s).2)^[n] s

/-- The numbers that a stream gives, to single precision. -/
def number (s : Stream) (n : ℕ) : Float32 := (draw (after s n)).1.toFloat32

theorem after_after (s : Stream) (m n : ℕ) : after (after s m) n = after s (m + n) := by
  rw [after, after, after, Nat.add_comm m n, Function.iterate_add_apply]

theorem number_after (s : Stream) (m n : ℕ) : number (after s m) n = number s (m + n) := by
  rw [number, number, after_after]

end Normal

namespace Gyro

/-- The state of a gyro after measurements. -/
def after (g : Gyro) (rs : List (Vec3 Float32)) : Gyro :=
  rs.foldl (fun g rate => (g.measure rate).2) g

theorem measureAll_getElem? (h : rs[n]? = some rate) :
    (g.measureAll rs)[n]? = some ((g.after (rs.take n)).measure rate).1 := by
  induction rs generalizing g n with
  | nil => simp at h
  | cons first rs ih =>
    cases n with
    | zero =>
      rw [List.getElem?_cons_zero, Option.some.injEq] at h
      subst h
      rfl
    | succ n =>
      rw [List.getElem?_cons_succ] at h
      exact ih h

theorem after_take_succ (h : rs[n]? = some rate) :
    g.after (rs.take (n + 1)) = ((g.after (rs.take n)).measure rate).2 := by
  rw [after, List.take_add_one, h, Option.toList_some, List.foldl_append]
  rfl

theorem length_measureAll (g : Gyro) (rs : List (Vec3 Float32)) :
    (g.measureAll rs).length = rs.length := by
  induction rs generalizing g with
  | nil => rfl
  | cons rate rs ih => exact congrArg (· + 1) (ih _)

theorem measure_keeps (g : Gyro) (rate : Vec3 Float32) :
    (g.measure rate).2.noise = g.noise ∧ (g.measure rate).2.bias = g.bias := by
  unfold measure
  split <;> exact ⟨rfl, rfl⟩

theorem after_keeps (g : Gyro) (rs : List (Vec3 Float32)) :
    (g.after rs).noise = g.noise ∧ (g.after rs).bias = g.bias := by
  induction rs generalizing g with
  | nil => exact ⟨rfl, rfl⟩
  | cons rate rs ih =>
    obtain ⟨hn, hb⟩ := g.measure_keeps rate
    obtain ⟨hn', hb'⟩ := ih (g.measure rate).2
    exact ⟨hn'.trans hn, hb'.trans hb⟩

/-! Without noise, nothing is drawn. -/

theorem measure_of_noiseless (h : g.noise = none) (rate : Vec3 Float32) :
    g.measure rate = (rate + g.bias, g) := by
  rw [measure, h]

theorem measureAll_of_noiseless (h : g.noise = none) (rs : List (Vec3 Float32)) :
    g.measureAll rs = rs.map (· + g.bias) := by
  induction rs with
  | nil => rfl
  | cons rate rs ih =>
    rw [measureAll, measure_of_noiseless h]
    exact congrArg _ ih

theorem after_of_noiseless (h : g.noise = none) (rs : List (Vec3 Float32)) : g.after rs = g := by
  induction rs with
  | nil => rfl
  | cons rate rs ih =>
    rw [after, List.foldl_cons, measure_of_noiseless h]
    exact ih

/-! With noise, three numbers are drawn. -/

/-- The noise of a measurement, from the next three numbers of a stream. -/
def noiseFrom (deviation : Float32) (s : ChaCha.Stream) : Vec3 Float32 :=
  ⟨0.0 + deviation * Normal.number s 0, 0.0 + deviation * Normal.number s 1,
    0.0 + deviation * Normal.number s 2⟩

theorem noiseFrom_after (deviation : Float32) (s : ChaCha.Stream) (m : ℕ) :
    noiseFrom deviation (Normal.after s m) =
      ⟨0.0 + deviation * Normal.number s m, 0.0 + deviation * Normal.number s (m + 1),
        0.0 + deviation * Normal.number s (m + 2)⟩ := by
  simp only [noiseFrom, Normal.number_after, Nat.add_zero]

theorem measure_of_noise (h : g.noise = some deviation) (rate : Vec3 Float32) :
    g.measure rate = (rate + g.bias + noiseFrom deviation g.stream,
      { g with stream := Normal.after g.stream 3 }) := by
  rw [measure, h]
  rfl

theorem measureAll_of_noise (h : g.noise = some deviation) (rs : List (Vec3 Float32)) :
    g.measureAll rs = rs.mapIdx fun i rate =>
      rate + g.bias + noiseFrom deviation (Normal.after g.stream (3 * i)) := by
  induction rs generalizing g with
  | nil => rfl
  | cons rate rs ih =>
    rw [measureAll, measure_of_noise h, List.mapIdx_cons]
    have hrest := ih (g := { g with stream := Normal.after g.stream 3 }) h
    simp only [Normal.after_after, Nat.add_comm 3] at hrest
    exact congrArg₂ List.cons rfl hrest

theorem stream_after_of_noise (h : g.noise = some deviation) (rs : List (Vec3 Float32)) :
    (g.after rs).stream = Normal.after g.stream (3 * rs.length) := by
  induction rs generalizing g with
  | nil => rfl
  | cons rate rs ih =>
    rw [after, List.foldl_cons, measure_of_noise h, List.length_cons, Nat.mul_succ,
      Nat.add_comm _ 3, ← Normal.after_after]
    exact ih (g := { g with stream := Normal.after g.stream 3 }) h

theorem noise_ofModel_of_pos (hpos : model.noise > 0.0) (hfin : model.noise.isFinite = true) :
    (ofModel model).noise = some model.noise :=
  if_pos ⟨hpos, hfin⟩

theorem noise_ofModel_of_not (h : ¬ (model.noise > 0.0 ∧ model.noise.isFinite = true)) :
    (ofModel model).noise = none :=
  if_neg h

/-- The noise of a gyro follows from its seed and from how often it has measured. Of the numbers of
the seed, measurement `i` takes those at `3 * i` and the next two. A deviation that is not positive
and finite stands for no noise, and then the seed makes no difference. -/
theorem noise_follows_seed (seed : UInt64) :
    (∀ deviation bias rs, deviation > 0.0 → deviation.isFinite = true →
      let g := ofModel ⟨deviation, bias, seed⟩
      let noise (n : ℕ) : Float32 := 0.0 + deviation * Normal.number (.ofSeed seed) n
      (g.measureAll rs = rs.mapIdx fun i rate =>
        rate + bias + ⟨noise (3 * i), noise (3 * i + 1), noise (3 * i + 2)⟩) ∧
      (g.after rs).stream = Normal.after (.ofSeed seed) (3 * rs.length)) ∧
    ∀ deviation bias rs, ¬ (deviation > 0.0 ∧ deviation.isFinite = true) →
      let g := ofModel ⟨deviation, bias, seed⟩
      g.measureAll rs = rs.map (· + bias) ∧ (g.after rs).stream = .ofSeed seed ∧
      ∀ seed', (ofModel ⟨deviation, bias, seed'⟩).measureAll rs = g.measureAll rs := by
  constructor
  · intro deviation bias rs hpos hfin g noise
    have hnoise : g.noise = some deviation := noise_ofModel_of_pos hpos hfin
    have hmeasured := measureAll_of_noise hnoise rs
    simp only [noiseFrom_after] at hmeasured
    exact ⟨hmeasured, stream_after_of_noise hnoise rs⟩
  · intro deviation bias rs hnot g
    have hnoise (seed : UInt64) : (ofModel ⟨deviation, bias, seed⟩).noise = none :=
      noise_ofModel_of_not hnot
    have hstream : (g.after rs).stream = .ofSeed seed :=
      congrArg stream (after_of_noiseless (hnoise seed) rs)
    refine ⟨measureAll_of_noiseless (hnoise seed) rs, hstream, fun seed' => ?_⟩
    exact (measureAll_of_noiseless (hnoise seed') rs).trans
      (measureAll_of_noiseless (hnoise seed) rs).symm

theorem noise_of_seed_fortyTwo :
    let bias : Vec3 Float32 := ⟨0.25, 0.0, -0.5⟩
    let turn : Vec3 Float32 := ⟨1.0, 0.5, 0.0⟩
    let g := ofModel ⟨0.0625, bias, 42⟩
    let noise (n : ℕ) : Float32 := 0.0 + 0.0625 * Normal.number (.ofSeed 42) n
    g.measureAll [turn, Vec3.zero] =
      [turn + bias + ⟨noise 0, noise 1, noise 2⟩, Vec3.zero + bias + ⟨noise 3, noise 4, noise 5⟩] ∧
    (g.after [turn, Vec3.zero]).stream = Normal.after (.ofSeed 42) 6 ∧
    (ofModel ⟨0.0 / 0.0, bias, 42⟩).measureAll [turn] = [⟨1.25, 0.5, -0.5⟩] := by
  intro bias turn g noise
  obtain ⟨hnoisy, hnoiseless⟩ := noise_follows_seed 42
  obtain ⟨hmeasured, hstream⟩ := hnoisy 0.0625 bias [turn, Vec3.zero]
    (by decide +kernel) (by decide +kernel)
  obtain ⟨hsum, -⟩ := hnoiseless (0.0 / 0.0) bias [turn] (by decide +kernel)
  have hturn : turn + bias = ⟨1.25, 0.5, -0.5⟩ := by decide +kernel
  refine ⟨hmeasured, hstream, hsum.trans ?_⟩
  rw [List.map_singleton, hturn]

end Gyro
end Strapdown
