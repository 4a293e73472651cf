import Strapdown.Proofs.Scenario.Rewriting
import Strapdown.Simulation.Telemetry

/-!
What is written can be told from its text. A text is read as one tree, a tree has the form of one
value only, and no two numbers have the same digits.
-/
namespace Strapdown.Yaml
open Block (numberStyle)

mutual

/-- A tree has the form of at most one value. -/
theorem Shows.unique : ∀ {a b : Block} {node : Node}, Shows a node → Shows b node → a = b
  | .scalar _, _, _, ha, hb => by
    cases ha
    cases hb
    rfl
  | .sequence items, _, _, ha, hb => by
    cases ha with
    | sequence mark ha =>
      cases hb with
      | sequence _ hb => rw [ha.unique hb]
  | .mapping entries, _, _, ha, hb => by
    cases ha with
    | mapping mark ha =>
      cases hb with
      | mapping _ hb => rw [ha.unique hb]

theorem ShowsItems.unique : ∀ {as bs : List Block} {nodes : List Node}, ShowsItems as nodes →
    ShowsItems bs nodes → as = bs
  | [], _, _, ha, hb => by
    cases ha
    cases hb
    rfl
  | _ :: _, _, _, ha, hb => by
    cases ha with
    | cons ha has =>
      cases hb with
      | cons hb hbs => rw [ha.unique hb, has.unique hbs]

theorem ShowsEntries.unique : ∀ {as bs : List (String × Block)} {pairs : List (Node × Node)},
    ShowsEntries as pairs → ShowsEntries bs pairs → as = bs
  | [], _, _, ha, hb => by
    cases ha
    cases hb
    rfl
  | _ :: _, _, _, ha, hb => by
    cases ha with
    | cons mark ha has =>
      cases hb with
      | cons _ hb hbs => rw [ha.unique hb, has.unique hbs]

end

/-- Values with the same text are the same, since both have the form of the tree it is read as. -/
theorem Block.text_inj {a b : Block} (ha : a.Simple) (hb : b.Simple) :
    a.text = b.text ↔ a = b := by
  refine ⟨?_, congrArg Block.text⟩
  intro h
  have hshows := (a.shows_ofText ha).1
  rw [h] at hshows
  exact hshows.unique (b.shows_ofText hb).1

/-! No two numbers have the same digits. Reading tells all of them apart but for the two that are
read as their neighbours, and these are written in another way than the neighbours are. -/

theorem eq_of_settled_ne {x : Float32} (h : settled x ≠ x) :
    x = .ofBits 0x15ae43fd ∨ x = .ofBits 0x95ae43fd := by
  rw [← Float32.ofBits_toBits x]
  by_cases hpos : x.toBits = 0x15ae43fd
  · exact .inl (congrArg _ hpos)
  · exact .inr (congrArg _ (not_not.mp fun hneg => h (settled_eq_self_iff.mpr ⟨hpos, hneg⟩)))

theorem write_settled_ne {x : Float32} (h : settled x ≠ x) :
    numberStyle.write (settled x) ≠ numberStyle.write x := by
  rcases eq_of_settled_ne h with rfl | rfl <;> decide +kernel

theorem settled_eq_of_write_eq {x y : Float32} (h : numberStyle.write x = numberStyle.write y) :
    settled x = settled y := by
  obtain ⟨u, hu, hx⟩ := number?_write x
  obtain ⟨v, hv, hy⟩ := number?_write y
  rw [h, hv] at hu
  rw [← hx, ← hy, Option.some.inj hu]

theorem write_injective : Function.Injective numberStyle.write := by
  intro x y h
  have hsettled := settled_eq_of_write_eq h
  by_cases hx : settled x = x
  · by_cases hy : settled y = y
    · rw [← hx, ← hy, hsettled]
    · have hne := write_settled_ne hy
      rw [← hsettled, hx] at hne
      exact absurd h hne
  · by_cases hy : settled y = y
    · have hne := write_settled_ne hx
      rw [hsettled, hy] at hne
      exact absurd h.symm hne
    · rcases eq_of_settled_ne hx with rfl | rfl <;> rcases eq_of_settled_ne hy with rfl | rfl
      · rfl
      · exact absurd h (by decide +kernel)
      · exact absurd h (by decide +kernel)
      · rfl

theorem float32_inj {x y : Float32} : Block.float32 x = Block.float32 y ↔ x = y := by
  rw [Block.float32, Block.float32, Block.scalar.injEq]
  exact write_injective.eq_iff

end Yaml

namespace Euler

theorem toBlock_inj {d e : Euler Float32} : d.toBlock = e.toBlock ↔ d = e := by
  obtain ⟨roll, pitch, yaw⟩ := d
  obtain ⟨roll', pitch', yaw'⟩ := e
  simp [toBlock, Yaml.float32_inj]

end Euler

namespace TelemetryRecord

variable {r s : TelemetryRecord}

/-- The numbers of a record, in the order in which they are written. -/
def floats (r : TelemetryRecord) : List Float32 := r.time :: r.attitude.toList ++ [r.drift]

/-- There is one bit pattern for what is not a number, and one for either zero. -/
theorem bits_eq_iff : r.floats.map Float32.toBits = s.floats.map Float32.toBits ↔ r = s := by
  have hbits : Function.Injective Float32.toBits :=
    Function.LeftInverse.injective Float32.ofBits_toBits
  rw [(List.map_injective_iff.mpr hbits).eq_iff]
  obtain ⟨time, ⟨roll, pitch, yaw⟩, drift⟩ := r
  obtain ⟨time', ⟨roll', pitch', yaw'⟩, drift'⟩ := s
  simp [floats, Euler.toList]
  tauto

theorem toBlock_injective : Function.Injective toBlock := by
  intro r s h
  obtain ⟨time, attitude, drift⟩ := r
  obtain ⟨time', attitude', drift'⟩ := s
  simpa [toBlock, Yaml.float32_inj, Euler.toBlock_inj] using h

theorem simple_toBlock (r : TelemetryRecord) : r.toBlock.Simple :=
  ⟨by decide, Yaml.isWord_write r.time, by decide, r.attitude.decodes.simple, by decide,
    Yaml.isWord_write r.drift, trivial⟩

theorem simple_listBlock (records : List TelemetryRecord) :
    (Yaml.Block.sequence (records.map toBlock)).Simple := by
  change Yaml.Block.SimpleItems _
  induction records with
  | nil => trivial
  | cons r records ih => exact ⟨r.simple_toBlock, ih⟩

theorem listYaml_injective : Function.Injective listYaml := by
  intro rs ss h
  rw [listYaml, listYaml, Yaml.Block.text_inj (simple_listBlock rs) (simple_listBlock ss),
    Yaml.Block.sequence.injEq] at h
  exact List.map_injective_iff.mpr toBlock_injective h

/-- Telemetry is written without loss: texts are the same for records with the same bits only. -/
theorem listYaml_eq_iff (rs ss : List TelemetryRecord) : listYaml rs = listYaml ss ↔
    List.Forall₂ (fun r s => r.floats.map Float32.toBits = s.floats.map Float32.toBits) rs ss := by
  simp only [bits_eq_iff, List.forall₂_eq_eq_eq]
  exact listYaml_injective.eq_iff

end TelemetryRecord
end Strapdown
