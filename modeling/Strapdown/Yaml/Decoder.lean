import Strapdown.Yaml.Fault
import Strapdown.Yaml.Node.Parser

/-!
Reading values of known types out of a document. A reader reports the first fault that it meets in
the order of the text; a missing field is a fault of the whole mapping. That a document breaks off
is a fault at the place where it does.
-/

namespace Strapdown.Yaml

/-- A value inside a document, with aliases resolved. -/
structure Spot where
  root : Node
  path : List Step
  node : Node

/-- Reads a value of some type. -/
abbrev Decoder (α : Type) := Spot → Except Fault α

namespace Spot

def ofRoot (root : Node) : Spot := ⟨root, [], root⟩

/-- The value of an item or entry one step further in. -/
def child (s : Spot) (step : Step) (node : Node) : Spot :=
  ⟨s.root, step :: s.path, s.root.target node⟩

def fault (s : Spot) (problem : Problem) : Fault := ⟨problem, s.path, s.node.mark⟩

def fail {α : Type} (s : Spot) (problem : Problem) : Except Fault α := .error (s.fault problem)

/-- What is wrong with a node where something else is expected. -/
def mismatch (node : Node) (expected : String) : Problem :=
  match node with
  | .scalar _ _ value =>
    match value.meaning with
    | .ok found => .wrongType found expected
    | .error core => .wrongValue value.text core.expectation
  | .sequence _ _ _ => .wrongType .sequence expected
  | .mapping _ _ _ => .wrongType .mapping expected
  | .reference _ _ => .wrongType .null expected
  | .unreadable _ => .unreadable

/-- The items of a sequence; an empty value has none. -/
def items (s : Spot) (expected : String) : Except Fault (List Spot) :=
  match s.node with
  | .sequence _ _ items => .ok (items.mapIdx fun i item => s.child (.index i) item)
  | .scalar _ _ value => if value.isEmpty then .ok [] else s.fail (mismatch s.node expected)
  | node => s.fail (mismatch node expected)

/-- The entries of a mapping; an empty value has none. -/
def entries (s : Spot) (expected : String) : Except Fault (List (Node × Node)) :=
  match s.node with
  | .mapping _ _ entries => .ok entries
  | .scalar _ _ value => if value.isEmpty then .ok [] else s.fail (mismatch s.node expected)
  | node => s.fail (mismatch node expected)

/-- The name that a key gives and the step it stands for. -/
def keyName (s : Spot) (key : Node) : Except Fault (String × Step) :=
  match s.root.target key with
  | .scalar _ _ value =>
    .ok (value.text, match key with
      | .reference _ _ => .unnamed
      | _ => .key value.text)
  | node => .error ⟨mismatch node "field identifier", s.path, node.mark⟩

end Spot

/-- A field of a mapping that is read into an accumulator. -/
structure RecordField (σ : Type) where
  name : String
  present : σ → Bool
  read : Spot → σ → Except Fault σ

namespace RecordField

/-- A field whose value is stored as an option. -/
def ofOption {σ α : Type} (name : String) (get : σ → Option α) (set : Option α → σ → σ)
    (decode : Decoder α) : RecordField σ where
  name
  present := fun acc => (get acc).isSome
  read := fun spot acc => (decode spot).map fun value => set (some value) acc

end RecordField

namespace Decoder
variable {σ α : Type}

/-- Reads a scalar; `core` is its kind, for scalars whose tag gives it. -/
def scalar (core : Core) (expected : String) (parse? : String → Option α) (s : Spot) :
    Except Fault α :=
  match s.node with
  | .scalar _ _ value =>
    match if value.reads core then parse? value.text else none with
    | some result => .ok result
    | none => s.fail (Spot.mismatch s.node expected)
  | node => s.fail (Spot.mismatch node expected)

/-- A binary32 number, rounded by way of binary64. -/
def float32 : Decoder Float32 :=
  scalar .number "f32" fun text => (Scalar.number? text).map Binary.narrow

/-- A count that fits 64 bits, under the name that its type goes by. -/
def count64 (expected : String) : Decoder UInt64 :=
  scalar .integer expected fun text =>
    (Scalar.natural? text.toList).bind fun n => if n < UInt64.size then some n.toUInt64 else none

def list (item : Decoder α) : Decoder (List α) := fun s => do
  (← s.items "a sequence").mapM item

/-- Three items of a sequence. A fourth one is still read before the length is found wrong. -/
def triple (item : Decoder α) (make : α → α → α → σ) : Decoder σ := fun s => do
  let expected := "a matrix array"
  match ← (← s.items expected).take 4 |>.mapM item with
  | [x, y, z] => return make x y z
  | values => s.fail (.wrongLength (min values.length 3) expected)

/-- Reads one entry of a mapping. An entry that is no field is skipped, up to its end. -/
def entry (fields : List (RecordField σ)) (s : Spot) (acc : σ) (key value : Node) :
    Except Fault σ := do
  let (name, step) ← s.keyName key
  match fields.find? (·.name = name) with
  | none => match value.stop? with
    | none => return acc
    | some mark => throw ⟨.unreadable, step :: s.path, mark⟩
  | some field =>
    if field.present acc then s.fail (.duplicateField name)
    else field.read (s.child step value) acc

/-- Reads the fields of a mapping in the order of the text. -/
def record (expected : String) (fields : List (RecordField σ)) (start : σ) (s : Spot) :
    Except Fault σ := do
  (← s.entries expected).foldlM (fun acc (key, value) => entry fields s acc key value) start

/-- A field that has to be there. -/
def required (s : Spot) (name : String) : Option α → Except Fault α
  | some value => .ok value
  | none => s.fail (.missingField name)

end Decoder
end Strapdown.Yaml
