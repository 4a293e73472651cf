import Strapdown.Yaml.Token

/-!
Documents as trees. Every node keeps the place where it starts, for messages. A node with an anchor
has a slot, by which aliases refer to it. Where a text stops being YAML its tree breaks off.
-/

namespace Strapdown.Yaml

structure Scalar where
  text : String
  style : Style
  tag : Option String
deriving DecidableEq

inductive Node
  | scalar (mark : Mark) (slot : Option Nat) (value : Scalar)
  | sequence (mark : Mark) (slot : Option Nat) (items : List Node)
  | mapping (mark : Mark) (slot : Option Nat) (entries : List (Node × Node))
  | reference (mark : Mark) (slot : Nat)
  /-- Stands where the text cannot be read on. Nothing comes after it. -/
  | unreadable (mark : Mark)

namespace Node

/-- A missing value, which counts as a plain scalar without text. -/
def empty (mark : Mark) : Node := .scalar mark none ⟨"", .plain, none⟩

def mark : Node → Mark
  | scalar mark _ _ | sequence mark _ _ | mapping mark _ _ => mark
  | reference mark _ | unreadable mark => mark

def slot : Node → Option Nat
  | scalar _ slot _ | sequence _ slot _ | mapping _ slot _ => slot
  | reference _ _ | unreadable _ => none

mutual

/-- The last node below this one, itself included, with a slot. -/
def inSlot? (n : Nat) : Node → Option Node
  | scalar mark slot value =>
    if slot = some n then some (scalar mark slot value) else none
  | sequence mark slot items =>
    inItems? n items <|> if slot = some n then some (sequence mark slot items) else none
  | mapping mark slot entries =>
    inEntries? n entries <|> if slot = some n then some (mapping mark slot entries) else none
  | reference _ _ | unreadable _ => none

def inItems? (n : Nat) : List Node → Option Node
  | [] => none
  | item :: items => inItems? n items <|> inSlot? n item

def inEntries? (n : Nat) : List (Node × Node) → Option Node
  | [] => none
  | (key, value) :: entries => inEntries? n entries <|> inSlot? n value <|> inSlot? n key

end

mutual

/-- The place where a node breaks off. -/
def stop? : Node → Option Mark
  | scalar _ _ _ | reference _ _ => none
  | sequence _ _ items => stopOfItems? items
  | mapping _ _ entries => stopOfEntries? entries
  | unreadable mark => some mark

def stopOfItems? : List Node → Option Mark
  | [] => none
  | item :: items => stop? item <|> stopOfItems? items

def stopOfEntries? : List (Node × Node) → Option Mark
  | [] => none
  | (key, value) :: entries => stop? key <|> stop? value <|> stopOfEntries? entries

end

/-- The node itself, or the one that an alias in the document refers to. -/
def target (root : Node) : Node → Node
  | reference mark slot => (root.inSlot? slot).getD (empty mark)
  | node => node

end Node
end Strapdown.Yaml
