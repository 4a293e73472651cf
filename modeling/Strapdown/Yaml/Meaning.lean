import Strapdown.Decimal.Literal
import Strapdown.Yaml.Node

/-!
What scalars mean. A plain scalar that reads as null, a truth value, an integer or a number is one;
any other scalar is a string. A core tag asks for one meaning.
-/

namespace Strapdown.Yaml
open Float.Model (UnpackedFloat)

/-- What is found in a document where something is expected. -/
inductive Found
  | null
  | boolean (value : Bool)
  | integer (value : Int)
  | number (value : UnpackedFloat)
  | string (value : String)
  | sequence
  | mapping

/-- The kinds of meaning that core tags ask for. -/
inductive Core
  | null
  | boolean
  | integer
  | number
deriving DecidableEq

namespace Core

def tag : Core → String
  | null => "tag:yaml.org,2002:null"
  | boolean => "tag:yaml.org,2002:bool"
  | integer => "tag:yaml.org,2002:int"
  | number => "tag:yaml.org,2002:float"

def ofTag? (tag : String) : Option Core :=
  [null, boolean, integer, number].find? (·.tag = tag)

end Core

namespace Scalar

def null? (text : String) : Option Found :=
  if ["null", "Null", "NULL", "~"].contains text then some .null else none

def boolean? (text : String) : Option Found :=
  if ["true", "True", "TRUE"].contains text then some (.boolean true)
  else if ["false", "False", "FALSE"].contains text then some (.boolean false)
  else none

def startsSigned (cs : List Char) : Bool := cs.head?.any fun c => c = '+' || c = '-'

/-- Digits after a zero, with or without a sign: these are no integer. -/
def isZeroPadded (cs : List Char) : Bool :=
  match if startsSigned cs then cs.drop 1 else cs with
  | '0' :: c :: rest => (c :: rest).all Char.isDigit
  | _ => false

/-- The magnitude of an integer without its sign: decimal, or with a mark of its base. -/
def magnitude? (cs : List Char) : Option Nat :=
  match cs with
  | '0' :: 'x' :: digits => Decimal.digitsValue? 16 digits
  | '0' :: 'o' :: digits => Decimal.digitsValue? 8 digits
  | '0' :: 'b' :: digits => Decimal.digitsValue? 2 digits
  | _ => if isZeroPadded cs then none else Decimal.digitsValue? 10 cs

/-- An integer that has no minus sign. -/
def natural? (cs : List Char) : Option Nat :=
  match cs with
  | '+' :: rest => magnitude? rest
  | _ => magnitude? cs

/-- An integer of at most 128 bits. -/
def integer? (text : String) : Option Int :=
  match text.toList with
  | '-' :: cs =>
    (magnitude? cs).bind fun n => if n ≤ Nat.pow 2 127 then some (-(n : Int)) else none
  | cs => (natural? cs).bind fun n => if n < Nat.pow 2 128 then some (n : Int) else none

/-- A decimal number that is finite in binary64, an infinity, or what is no number. -/
def number? (text : String) : Option UnpackedFloat :=
  let cs := text.toList
  let unsigned := if cs.head? = some '+' then cs.drop 1 else cs
  if cs.head? = some '+' && startsSigned unsigned then none
  else if [".inf", ".Inf", ".INF"].contains (String.ofList unsigned) then some (.infinity .positive)
  else if ["-.inf", "-.Inf", "-.INF"].contains text then some (.infinity .negative)
  else if [".nan", ".NaN", ".NAN"].contains text then some .notANumber
  else
    match Decimal.Literal.parse? unsigned with
    | none => none
    | some l => if l.toBinary64.isFinite then some l.toBinary64 else none

/-- What a plain scalar without a core tag means. -/
def plainMeaning (text : String) : Found :=
  let number :=
    if isZeroPadded text.toList then none else (number? text).map Found.number
  if text.isEmpty then .null
  else ((null? text <|> boolean? text) <|> (integer? text).map Found.integer <|> number).getD
    (.string text)

/-- What a core tag makes of a text. -/
def taggedMeaning? (core : Core) (text : String) : Option Found :=
  match core with
  | .null => null? text
  | .boolean => boolean? text
  | .integer => (integer? text).map .integer
  | .number => (number? text).map .number

/-- The meaning of a scalar, or the core tag that its text does not fit. -/
def meaning (s : Scalar) : Except Core Found :=
  match s.tag.bind Core.ofTag? with
  | some core =>
    match taggedMeaning? core s.text with
    | some found => .ok found
    | none => .error core
  | none =>
    if s.style = .plain && s.tag.all (·.startsWith "!") then .ok (plainMeaning s.text)
    else .ok (.string s.text)

/-- Whether a scalar may be read as a number: plain ones, and literal ones with the tag for it. -/
def reads (s : Scalar) (core : Core) : Bool :=
  s.style = .plain || s.style = .literal && s.tag = some core.tag

def isEmpty (s : Scalar) : Bool := s.style = .plain && s.text.isEmpty

end Scalar
end Strapdown.Yaml
