import Workbench.Json.Value

/-! # Reading fields

Fields of records and options are read with some leniency, which is a parameter:
a number may come as text, a switch as a word. Each reading has its faults, and all
faults of a record are reported together, in the order of its fields.
-/

namespace Workbench

namespace Field

inductive Fault where
  | missing
  | notText
  | notInteger
  | integerText
  | integerSize
  | fraction
  | notFinite
  | negative
  | notFloat
  | floatText
  | notAboveZero
  | notSwitch
  | switchWord
  | notListed
  | notMember
  | notRecord
  | rejected (message : Text)
deriving DecidableEq

def Fault.code : Fault → Text
  | missing => "missing"
  | notText => "string_type"
  | notInteger => "int_type"
  | integerText => "int_parsing"
  | integerSize => "int_parsing_size"
  | fraction => "int_from_float"
  | notFinite => "finite_number"
  | negative => "greater_than_equal"
  | notFloat => "float_type"
  | floatText => "float_parsing"
  | notAboveZero => "greater_than"
  | notSwitch => "bool_type"
  | switchWord => "bool_parsing"
  | notListed => "literal_error"
  | notMember => "enum"
  | notRecord => "model_type"
  | rejected _ => "value_error"

structure Error where
  place : List Text
  fault : Fault
deriving DecidableEq

end Field

inductive Checked (α : Type) where
  | ok (a : α)
  | faulty (errors : List Field.Error)

namespace Checked

variable {α β : Type}

def errors : Checked α → List Field.Error
  | ok _ => []
  | faulty es => es

def value? : Checked α → Option α
  | ok a => some a
  | faulty _ => none

/-- Applies a function to an argument; faults of both are kept. -/
def app (f : Checked (α → β)) (x : Checked α) : Checked β :=
  match f, x with
  | ok f, ok a => ok (f a)
  | f, x => faulty (f.errors ++ x.errors)

def map (f : α → β) : Checked α → Checked β
  | ok a => ok (f a)
  | faulty es => faulty es

instance : Applicative Checked where
  pure := ok
  seq f x := app f (x ())
  map := map

def sequence : List (Checked α) → Checked (List α)
  | [] => ok []
  | x :: xs => app (x.map List.cons) (sequence xs)

end Checked

namespace Field

open Json (Value)

/-- How numbers and switches are read, also from values of another type. -/
class Coercion where
  integer : Value → Except Fault Int
  float : Value → Except Fault Binary64
  switch : Value → Except Fault Bool

export Coercion (integer float switch)

def natural [Coercion] (v : Value) : Except Fault Nat := do
  let n ← integer v
  if n < 0 then .error .negative else .ok n.toNat

/-- A number above zero; what is not a number is not. -/
def positiveFloat [Coercion] (v : Value) : Except Fault Binary64 := do
  let x ← float v
  if x.isPositive then .ok x else .error .notAboveZero

def text : Value → Except Fault Text
  | .str t => .ok t
  | _ => .error .notText

def listed (words : List Text) : Value → Except Fault Text
  | .str t => if t ∈ words then .ok t else .error .notListed
  | _ => .error .notListed

def nullable {α : Type} (read : Value → Except Fault α) : Value → Except Fault (Option α)
  | .null => .ok none
  | v => (read v).map some

/-! ## Records -/

abbrev Members := List (Text × Value)

def member (name : Text) (v : Value) : Members := [(name, v)]

def lookup (ms : Members) (name : Text) : Option Value := (OrderedMap.mk ms).get? name

def check {α : Type} (name : Text) (r : Except Fault α) : Checked α :=
  match r with
  | .ok a => .ok a
  | .error f => .faulty [⟨[name], f⟩]

def required {α : Type} (ms : Members) (name : Text) (read : Value → Except Fault α) :
    Checked α :=
  match lookup ms name with
  | none => .faulty [⟨[name], .missing⟩]
  | some v => check name (read v)

def optional {α : Type} (ms : Members) (name : Text) (default : α)
    (read : Value → Except Fault α) : Checked α :=
  match lookup ms name with
  | none => .ok default
  | some v => check name (read v)

def nested {α : Type} (ms : Members) (name : Text) (read : Members → Checked α) : Checked α :=
  match lookup ms name with
  | none => .faulty [⟨[name], .missing⟩]
  | some (.obj inner) =>
    match read inner with
    | .ok a => .ok a
    | .faulty es => .faulty (es.map fun e => ⟨name :: e.place, e.fault⟩)
  | some _ => .faulty [⟨[name], .notRecord⟩]

end Field

end Workbench
