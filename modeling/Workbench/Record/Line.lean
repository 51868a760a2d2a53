import Workbench.Json.Reader
import Workbench.Record

/-! # Lines of a build

A line is a record, or it is rejected with a reason, or reading it is given up:
an integer of too many digits or containers nested too deep end the reading
of the whole stream.
-/

namespace Workbench

open Json (Value)

variable [Json.Nesting] [Field.Coercion]

inductive LineFault where
  | malformed (f : Json.Fault) (position : Nat)
  | notObject (v : Value)
  | invalid (type : RecordType) (errors : Nat)

/-- What cannot be read and is no fault of one line alone. -/
inductive Abort where
  | longInteger (digits : Nat)
  | tooDeep (c : Json.Container)
deriving DecidableEq

def Abort.message : Abort → Text
  | longInteger digits => Json.longIntegerMessage digits
  | tooDeep c => (Json.ReadError.tooDeep c).message []

structure DecodeError where
  line : Text
  fault : LineFault

namespace DecodeError

def reason (e : DecodeError) : Text :=
  match e.fault with
  | .malformed f position => (Json.ReadError.fault f position).message e.line
  | .notObject v => "expected an object, got " ++ typeWord v
  | .invalid type errors =>
    "invalid " ++ type.name ++ " record (" ++ Text.ofNat errors ++ " error(s))"

def lineLength (e : DecodeError) : Nat := e.line.length

def message (e : DecodeError) : Text := "illegal json on stdout: " ++ e.reason

end DecodeError

inductive Item where
  | record (r : Record)
  | failure (e : DecodeError)

/-- Why a line gives no record. -/
inductive Unreadable where
  | rejected (f : LineFault)
  | aborted (a : Abort)

def Record.ofMembers (ms : Field.Members) : Except Unreadable Record :=
  match (typeName? ms).bind RecordType.ofName? with
  | none => .ok (.unknown (typeName? ms) ms)
  | some type =>
    match type.read ms with
    | .ok r => .ok r
    | .faulty es => .error (.rejected (.invalid type es.length))

def Record.ofLine (line : Text) : Except Unreadable Record :=
  match Json.read line with
  | .error (.fault f position) => .error (.rejected (.malformed f position))
  | .error (.longInteger digits) => .error (.aborted (.longInteger digits))
  | .error (.tooDeep c) => .error (.aborted (.tooDeep c))
  | .ok (.obj ms) => Record.ofMembers ms
  | .ok v => .error (.rejected (.notObject v))

def Item.ofLine (line : Text) : Except Abort Item :=
  match Record.ofLine line with
  | .ok r => .ok (.record r)
  | .error (.rejected f) => .ok (.failure ⟨line, f⟩)
  | .error (.aborted a) => .error a

end Workbench
