import Workbench.Field
import Workbench.Text.Case

/-! # Records of a build

A build prints one JSON object per line: a diagnostic, a symbol, a log message
or something that is not known here. A line that is none of these has a fault.
-/

namespace Workbench

open Json (Value)

structure Range where
  lineStart : Nat
  colStart : Nat
  lineEnd : Nat
  colEnd : Nat
deriving DecidableEq, Inhabited

def Range.read [Field.Coercion] (ms : Field.Members) : Checked Range :=
  Range.mk <$> Field.required ms "line_start" Field.natural
    <*> Field.required ms "col_start" Field.natural
    <*> Field.required ms "line_end" Field.natural
    <*> Field.required ms "col_end" Field.natural

inductive SymbolKind where
  | type
  | interface
  | enum
  | tuple
  | service
deriving DecidableEq

namespace SymbolKind

def all : List SymbolKind := [type, interface, enum, tuple, service]

def name : SymbolKind → Text
  | type => "type"
  | interface => "interface"
  | enum => "enum"
  | tuple => "tuple"
  | service => "service"

def ofName? (t : Text) : Option SymbolKind := all.find? (·.name == t)

/-- The kind that a value spells, in capitals or not; anything else is no kind. -/
def ofValue? : Value → Option SymbolKind
  | .str t => ofName? t.lower
  | _ => none

def editorKind : Option SymbolKind → Text
  | none => "constant"
  | some type => "class"
  | some interface => "interface"
  | some enum => "enum"
  | some tuple => "array"
  | some service => "class"

end SymbolKind

structure DiagnosticRecord where
  path : Text
  range : Range
  message : Text
deriving DecidableEq

structure SymbolRecord where
  kind : Option SymbolKind
  name : Text
  package : Text
  path : Text
  range : Range
deriving DecidableEq

structure LogRecord where
  level : Text
  message : Text
deriving DecidableEq

def LogRecord.line (r : LogRecord) : Text := r.level ++ ": " ++ r.message

inductive Record where
  | diagnostic (r : DiagnosticRecord)
  | symbol (r : SymbolRecord)
  | log (r : LogRecord)
  | unknown (type : Option Text) (payload : Field.Members)

inductive RecordType where
  | diagnostics
  | symbol
  | log
deriving DecidableEq

namespace RecordType

def name : RecordType → Text
  | diagnostics => "diagnostics"
  | symbol => "symbol"
  | log => "log"

def ofName? (t : Text) : Option RecordType := [diagnostics, symbol, log].find? (·.name == t)

def read [Field.Coercion] (ms : Field.Members) : RecordType → Checked Record
  | diagnostics =>
    (fun p r m => .diagnostic ⟨p, r, m⟩) <$> Field.required ms "path" Field.text
      <*> Field.nested ms "range" Range.read
      <*> Field.required ms "message" Field.text
  | symbol =>
    (fun k n g p r => .symbol ⟨k, n, g, p, r⟩)
      <$> Field.optional ms "kind" none (fun v => .ok (SymbolKind.ofValue? v))
      <*> Field.required ms "name" Field.text
      <*> Field.optional ms "package" [] Field.text
      <*> Field.required ms "path" Field.text
      <*> Field.nested ms "range" Range.read
  | log =>
    (fun l m => .log ⟨l, m⟩) <$> Field.optional ms "level" "info" Field.text
      <*> Field.optional ms "message" [] Field.text

end RecordType

def typeName? (ms : Field.Members) : Option Text :=
  match Field.lookup ms "type" with
  | some (.str t) => some t
  | _ => none

def typeWord : Value → Text
  | .null => "NoneType"
  | .bool _ => "bool"
  | .int _ => "int"
  | .float _ => "float"
  | .str _ => "str"
  | .arr _ => "list"
  | .obj _ => "dict"

end Workbench
