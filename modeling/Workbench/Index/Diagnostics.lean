import Workbench.Path.Normal
import Workbench.Record

/-! # Diagnostics of workspace roots

For each root, the diagnostics of its last build by path. A commit replaces
everything that was known of the root.
-/

namespace Workbench

variable [Path.WorkingDirectory]

inductive Severity where
  | error
  | warning
  | info
  | hint
deriving DecidableEq, Inhabited

def Severity.name : Severity → Text
  | error => "error"
  | warning => "warning"
  | info => "info"
  | hint => "hint"

def Severity.ofName? (t : Text) : Option Severity :=
  [error, warning, info, hint].find? (·.name == t)

structure Diagnostic where
  path : Text
  uri : Text
  range : Range
  message : Text
  severity : Severity := .error
deriving DecidableEq, Inhabited

def Diagnostic.read [Field.Coercion] (ms : Field.Members) : Checked Diagnostic :=
  Diagnostic.mk <$> Field.required ms "path" Field.text
    <*> Field.required ms "uri" Field.text
    <*> Field.nested ms "range" Range.read
    <*> Field.required ms "message" Field.text
    <*> Field.optional ms "severity" .error fun
      | .str t => match Severity.ofName? t with
        | some s => .ok s
        | none => .error .notListed
      | _ => .error .notListed

abbrev DiagnosticsByPath := OrderedMap Text (List Diagnostic)

structure DiagnosticIndex where
  byRoot : OrderedMap Text DiagnosticsByPath := {}
deriving Inhabited, DecidableEq

namespace DiagnosticIndex

def commit (x : DiagnosticIndex) (root : Text) (ds : DiagnosticsByPath) : DiagnosticIndex :=
  ⟨x.byRoot.insert (Path.rootKey root) ds⟩

def get (x : DiagnosticIndex) (root : Text) : DiagnosticsByPath :=
  x.byRoot.getD (Path.rootKey root) {}

def count (x : DiagnosticIndex) (root : Text) : Nat :=
  (x.get root).values.flatten.length

def roots (x : DiagnosticIndex) : List Text := x.byRoot.keys.mergeSort Text.le

def summary (x : DiagnosticIndex) : Text :=
  "DiagnosticIndex(roots=" ++ Text.ofNat x.byRoot.size ++ ")"

end DiagnosticIndex

end Workbench
