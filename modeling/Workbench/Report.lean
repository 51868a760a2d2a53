import Workbench.Build.Result
import Workbench.Index.Diagnostics
import Workbench.Index.Symbols

/-! # Reports

What is told of builds, diagnostics and symbols as values, with the names of
the fields in a fixed order.
-/

namespace Workbench.Report

open Json (Value)

def natural (n : Nat) : Value := .int n

def texts (ts : List Text) : Value := .arr (ts.map .str)

def nullable {α : Type} (f : α → Value) : Option α → Value
  | none => .null
  | some a => f a

def range (r : Range) : Value :=
  .obj [("line_start", natural r.lineStart), ("col_start", natural r.colStart),
    ("line_end", natural r.lineEnd), ("col_end", natural r.colEnd)]

def diagnostic (d : Diagnostic) : Value :=
  .obj [("path", .str d.path), ("uri", .str d.uri), ("range", range d.range),
    ("message", .str d.message), ("severity", .str d.severity.name)]

def diagnostics (ds : DiagnosticsByPath) : Value :=
  .obj (ds.entries.map fun e => (e.1, .arr (e.2.map diagnostic)))

def symbolMembers (s : Symbol) : Field.Members :=
  [("name", .str s.name), ("kind", nullable (fun k => .str k.name) s.kind),
    ("container_name", .str s.container), ("path", .str s.path), ("uri", .str s.uri),
    ("range", range s.range)]

def symbol (s : Symbol) : Value := .obj (symbolMembers s)

def shownSymbol (s : Symbol) : Value :=
  .obj (symbolMembers s ++ Field.member "editor_kind" (.str s.editorKind))

def buildResult (r : BuildResult) : Value :=
  .obj [("root", .str r.root), ("exit_code", nullable .int r.exitCode),
    ("diagnostic_count", natural r.diagnosticCount), ("symbol_count", natural r.symbolCount),
    ("decode_errors", natural r.decodeErrors), ("duration_ms", natural r.durationMs),
    ("symbols_committed", .bool r.symbolsCommitted)]

def found (query : Text) (symbols : List Symbol) : Value :=
  .obj [("query", .str query), ("symbols", .arr (symbols.map shownSymbol))]

end Workbench.Report
