import Workbench.Report

/-! # The tools

Four tools that an agent may call, each with one parameter.
-/

namespace Workbench

open Json (Value)

inductive Tool where
  | rebuild
  | getDiagnostics
  | documentSymbols
  | workspaceSymbols
deriving DecidableEq

namespace Tool

def all : List Tool := [rebuild, getDiagnostics, documentSymbols, workspaceSymbols]

def name : Tool → Text
  | rebuild => "reproto_rebuild"
  | getDiagnostics => "reproto_get_diagnostics"
  | documentSymbols => "reproto_document_symbols"
  | workspaceSymbols => "reproto_workspace_symbols"

def ofName? (t : Text) : Option Tool := all.find? (·.name == t)

def description : Tool → Text
  | rebuild =>
    "Build a reproto workspace root (a directory holding reproto.toml) " ++
      "and wait for it to finish. Returns the exit code and how many " ++
      "diagnostics and symbols the build produced. Call this before " ++
      "reading diagnostics or symbols for a root."
  | getDiagnostics =>
    "Diagnostics from the last completed build of a root, grouped by root-relative source path."
  | documentSymbols =>
    "Symbols declared in one .reproto file, from the last successful build of its root."
  | workspaceSymbols =>
    "Search every built root for symbols whose name contains the query (case-insensitive). " ++
      "An empty query returns everything."

structure Parameter where
  name : Text
  description : Text
  required : Bool

def parameter : Tool → Parameter
  | rebuild => ⟨"root", "Workspace root directory", true⟩
  | getDiagnostics => ⟨"root", "Workspace root directory", true⟩
  | documentSymbols => ⟨"uri", "file:// URI of the .reproto document", true⟩
  | workspaceSymbols => ⟨"query", "Substring to search for", false⟩

def schema (t : Tool) : Value :=
  let p := t.parameter
  .obj [("type", .str "object"),
    ("properties", .obj [(p.name,
      .obj [("type", .str "string"), ("description", .str p.description)])]),
    ("required", Report.texts (if p.required then [p.name] else []))]

end Tool

end Workbench
