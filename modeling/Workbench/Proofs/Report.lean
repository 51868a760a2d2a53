import Workbench.Proofs.Json.Writing
import Workbench.Proofs.Record.Coordinates
import Workbench.Report

/-! # Reports are read back

A report names each of its fields once and nests to a small depth. So it is a value that the
reader takes if the texts in it hold no lone surrogate and its numbers are bounded.
-/

namespace Workbench

open Json (Value integerLimit)

variable {depth n : ℕ}

/-! ## What reports tell of -/

structure Diagnostic.Plain (d : Diagnostic) : Prop where
  path : d.path.Scalar
  uri : d.uri.Scalar
  range : d.range.Bounded
  message : d.message.Scalar

structure Symbol.Plain (s : Symbol) : Prop where
  name : s.name.Scalar
  container : s.container.Scalar
  path : s.path.Scalar
  uri : s.uri.Scalar
  range : s.range.Bounded

structure DiagnosticsByPath.Plain (ds : DiagnosticsByPath) : Prop where
  nodup : ds.keys.Nodup
  paths : ∀ e ∈ ds.entries, e.1.Scalar
  diagnostics : ∀ e ∈ ds.entries, ∀ d ∈ e.2, d.Plain

structure BuildResult.Plain (r : BuildResult) : Prop where
  root : r.root.Scalar
  exitCode : ∀ n, r.exitCode = some n → n.natAbs < 10 ^ integerLimit
  diagnosticCount : r.diagnosticCount < 10 ^ integerLimit
  symbolCount : r.symbolCount < 10 ^ integerLimit
  decodeErrors : r.decodeErrors < 10 ^ integerLimit
  durationMs : r.durationMs < 10 ^ integerLimit

namespace Report

theorem plain_natural (h : n < 10 ^ integerLimit) : (natural n).Plain depth := .int h

theorem plain_range {r : Range} (h : r.Bounded) : (range r).Plain (depth + 1) := by
  have hn : (["line_start", "col_start", "line_end", "col_end"] : List Text).Nodup := by decide
  refine .obj hn (by simp) ?_
  simp [plain_natural, h.lineStart, h.colStart, h.lineEnd, h.colEnd]

theorem plain_diagnostic {d : Diagnostic} (h : d.Plain) : (diagnostic d).Plain (depth + 2) := by
  have hn : (["path", "uri", "range", "message", "severity"] : List Text).Nodup := by decide
  have hs : d.severity.name.Scalar := by cases d.severity <;> exact Text.scalar_ofString _
  refine .obj hn (by simp) ?_
  simp [Value.Plain.str, plain_range, h.path, h.uri, h.range, h.message, hs]

theorem plain_diagnostics {ds : DiagnosticsByPath} (h : ds.Plain) :
    (diagnostics ds).Plain (depth + 4) := by
  have hn : ((ds.entries.map fun e =>
      (e.1, Value.arr (e.2.map diagnostic))).map Prod.fst).Nodup := by
    rw [List.map_map]
    exact h.nodup
  refine .obj hn ?_ ?_
  · rw [List.forall_mem_map]
    exact h.paths
  · rw [List.forall_mem_map]
    intro e he
    refine .arr ?_
    rw [List.forall_mem_map]
    exact fun d hd => plain_diagnostic (h.diagnostics e he d hd)

theorem plain_shownSymbol {s : Symbol} (h : s.Plain) : (shownSymbol s).Plain (depth + 2) := by
  have hn : (["name", "kind", "container_name", "path", "uri", "range", "editor_kind"] :
      List Text).Nodup := by decide
  have hk : (nullable (fun k : SymbolKind => .str k.name) s.kind).Plain (depth + 1) := by
    cases s.kind with
    | none => exact .null
    | some k => exact .str (by cases k <;> exact Text.scalar_ofString _)
  have he : s.editorKind.Scalar := by
    unfold Symbol.editorKind
    cases s.kind with
    | none => exact Text.scalar_ofString _
    | some k => cases k <;> exact Text.scalar_ofString _
  refine .obj hn (by simp [symbolMembers, Field.member]) ?_
  simp [symbolMembers, Field.member, Value.Plain.str, plain_range, h.name, hk, h.container, h.path,
    h.uri, h.range, he]

theorem plain_shownSymbols {ss : List Symbol} (h : ∀ s ∈ ss, s.Plain) :
    (Value.arr (ss.map shownSymbol)).Plain (depth + 3) := by
  refine .arr ?_
  rw [List.forall_mem_map]
  exact fun s hs => plain_shownSymbol (h s hs)

theorem plain_found {query : Text} {ss : List Symbol} (hq : query.Scalar)
    (h : ∀ s ∈ ss, s.Plain) : (found query ss).Plain (depth + 4) := by
  have hn : (["query", "symbols"] : List Text).Nodup := by decide
  exact .obj hn (by simp) (List.forall_mem_cons.mpr ⟨.str hq,
    List.forall_mem_singleton.mpr (plain_shownSymbols h)⟩)

theorem plain_buildResult {r : BuildResult} (h : r.Plain) :
    (buildResult r).Plain (depth + 1) := by
  have hn : (["root", "exit_code", "diagnostic_count", "symbol_count", "decode_errors",
      "duration_ms", "symbols_committed"] : List Text).Nodup := by decide
  have hc : (nullable .int r.exitCode).Plain depth := by
    cases he : r.exitCode with
    | none => exact .null
    | some n => exact .int (h.exitCode n he)
  refine .obj hn (by simp) ?_
  simp [plain_natural, Value.Plain.str, Value.Plain.bool, h.root, hc, h.diagnosticCount,
    h.symbolCount, h.decodeErrors, h.durationMs]

end Report

end Workbench
