import Mathlib.Data.List.Forall2
import Workbench.Build.Session
import Workbench.Json.Writer
import Workbench.Proofs.OrderedMap
import Workbench.Proofs.Path.Normal
import Workbench.Proofs.Stream.Isolation
import Workbench.Proofs.Stream.Pumping
import Workbench.Report

/-! # What one build commits

The findings of a session are the records of its output in order, each in the file that
its path leads to. A session that has a result has handed on every item, so what it
commits is told by its output and the status of its process alone.
-/

namespace Workbench

open OrderedMap

namespace Stream

def diagnosticRecord? : Item → Option DiagnosticRecord
  | .record (.diagnostic r) => some r
  | _ => none

def symbolRecord? : Item → Option SymbolRecord
  | .record (.symbol r) => some r
  | _ => none

end Stream

namespace Findings

def add (f : Findings) (ds : List Diagnostic) (ss : List Symbol) : Findings where
  diagnostics := ds.foldl (fun m d => m.push d.path d) f.diagnostics
  symbols := f.symbols ++ ss
  byFile := ss.foldl (fun m s => m.push s.uri s) f.byFile

theorem add_nil (f : Findings) : f.add [] [] = f := by
  simp [add]

theorem add_add (f : Findings) (ds ds' : List Diagnostic) (ss ss' : List Symbol) :
    (f.add ds ss).add ds' ss' = f.add (ds ++ ds') (ss ++ ss') := by
  simp [add]

theorem add_empty_diagnostics (ds : List Diagnostic) (ss : List Symbol) :
    (add {} ds ss).diagnostics = grouped Diagnostic.path id ds :=
  pushed_eq_grouped Diagnostic.path id ds

theorem add_empty_byFile (ds : List Diagnostic) (ss : List Symbol) :
    (add {} ds ss).byFile = grouped Symbol.uri id ss :=
  pushed_eq_grouped Symbol.uri id ss

end Findings

section

variable [Path.WorkingDirectory]

def DiagnosticRecord.LocatedIn (root : Text) (r : DiagnosticRecord) (d : Diagnostic) : Prop :=
  ∃ uri, Uri.ofFile r.path root = .ok uri ∧ d = r.located uri

def SymbolRecord.LocatedIn (root : Text) (r : SymbolRecord) (s : Symbol) : Prop :=
  ∃ uri, Uri.ofFile r.path root = .ok uri ∧ s = r.located uri

/-! ## Gathering -/

/-- The diagnostics and the symbols that some items tell of, in order. -/
structure Gathered (root : Text) (items : List Item) (ds : List Diagnostic)
    (ss : List Symbol) : Prop where
  diagnostics : List.Forall₂ (DiagnosticRecord.LocatedIn root)
    (items.filterMap Stream.diagnosticRecord?) ds
  symbols : List.Forall₂ (SymbolRecord.LocatedIn root) (items.filterMap Stream.symbolRecord?) ss

namespace Gathered

variable {root : Text} {items items' : List Item} {ds ds' : List Diagnostic} {ss ss' : List Symbol}

theorem nil : Gathered root [] [] [] := ⟨.nil, .nil⟩

theorem append (h : Gathered root items ds ss) (h' : Gathered root items' ds' ss') :
    Gathered root (items ++ items') (ds ++ ds') (ss ++ ss') := by
  constructor
  · rw [List.filterMap_append]
    exact List.rel_append h.diagnostics h'.diagnostics
  · rw [List.filterMap_append]
    exact List.rel_append h.symbols h'.symbols

end Gathered

/-! ## Committing -/

theorem DiagnosticIndex.get?_commit (x : DiagnosticIndex) (root : Text) (ds : DiagnosticsByPath)
    (key : Text) : (x.commit root ds).byRoot.get? key =
      if Path.rootKey root = key then some ds else x.byRoot.get? key :=
  get?_insert _ _ _ _

theorem DiagnosticIndex.count_commit (x : DiagnosticIndex) {root other : Text}
    (h : Path.rootKey root = Path.rootKey other) (ds : DiagnosticsByPath) :
    (x.commit root ds).count other = ds.values.flatten.length := by
  rw [count, get, getD, get?_commit, if_pos h]
  rfl

theorem SymbolIndex.get?_byRoot_commitFiles (x : SymbolIndex) (root : Text)
    (symbols : List Symbol) (files : SymbolsByFile) (key : Text) :
    (x.commitFiles root symbols files).byRoot.get? key =
      if Path.rootKey root = key then some symbols else x.byRoot.get? key :=
  get?_insert _ _ _ _

/-- Whatever was known before, a file that is mentioned has what was committed. -/
theorem SymbolIndex.forFile_commitFiles (x : SymbolIndex) (root : Text) (symbols : List Symbol)
    {files : SymbolsByFile} (hn : files.keys.Nodup) {uri : Text} (hu : uri ∈ files.keys) :
    (x.commitFiles root symbols files).forFile uri = files.getD uri [] := by
  rw [forFile, getD, commitFiles, get?_insertAll hn, get?_of_mem_keys hu []]
  rfl

end

section

variable [Surroundings]

namespace Session

variable {root : Text}

theorem dispatch_handlers {item : Item} {st st' : Findings × Editor}
    (h : (handlers root).dispatch item st = (st', none)) :
    ∃ ds ss, Gathered root [item] ds ss ∧ st'.1 = st.1.add ds ss := by
  have hkeep (hd : Stream.diagnosticRecord? item = none) (hs : Stream.symbolRecord? item = none)
      (hf : st'.1 = st.1) : ∃ ds ss, Gathered root [item] ds ss ∧ st'.1 = st.1.add ds ss :=
    ⟨[], [], ⟨by simp [hd], by simp [hs]⟩, by rw [hf, Findings.add_nil]⟩
  cases item with
  | failure e => exact hkeep rfl rfl (congrArg (·.1.1) h).symm
  | record r =>
    cases r with
    | log r => exact hkeep rfl rfl (congrArg (·.1.1) h).symm
    | unknown => exact hkeep rfl rfl (congrArg (·.1.1) h).symm
    | diagnostic r =>
      change onDiagnostic root r st = (st', none) at h
      unfold onDiagnostic at h
      split at h
      · cases h
      · next uri hu =>
        cases h
        exact ⟨[r.located uri], [], ⟨.cons ⟨uri, hu, rfl⟩ .nil, .nil⟩, by
          simp [Findings.add, Findings.addDiagnostic]⟩
    | symbol r =>
      change onSymbol root r st = (st', none) at h
      unfold onSymbol at h
      split at h
      · cases h
      · next uri hu =>
        cases h
        exact ⟨[], [r.located uri], ⟨.nil, .cons ⟨uri, hu, rfl⟩ .nil⟩, rfl⟩

theorem dispatchAll_handlers {items : List Item} {r r' : Routed (Findings × Editor)}
    (h : r.dispatchAll (handlers root) items = (r', none)) :
    ∃ ds ss, Gathered root items ds ss ∧ r'.state.1 = r.state.1.add ds ss := by
  induction items generalizing r with
  | nil =>
    cases h
    exact ⟨[], [], .nil, (Findings.add_nil _).symm⟩
  | cons item items ih =>
    rw [← List.singleton_append, Routed.dispatchAll_append, Routed.dispatchAll_singleton] at h
    rcases hd : r.dispatch (handlers root) item with ⟨q, _ | c⟩
    · rw [hd] at h
      have hq : (handlers root).dispatch item r.state = (q.state, none) :=
        Prod.ext (congrArg (·.1.state) hd) (congrArg (·.2) hd)
      obtain ⟨ds, ss, hg, he⟩ := dispatch_handlers hq
      obtain ⟨ds', ss', hg', he'⟩ := ih h
      exact ⟨ds ++ ds', ss ++ ss', hg.append hg', by rw [he', he, Findings.add_add]⟩
    · rw [hd] at h
      cases h

theorem readOutput_create {t : Toolchain} {e : Editor} {chunks : List (List UInt8)}
    (h : (((create root t).enter .running).readOutput e chunks).2.2 = none) :
    Stream.Answers (Stream.lines chunks.flatten) (Stream.items chunks.flatten).1 ∧
    (((create root t).enter .running).readOutput e chunks).1.decoder.errors =
      (Stream.items chunks.flatten).1.countP Item.isFailure ∧
    ∃ ds ss, Gathered (Path.absolute root) (Stream.items chunks.flatten).1 ds ss ∧
      (((create root t).enter .running).readOutput e chunks).1.findings =
        Findings.add {} ds ss := by
  have ha := Pump.agrees_readAll (handlers (Path.absolute root)) ⟨{}, {}, ({}, e)⟩
    (chunks.map .bytes)
  change (Pump.readAll (handlers (Path.absolute root)) ⟨{}, {}, ({}, e)⟩
    (chunks.map .bytes)).2 = none at h
  rw [h] at ha
  obtain ⟨hn, hd⟩ := ha.of_none
  have hi : (Decoder.empty.run (chunks.map .bytes)).items = (Stream.items chunks.flatten).1 :=
    Decoder.fresh_items chunks
  obtain ⟨ds, ss, hg, hf⟩ := dispatchAll_handlers hd
  refine ⟨?_, ?_, ds, ss, ?_, hf⟩
  · rw [← hi]
    exact Decoder.fresh_answers hn
  · refine (congrArg Decoder.errors (ha.decoder rfl)).trans ?_
    rw [← hi]
    exact (Decoder.run_counts Decoder.empty (chunks.map .bytes)).2.trans (Nat.zero_add _)
  · rw [← hi]
    exact hg

variable {t : Toolchain} {p : Script} {x : Indices} {e : Editor} {out : Ending} {r : BuildResult}

omit [Surroundings] in
theorem release_eq (s : Session) (q : Process) :
    ∃ marks, (s.release q).1 = { s with life := marks } := by
  unfold release
  split_ifs
  · exact ⟨_, rfl⟩
  · exact ⟨_, rfl⟩

theorem leave_none (s : Session) :
    (s.leave p none x e).indices = x.commit s.root s.findings p.exit.code ∧
      (s.leave p none x e).result = .ok (s.result p.exit.code) := by
  obtain ⟨marks, hs⟩ := release_eq s (Process.wait { exit := p.exit })
  rw [leave, hs]
  exact ⟨rfl, rfl⟩

theorem findings_leave (s : Session) :
    (s.leave p none x e).session.findings = s.findings := by
  obtain ⟨marks, hs⟩ := release_eq s (Process.wait { exit := p.exit })
  rw [leave, hs]
  rfl

theorem leave_some (s : Session) (c : Crash) :
    (s.leave p (some c) x e).result = .error (.crash c) := rfl

/-- A session with a result has read its output to the end, and has committed what the
output told. -/
theorem run_result (ho : (create root t).run (.ok p) x e = out) (hr : out.result = .ok r) :
    Stream.Answers (Stream.lines p.out) (Stream.items p.out).1 ∧
    ∃ ds ss, Gathered (Path.absolute root) (Stream.items p.out).1 ds ss ∧
      out.indices = x.commit (Path.absolute root) (Findings.add {} ds ss) p.exit.code ∧
      r.exitCode = p.exit.code ∧ (r.symbolsCommitted ↔ r.exitCode = some 0) ∧
      r.diagnosticCount = (Findings.add {} ds ss).diagnosticCount ∧
      r.symbolCount = ss.length ∧
      r.decodeErrors = (Stream.items p.out).1.countP Item.isFailure := by
  subst ho
  rw [run] at hr ⊢
  generalize hc : (((create root t).enter .running).readOutput e p.outChunks).2.2.or
    (forwardErrors _ _).2 = crash at hr ⊢
  cases crash with
  | some c =>
    rw [leave_some] at hr
    cases hr
  | none =>
    rw [(leave_none _).2] at hr
    cases hr
    obtain ⟨hl, he, ds, ss, hg, hf⟩ := readOutput_create (Option.or_eq_none_iff.mp hc).1
    rw [show p.outChunks.flatten = p.out from flatten_chunksOf _ _] at hl he hg
    refine ⟨hl, ds, ss, hg, ?_, rfl, ?_, ?_, ?_, he⟩
    · rw [(leave_none _).1, hf]
      rfl
    · simp [result]
    · rw [result, hf]
    · rw [result, hf]
      rfl

/-- A session that has a result has put the diagnostics of its output in the place of its
root, and its symbols too if the process ended with status zero. Nothing is changed for
another root, and no symbol after another status. Files are told from the root that the
session keeps, the absolute form of the one it is given. -/
theorem run_commits (ho : (create root t).run (.ok p) x e = out) (hr : out.result = .ok r) :
    Stream.Answers (Stream.lines p.out) (Stream.items p.out).1 ∧
    ∃ ds ss, Gathered (Path.absolute root) (Stream.items p.out).1 ds ss ∧
      out.indices.diagnostics.byRoot.get? (Path.rootKey root) =
        some (grouped Diagnostic.path id ds) ∧
      (p.exit.code ≠ some 0 → out.indices.symbols = x.symbols) ∧
      (p.exit.code = some 0 → out.indices.symbols.forRoot root = ss ∧
        ∀ uri ∈ ss.map Symbol.uri, out.indices.symbols.forFile uri = ss.filter (·.uri = uri)) ∧
      (∀ key, key ≠ Path.rootKey root →
        out.indices.diagnostics.byRoot.get? key = x.diagnostics.byRoot.get? key ∧
        out.indices.symbols.byRoot.get? key = x.symbols.byRoot.get? key) ∧
      r.exitCode = p.exit.code ∧
      r.diagnosticCount = out.indices.diagnostics.count root ∧
      r.symbolCount = ((Stream.items p.out).1.filterMap Stream.symbolRecord?).length ∧
      r.decodeErrors = (Stream.items p.out).1.countP Item.isFailure ∧
      (r.symbolsCommitted ↔ r.exitCode = some 0) := by
  obtain ⟨hl, ds, ss, hg, hi, hc, hs, hd, hn, hf⟩ := run_result ho hr
  have hk := Path.rootKey_absolute root
  refine ⟨hl, ds, ss, hg, ?_, ?_, ?_, ?_, hc, ?_, hn.trans hg.symbols.length_eq.symm, hf, hs⟩
  · rw [hi, Indices.commit, DiagnosticIndex.get?_commit, if_pos hk,
      Findings.add_empty_diagnostics]
  · intro h0
    rw [hi, Indices.commit, if_neg h0]
  · intro h0
    rw [hi, Indices.commit, if_pos h0]
    refine ⟨?_, fun uri hu => ?_⟩
    · rw [SymbolIndex.forRoot, getD, SymbolIndex.get?_byRoot_commitFiles, if_pos hk]
      rfl
    · rw [Findings.add_empty_byFile, SymbolIndex.forFile_commitFiles _ _ _
        (nodup_keys_grouped _ _ _) ((mem_keys_grouped _ _).mpr hu), getD_grouped, List.map_id]
  · intro key hne
    have hne' : Path.rootKey (Path.absolute root) ≠ key := fun h => hne (h.symm.trans hk)
    rw [hi, Indices.commit, DiagnosticIndex.get?_commit, if_neg hne']
    refine ⟨rfl, ?_⟩
    split_ifs
    · rw [SymbolIndex.get?_byRoot_commitFiles, if_neg hne']
    · rfl
  · rw [hd, hi]
    exact (DiagnosticIndex.count_commit _ hk _).symm

end Session

end

/-! ## Records as a process prints them -/

open Json (Value)

def DiagnosticRecord.printed (r : DiagnosticRecord) : List UInt8 :=
  Utf8.encode (Value.obj [("type", .str "diagnostics"), ("path", .str r.path),
    ("range", Report.range r.range), ("message", .str r.message)]).compact

def SymbolRecord.printed (r : SymbolRecord) : List UInt8 :=
  Utf8.encode (Value.obj [("type", .str "symbol"),
    ("kind", Report.nullable (fun k => .str k.name) r.kind), ("name", .str r.name),
    ("package", .str r.package), ("path", .str r.path), ("range", Report.range r.range)]).compact

open Surroundings in
theorem Session.run_commits_of_symbol :
    ∃ (p : Script) (r : BuildResult),
      ((create [] default).run (.ok p) {} {}).result = .ok r ∧
      ((Stream.items p.out).1.filterMap Stream.symbolRecord?).length = 1 ∧
      r.symbolCount = 1 ∧ r.symbolsCommitted := by
  obtain ⟨p, hp, hs, hx⟩ : ∃ p : Script, p.exit = .status 0 ∧
      ((Stream.items p.out).1.filterMap Stream.symbolRecord?).length = 1 ∧
      ((create [] default).run (.ok p) {} {}).result.toOption.isSome := by
    refine ⟨{ out := SymbolRecord.printed ⟨none, "A", [], "a", default⟩ }, rfl, ?_⟩
    decide +kernel
  obtain ⟨r, hr⟩ : ∃ r, ((create [] default).run (.ok p) {} {}).result = .ok r := by
    revert hx
    cases ((create [] default).run (.ok p) {} {}).result with
    | error => exact nofun
    | ok r => exact fun _ => ⟨r, rfl⟩
  obtain ⟨-, ds, ss, -, -, -, -, -, hc, -, hn, -, hk⟩ := run_commits rfl hr
  exact ⟨p, r, hr, hs, hn.trans hs, hk.mpr (by rw [hc, hp]; rfl)⟩

end Workbench
