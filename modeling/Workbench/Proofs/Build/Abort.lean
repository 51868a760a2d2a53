import Workbench.Proofs.Build.Commit
import Workbench.Proofs.Editor

/-! # Builds that are given up

A session has no result when its process could not be started, when a handler refuses
an item of the output, when a line cannot be read, or when the editor does not take a piece of
the error stream. What was gathered until then is lost: the indices are those from before, and
the process is not left behind.
-/

namespace Workbench

namespace Session

variable [Surroundings]

/-- Why a handler ends the reading: a file has no URI, or the editor does not take a line. -/
inductive Refused (root : Text) (e : Editor) : Item → Crash → Prop where
  | diagnostic {r : DiagnosticRecord} {u : Uri.Unencodable}
      (h : Uri.ofFile r.path root = .error u) :
      Refused root e (.record (.diagnostic r)) (.unencodable u)
  | symbol {r : SymbolRecord} {u : Uri.Unencodable} (h : Uri.ofFile r.path root = .error u) :
      Refused root e (.record (.symbol r)) (.unencodable u)
  | log {r : LogRecord} (h : e.takes .line = false) :
      Refused root e (.record (.log r)) .closedOutput
  | failure {f : DecodeError} (h : e.takes .line = false) :
      Refused root e (.failure f) .closedOutput

variable {root : Text} {item : Item} {c : Crash} {st : Findings × Editor}

omit [Surroundings] in
theorem onLine_eq_some_iff (t : Text) :
    (onLine t st).2 = some c ↔ st.2.takes .line = false ∧ c = .closedOutput := by
  rw [onLine, Editor.appendLine, Editor.add]
  cases st.2.takes .line
  · simp [eq_comm]
  · simp

theorem onDiagnostic_eq_some_iff (r : DiagnosticRecord) :
    (onDiagnostic root r st).2 = some c ↔
      ∃ u, Uri.ofFile r.path root = .error u ∧ c = .unencodable u := by
  unfold onDiagnostic
  cases Uri.ofFile r.path root <;> simp [eq_comm]

theorem onSymbol_eq_some_iff (r : SymbolRecord) :
    (onSymbol root r st).2 = some c ↔
      ∃ u, Uri.ofFile r.path root = .error u ∧ c = .unencodable u := by
  unfold onSymbol
  cases Uri.ofFile r.path root <;> simp [eq_comm]

theorem dispatch_handlers_eq_some_iff :
    ((handlers root).dispatch item st).2 = some c ↔ Refused root st.2 item c := by
  constructor
  · intro h
    cases item with
    | failure f =>
      obtain ⟨ht, rfl⟩ := (onLine_eq_some_iff f.message).mp h
      exact .failure ht
    | record r =>
      cases r with
      | unknown type ms => cases h
      | log r =>
        obtain ⟨ht, rfl⟩ := (onLine_eq_some_iff r.line).mp h
        exact .log ht
      | diagnostic r =>
        obtain ⟨u, hu, rfl⟩ := (onDiagnostic_eq_some_iff r).mp h
        exact .diagnostic hu
      | symbol r =>
        obtain ⟨u, hu, rfl⟩ := (onSymbol_eq_some_iff r).mp h
        exact .symbol hu
  · intro h
    cases h with
    | diagnostic hu => exact (onDiagnostic_eq_some_iff _).mpr ⟨_, hu, rfl⟩
    | symbol hu => exact (onSymbol_eq_some_iff _).mpr ⟨_, hu, rfl⟩
    | log ht => exact (onLine_eq_some_iff _).mpr ⟨ht, rfl⟩
    | failure ht => exact (onLine_eq_some_iff _).mpr ⟨ht, rfl⟩

/-- What ends the reading of an output with these items: the first item that is refused,
with all items before it handed on, or behind all items a line that cannot be read. -/
inductive Interrupted (root : Text) (e : Editor) : List Item × Option Abort → Crash → Prop where
  | refused {before after : List Item} {item : Item} {a : Option Abort} {c : Crash}
      {q : Routed (Findings × Editor)}
      (hq : Routed.dispatchAll (handlers root) ⟨{}, ({}, e)⟩ before = (q, none))
      (hc : Refused root q.state.2 item c) : Interrupted root e (before ++ item :: after, a) c
  | aborted {items : List Item} {a : Abort} {q : Routed (Findings × Editor)}
      (hq : Routed.dispatchAll (handlers root) ⟨{}, ({}, e)⟩ items = (q, none)) :
      Interrupted root e (items, some a) (.aborted a)

theorem readOutput_eq_some_iff {t : Toolchain} {e : Editor} {chunks : List (List UInt8)} :
    (((create root t).enter .running).readOutput e chunks).2.2 = some c ↔
      Interrupted (Path.absolute root) e (Stream.items chunks.flatten) c := by
  have ha := Pump.agrees_readAll (handlers (Path.absolute root)) ⟨{}, {}, ({}, e)⟩
    (chunks.map .bytes)
  -- The pump hands the items on that its decoder yields, up to the first that is refused.
  have hc : (((create root t).enter .running).readOutput e chunks).2.2 =
      (Routed.dispatchAll (handlers (Path.absolute root)) ⟨{}, ({}, e)⟩
        (Stream.items chunks.flatten).1).2.or ((Stream.items chunks.flatten).2.map .aborted) := by
    rw [← Decoder.fresh_items, ← Decoder.fresh_aborted]
    exact ha.ending
  rw [hc]
  rcases hi : Stream.items chunks.flatten with ⟨items, a⟩
  constructor
  · intro h
    rcases hd : Routed.dispatchAll (handlers (Path.absolute root)) ⟨{}, ({}, e)⟩ items with
      ⟨q, _ | c'⟩
    · rw [hd, Option.none_or] at h
      obtain ⟨a, rfl, rfl⟩ := Option.map_eq_some_iff.mp h
      exact .aborted hd
    · have hs := congrArg Prod.snd hd
      rw [hd, Option.some_or] at h
      cases h
      obtain ⟨before, item, after, q, rfl, hq, hr⟩ := foldUntil_eq_some_iff.mp hs
      exact .refused hq (dispatch_handlers_eq_some_iff.mp hr)
  · intro h
    cases h with
    | @refused before after item _ _ q hq hr =>
      have hs := foldUntil_eq_some_iff.mpr
        ⟨before, item, after, q, rfl, hq, dispatch_handlers_eq_some_iff.mpr hr⟩
      exact Option.or_eq_some_iff.mpr (.inl hs)
    | aborted hq =>
      rw [hq]
      rfl

theorem dispatch_keeps {P : Editor → Prop} (hP : ∀ e t, P e → P (e.appendLine t).1) (root : Text)
    (item : Item) {st : Findings × Editor} (h : P st.2) :
    P ((handlers root).dispatch item st).1.2 := by
  cases item with
  | failure f => exact hP _ _ h
  | record r =>
    cases r with
    | log r => exact hP _ _ h
    | unknown => exact h
    | diagnostic r =>
      change P (onDiagnostic root r st).1.2
      unfold onDiagnostic
      split <;> exact h
    | symbol r =>
      change P (onSymbol root r st).1.2
      unfold onSymbol
      split <;> exact h

/-! ## The error stream -/

/-- The pieces in which an error stream is handed on, behind a character that has begun. -/
def pieces (u : Utf8.State) : List (List UInt8) → List Text
  | [] => [Utf8.finish u].filter (· ≠ [])
  | chunk :: chunks => (Utf8.feed u chunk).1 :: pieces (Utf8.feed u chunk).2 chunks

omit [Surroundings] in
theorem forwardTail_eq (u : Utf8.State) (e : Editor) :
    forwardTail u e = foldUntil (Editor.add · .piece ·) e (pieces u []) := by
  unfold forwardTail pieces
  split
  · next h => rw [h]; rfl
  · next h =>
    rw [List.filter_cons_of_pos (by simpa using h)]
    exact (foldUntil_singleton _ _ _).symm

omit [Surroundings] in
theorem forwardErrors_eq (e : Editor) (chunks : List (List UInt8)) :
    forwardErrors e chunks = foldUntil (Editor.add · .piece ·) e (pieces .start chunks) := by
  unfold forwardErrors
  generalize Utf8.State.start = u
  induction chunks generalizing u e with
  | nil => exact forwardTail_eq u e
  | cons chunk chunks ih =>
    rw [foldUntil, pieces, foldUntil, forwardChunk, Editor.append]
    dsimp only
    rcases e.add .piece (Utf8.feed u chunk).1 with ⟨e', _ | c⟩
    · exact ih e' _
    · rfl

omit [Surroundings] in
theorem crash_of_forwardErrors {e : Editor} {chunks : List (List UInt8)}
    (h : (forwardErrors e chunks).2 = some c) : c = .closedOutput := by
  have ht := Editor.tells_foldUntil e .piece (pieces .start chunks)
  rw [← forwardErrors_eq] at ht
  generalize forwardErrors e chunks = r at ht h
  cases ht with
  | all => cases h
  | refused => exact (Option.some.inj h).symm

variable {t : Toolchain} {start : Start} {p : Script} {x : Indices} {e : Editor} {out : Ending}

/-- What keeps a session whose process runs from a result: the reading of its output is
interrupted, or else the editor does not take a piece of the error stream. -/
inductive Broken (root : Text) (e : Editor) (p : Script) : Crash → Prop where
  | output {c : Crash} (h : Interrupted root e (Stream.items p.out) c) : Broken root e p c
  | errors (h : ∀ c, ¬ Interrupted root e (Stream.items p.out) c)
      (hp : ¬ e.Takes .piece (pieces .start p.errChunks).length) : Broken root e p .closedOutput

theorem process_leave_some (s : Session) (c : Crash) :
    (s.leave p (some c) x e).process.map Process.calls =
      some (if p.exit.known = none then [.kill (p.exit ≠ .gone), .wait] else []) := by
  rw [leave, release]
  rcases p.exit with n | n | _ | _ <;> rfl

theorem readOutput_keeps {P : Editor → Prop} (hP : ∀ e t, P e → P (e.appendLine t).1) (s : Session)
    (chunks : List (List UInt8)) (h : P e) : P (s.readOutput e chunks).2.1 := by
  have ha := Pump.agrees_readAll (handlers s.root) (s.pump e) (chunks.map .bytes)
  exact ha.keeps (P := fun st => P st.2) (fun item _ => dispatch_keeps hP s.root item) h

theorem next_readOutput (s : Session) (e : Editor) (chunks : List (List UInt8)) :
    (s.readOutput e chunks).2.1.next .piece = e.next .piece :=
  s.readOutput_keeps (P := fun e' => e'.next .piece = e.next .piece)
    (fun e' t h => (e'.next_add .line t .piece).trans h) chunks rfl

theorem run_ok (root : Text) (t : Toolchain) (p : Script) (x : Indices) (e : Editor) :
    (∃ c, Broken (Path.absolute root) e p c ∧
      ((create root t).run (.ok p) x e).result = .error (.crash c) ∧
      ((create root t).run (.ok p) x e).indices = x ∧
      ((create root t).run (.ok p) x e).process.map Process.calls =
        some (if p.exit.known = none then [.kill (p.exit ≠ .gone), .wait] else [])) ∨
    ((∀ c, ¬ Broken (Path.absolute root) e p c) ∧
      ∃ r, ((create root t).run (.ok p) x e).result = .ok r) := by
  have hi (c : Crash) : (((create root t).enter .running).readOutput e p.outChunks).2.2 =
      some c ↔ Interrupted (Path.absolute root) e (Stream.items p.out) c := by
    rw [readOutput_eq_some_iff, show p.outChunks.flatten = p.out from flatten_chunksOf _ _]
  have he : (forwardErrors (((create root t).enter .running).readOutput e p.outChunks).2.1
      p.errChunks).2 = none ↔ e.Takes .piece (pieces .start p.errChunks).length := by
    rw [forwardErrors_eq, (Editor.tells_foldUntil _ _ _).snd_eq_none_iff]
    exact Editor.takes_congr (next_readOutput _ _ _) rfl
  rw [run]
  cases hc : (((create root t).enter .running).readOutput e p.outChunks).2.2 with
  | some c => exact .inl ⟨c, .output ((hi c).mp hc), rfl, rfl, process_leave_some _ c⟩
  | none =>
    have hno (c : Crash) : ¬ Interrupted (Path.absolute root) e (Stream.items p.out) c := by
      intro h
      cases hc.symm.trans ((hi c).mpr h)
    rw [Option.none_or]
    cases hf : (forwardErrors (((create root t).enter .running).readOutput e p.outChunks).2.1
        p.errChunks).2 with
    | some c =>
      have hp := mt he.mpr (by rw [hf]; exact Option.some_ne_none c)
      obtain rfl := crash_of_forwardErrors hf
      exact .inl ⟨_, .errors hno hp, rfl, rfl, process_leave_some _ _⟩
    | none =>
      refine .inr ⟨fun c h => ?_, _, (leave_none _).2⟩
      cases h with
      | output h => exact hno c h
      | errors _ hp => exact hp (he.mp hf)

/-- A session stops without a result just when its process cannot be started, when reading its
output is interrupted, after however many items, or when the editor does not take a piece of the
error stream. Both indices are then as they were, for every root and every file. A process that
was started and has reported no status has been killed and then waited for, also when the kill
found it gone. -/
theorem run_stopped (ho : (create root t).run start x e = out) :
    ((∃ problem, out.result = .error problem) ↔
      (∃ fault, start = .error fault) ∨
        ∃ p c, start = .ok p ∧ Broken (Path.absolute root) e p c) ∧
    ∀ problem, out.result = .error problem →
      out.indices = x ∧
      (∀ fault, start = .error fault → out.process = none) ∧
      ∀ p, start = .ok p → out.process.map Process.calls =
        some (if p.exit.known = none then [.kill (p.exit ≠ .gone), .wait] else []) := by
  subst ho
  cases start with
  | error fault =>
    refine ⟨iff_of_true ⟨_, rfl⟩ (.inl ⟨fault, rfl⟩), fun problem _ => ⟨rfl, fun _ _ => rfl, ?_⟩⟩
    exact nofun
  | ok p =>
    rcases run_ok root t p x e with ⟨c, hc, hr, hx, hp⟩ | ⟨hc, r, hr⟩
    · refine ⟨iff_of_true ⟨_, hr⟩ (.inr ⟨p, c, rfl, hc⟩), fun problem _ => ⟨hx, nofun, ?_⟩⟩
      rintro _ ⟨⟩
      exact hp
    · rw [hr]
      refine ⟨iff_of_false nofun ?_, nofun⟩
      rintro (⟨_, ⟨⟩⟩ | ⟨_, c, ⟨⟩, h⟩)
      exact hc c h

end Session

open Surroundings in
theorem Session.run_stopped_of_refused_line :
    ∃ (p : Script) (out : Ending), p.exit = .gone ∧
      (create [] default).run (.ok p) (Indices.commit {} [] {} none)
        { nextLines := [true, false] } =
        out ∧
      (Stream.items p.out).1.length = 4 ∧
      ((Stream.items p.out).1.filterMap Stream.symbolRecord?).length = 1 ∧
      (∃ problem, out.result = .error problem) ∧
      out.indices = Indices.commit {} [] {} none ∧
      out.process.map Process.calls = some [.kill false, .wait] := by
  obtain ⟨p, hp, hl, hs, hx⟩ : ∃ p : Script, p.exit = .gone ∧
      (Stream.items p.out).1.length = 4 ∧
      ((Stream.items p.out).1.filterMap Stream.symbolRecord?).length = 1 ∧
      ((create [] default).run (.ok p) (Indices.commit {} [] {} none)
        { nextLines := [true, false] }).result.toOption.isNone := by
    refine ⟨{ out := Utf8.encode "[\n" ++ SymbolRecord.printed ⟨none, "A", [], "a", default⟩ ++
                Utf8.encode "\n[\n\x7b\x7d", exit := .gone }, rfl, ?_⟩
    decide +kernel
  obtain ⟨problem, hr⟩ : ∃ problem, ((create [] default).run (.ok p) (Indices.commit {} [] {} none)
      { nextLines := [true, false] }).result = .error problem := by
    revert hx
    cases ((create [] default).run (.ok p) (Indices.commit {} [] {} none)
        { nextLines := [true, false] }).result with
    | error problem => exact fun _ => ⟨problem, rfl⟩
    | ok => exact nofun
  obtain ⟨hi, -, hc⟩ := (run_stopped rfl).2 problem hr
  refine ⟨p, _, hp, rfl, hl, hs, ⟨problem, hr⟩, hi, (hc p rfl).trans ?_⟩
  rw [hp]
  rfl

end Workbench
