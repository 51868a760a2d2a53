import Workbench.Build.Result
import Workbench.Editor
import Workbench.Index.Diagnostics
import Workbench.Index.Symbols
import Workbench.Stream.Pump
import Workbench.Toolchain
import Workbench.World

/-! # Build sessions

One build of one workspace root. What the build prints is gathered while it
runs and committed after it has ended: diagnostics always, symbols only after
success. A session that crashes commits nothing and kills its process.
-/

namespace Workbench

variable [Surroundings]

inductive SessionState where
  | created
  | running
  | committing
  | done
deriving DecidableEq, Inhabited

def SessionState.name : SessionState → Text
  | created => "created"
  | running => "running"
  | committing => "committing"
  | done => "done"

structure Indices where
  diagnostics : DiagnosticIndex := {}
  symbols : SymbolIndex := {}
deriving Inhabited, DecidableEq

def DiagnosticRecord.located (r : DiagnosticRecord) (uri : Text) : Diagnostic :=
  ⟨r.path, uri, r.range, r.message, .error⟩

def SymbolRecord.located (r : SymbolRecord) (uri : Text) : Symbol :=
  ⟨r.name, r.kind, r.package, r.path, uri, r.range⟩

structure Findings where
  diagnostics : DiagnosticsByPath := {}
  symbols : List Symbol := []
  byFile : SymbolsByFile := {}
deriving Inhabited, DecidableEq

namespace Findings

def addDiagnostic (f : Findings) (d : Diagnostic) : Findings :=
  { f with diagnostics := f.diagnostics.push d.path d }

def addSymbol (f : Findings) (s : Symbol) : Findings :=
  { f with symbols := f.symbols ++ [s], byFile := f.byFile.push s.uri s }

def diagnosticCount (f : Findings) : Nat := f.diagnostics.values.flatten.length

end Findings

/-- Publishes what a build told: symbols only if it succeeded. -/
def Indices.commit (x : Indices) (root : Text) (f : Findings) (code : Option Int) : Indices where
  diagnostics := x.diagnostics.commit root f.diagnostics
  symbols := if code = some 0 then x.symbols.commitFiles root f.symbols f.byFile else x.symbols

/-- What a session does on its way: it enters a state, or it commits its findings. -/
inductive Session.Mark where
  | entered (st : SessionState)
  | committed
deriving DecidableEq, Inhabited

structure Session where
  root : Text
  toolchain : Toolchain
  /-- What the session has done on its way, in order. -/
  life : List Session.Mark := [.entered .created]
  decoder : Decoder := {}
  counts : RouteCounts := {}
  findings : Findings := {}
deriving Inhabited

namespace Session

def create (root : Text) (t : Toolchain) : Session :=
  { root := Path.absolute root, toolchain := t }

def Mark.state? : Mark → Option SessionState
  | entered st => some st
  | committed => none

def passed (s : Session) : List SessionState := s.life.filterMap Mark.state?

def state (s : Session) : SessionState := s.passed.getLastD .created

def enter (s : Session) (st : SessionState) : Session := { s with life := s.life ++ [.entered st] }

def summary (s : Session) : Text :=
  "BuildSession(root=" ++ s.root.quoted ++ ", state=" ++ s.state.name.quoted ++ ")"

def command (s : Session) : List Text := s.toolchain.command Toolchain.buildArgs

def spawn (s : Session) (w : World) : Start × World := w.spawn s.command (some s.root)

def onDiagnostic (root : Text) (r : DiagnosticRecord) (st : Findings × Editor) :
    (Findings × Editor) × Option Crash :=
  match Uri.ofFile r.path root with
  | .error u => (st, some (.unencodable u))
  | .ok uri => ((st.1.addDiagnostic (r.located uri), st.2), none)

def onSymbol (root : Text) (r : SymbolRecord) (st : Findings × Editor) :
    (Findings × Editor) × Option Crash :=
  match Uri.ofFile r.path root with
  | .error u => (st, some (.unencodable u))
  | .ok uri => ((st.1.addSymbol (r.located uri), st.2), none)

def onLine (t : Text) (st : Findings × Editor) : (Findings × Editor) × Option Crash :=
  let out := st.2.appendLine t
  ((st.1, out.1), out.2)

def handlers (root : Text) : Handlers (Findings × Editor) Crash where
  onDiagnostic := some (onDiagnostic root)
  onSymbol := some (onSymbol root)
  onLog := some fun r => onLine r.line
  onDecodeError := some fun e => onLine e.message

def pump (s : Session) (e : Editor) : Pump (Findings × Editor) :=
  ⟨s.decoder, s.counts, (s.findings, e)⟩

def afterPump (s : Session) (out : Pump (Findings × Editor) × Option Crash) :
    Session × Editor × Option Crash :=
  ({ s with decoder := out.1.decoder, counts := out.1.counts, findings := out.1.state.1 },
    out.1.state.2, out.2)

def readOutput (s : Session) (e : Editor) (chunks : List (List UInt8)) :
    Session × Editor × Option Crash :=
  s.afterPump (Pump.readAll (handlers s.root) (s.pump e) (chunks.map .bytes))

def readPart (s : Session) (e : Editor) : Option (List UInt8) → Session × Editor × Option Crash
  | some chunk => s.afterPump (Pump.readChunk (handlers s.root) (s.pump e) (.bytes chunk))
  | none => s.afterPump (Pump.readLast (handlers s.root) (s.pump e))

/-- Hands a chunk of the error stream to the editor, behind a character that has begun. -/
def forwardChunk (q : Utf8.State × Editor) (chunk : List UInt8) :
    (Utf8.State × Editor) × Option Crash :=
  let t := Utf8.feed q.1 chunk
  let out := q.2.append t.1
  ((t.2, out.1), out.2)

def forwardTail (u : Utf8.State) (e : Editor) : Editor × Option Crash :=
  match Utf8.finish u with
  | [] => (e, none)
  | tail => e.append tail

def forwardErrors (e : Editor) (chunks : List (List UInt8)) : Editor × Option Crash :=
  match foldUntil forwardChunk (.start, e) chunks with
  | ((_, e), some c) => (e, some c)
  | ((u, e), none) => forwardTail u e

/-- Leaves the process; one that has reported no status is killed and waited for. -/
def release (s : Session) (p : Process) : Session × Process :=
  if p.status.isNone then (s.enter .done, p.kill.wait) else (s, p)

def commit (s : Session) (x : Indices) (code : Option Int) : Session × Indices :=
  ({ s with life := s.life ++ [.committed] }, x.commit s.root s.findings code)

def result (s : Session) (code : Option Int) : BuildResult where
  root := s.root
  exitCode := code
  diagnosticCount := s.findings.diagnosticCount
  symbolCount := s.findings.symbols.length
  decodeErrors := s.decoder.errors
  symbolsCommitted := code == some 0

structure Ending where
  session : Session
  indices : Indices
  editor : Editor
  /-- The process, if it was started. -/
  process : Option Process
  result : Except Problem BuildResult

def Ending.killed (x : Ending) : Bool := x.process.any Process.killed

/-- Leaves the session when both streams have ended: after a crash nothing is
committed, otherwise the status is waited for and the findings are committed. A
process without a status is killed. -/
def leave (s : Session) (p : Script) (crash : Option Crash) (x : Indices) (e : Editor) : Ending :=
  match crash with
  | some c =>
    let left := s.release { exit := p.exit }
    ⟨left.1, x, e, some left.2, .error (.crash c)⟩
  | none =>
    let code := p.exit.code
    let left := s.release (Process.wait { exit := p.exit })
    let out := (left.1.enter .committing).commit x code
    let e := if code = some 0 then e else e.showOutput
    ⟨out.1.enter .done, out.2, e, some left.2, .ok (out.1.result code)⟩

/-- What becomes of the session when its process does not start: it is done, unless that is a
crash. -/
def unstarted (s : Session) : StartFault → Session
  | .refused _ => s.enter .done
  | .malformed _ => s

def run (s : Session) (start : Start) (x : Indices) (e : Editor) : Ending :=
  match start with
  | .error fault => ⟨s.unstarted fault, x, e, none, .error (fault.problem s.command)⟩
  | .ok p =>
    let out := (s.enter .running).readOutput e p.outChunks
    let errors := forwardErrors out.2.1 p.errChunks
    out.1.leave p (out.2.2.or errors.2) x errors.1

end Session

end Workbench
