import Workbench.Build.Reading

/-! # Running a toolchain

Short runs of the executable: for its output, for its version, to begin a
project. A version that cannot be found out has a reason and is no problem.
-/

namespace Workbench.Toolchain

variable [Surroundings]

/-- The directory to run in: the one given, unless it is empty, else the toolchain's. -/
def directory (t : Toolchain) (given : Option Text) : Option Text :=
  match given.filter (!·.isEmpty) with
  | some dir => some dir
  | none => t.root

def spawn (t : Toolchain) (args : List Text) (dir : Option Text) (w : World) :
    Except Problem Script × World :=
  let r := w.spawn (t.command args) (t.directory dir)
  (r.1.mapError (·.problem (t.command args)), r.2)

def execute (t : Toolchain) (args : List Text) (w : World) : Except Problem Text × World :=
  let r := t.spawn args none w
  (r.1.bind fun p =>
    if p.exit.code = some 0 then .ok (Utf8.decode p.out)
    else .error (.failure (.process (t.command args) p.exit.code t.root)), r.2)

def versionReport (t : Toolchain) (w : World) : Except Problem Text × World :=
  let r := t.execute versionArgs w
  (r.1.map Text.strip, r.2)

def versionOf (t : Toolchain) (tool : Text) : Except Problem Text → Except Problem Version
  | .error (.crash c) => .error (.crash c)
  | .error (.failure f) => .error (.failure (.versionUnknown t.binary f.message))
  | .ok output =>
    match Version.ofReport tool output with
    | .error f => .error (.crash (.version f))
    | .ok (some v) => .ok v
    | .ok none =>
      .error (.failure (.versionUnknown t.binary ("unrecognised output " ++ output.quoted)))

def probe (t : Toolchain) (tool : Text) (w : World) : Except Problem Version × World :=
  let r := t.versionReport w
  (t.versionOf tool r.1, r.2)

def detect (t : Toolchain) (tool : Text) (w : World) : Except Crash (Option Version) × World :=
  let r := t.probe tool w
  (match r.1 with
    | .ok v => .ok (some v)
    | .error (.failure _) => .ok none
    | .error (.crash c) => .error c, r.2)

/-! ## Beginning a project -/

def initHandlers : Handlers Editor Crash where
  onLog := some fun r e => e.appendLine r.line
  onDecodeError := some fun f e => e.appendLine f.message

def cutLines (bytes : List UInt8) : List (List UInt8) :=
  bytes.foldr (fun b pieces =>
    if b = 10 then [b] :: pieces
    else match pieces with
      | [] => [[b]]
      | piece :: rest => if piece.isEmpty then [b] :: rest else (b :: piece) :: rest) []

/-- How many octets of an error stream a line may have in front of its line feed. -/
def lineLimit : Nat := 65536

/-- Hands a line of the error stream to the editor; one that is too long cannot be read. -/
def forwardLine (e : Editor) (line : List UInt8) : Editor × Option Crash :=
  let content := line.takeWhile (· ≠ 10)
  if lineLimit < content.length then (e, some (.overlongLine (content.length < line.length)))
  else e.append (Utf8.decode line)

/-- A run that begins a project, with a process that runs. Output and error stream are read side
by side. -/
structure Beginning where
  script : Script
  /-- What reads the output, with the editor. -/
  pump : Pump Editor
  /-- The octets of output to come; none when the end has been read. -/
  output : Option (List UInt8)
  /-- The lines of the error stream to come; none when the end has been read. -/
  errors : Option (List (List UInt8))
  /-- What ended the reading of the output. -/
  crash : Option Crash := none
  /-- What ended the reading of the error stream. -/
  fault : Option Crash := none

structure InitRun where
  editor : Editor
  result : Except Problem Unit
  process : Process
  /-- The error stream was read to its end. -/
  drained : Bool

namespace Beginning

def start (p : Script) (e : Editor) : Beginning where
  script := p
  pump := Pump.start e
  output := some p.out
  errors := some (cutLines p.err)

def editor (b : Beginning) : Editor := b.pump.state

def afterPart (b : Beginning) (left : Option (List UInt8)) (out : Pump Editor × Option Crash) :
    Beginning :=
  { b with pump := out.1, output := left, crash := out.2 }

def readOutput (b : Beginning) (arrived : Nat) : Beginning :=
  match b.crash, b.output with
  | none, some [] => b.afterPart none (b.pump.readLast initHandlers)
  | none, some bytes =>
    b.afterPart (some (bytes.drop (Reading.portion arrived)))
      (b.pump.readChunk initHandlers (.bytes (bytes.take (Reading.portion arrived))))
  | _, _ => b

def readError (b : Beginning) : Beginning :=
  match b.fault, b.errors with
  | none, some [] => { b with errors := none }
  | none, some (line :: rest) =>
    let out := forwardLine b.editor line
    { b with pump := { b.pump with state := out.1 }, errors := some rest, fault := out.2 }
  | _, _ => b

/-- What is read next: so much of the output, or a line of the error stream. -/
inductive Part where
  | output (arrived : Nat)
  | error

def readPart (b : Beginning) : Part → Beginning
  | .output arrived => b.readOutput arrived
  | .error => b.readError

def readParts (b : Beginning) (parts : List Part) : Beginning := parts.foldl readPart b

def outputParts (p : Script) : List Part :=
  List.replicate (p.outChunks.length + 1) (.output readSize)

def errorParts (p : Script) : List Part := List.replicate ((cutLines p.err).length + 1) .error

/-- The run is left: after a crash, or when both streams have ended. The error stream is waited
for only when the output has ended. -/
def isOver (b : Beginning) : Bool :=
  b.crash.isSome || b.output.isNone && (b.fault.isSome || b.errors.isNone)

/-- Leaves the run. The status of the process is asked for only if there was no crash. -/
def leave (t : Toolchain) (b : Beginning) : InitRun :=
  let p : Process := { exit := b.script.exit }
  match b.crash.or b.fault with
  | some c => ⟨b.editor, .error (.crash c), p, b.errors.isNone⟩
  | none =>
    let code := p.exit.code
    ⟨b.editor, if code = some 0 then .ok () else
      .error (.failure (.process (t.command initArgs) code t.root)), p.wait, b.errors.isNone⟩

end Beginning

/-- Begins a project with a process that runs, with all output at once and the error stream behind
it. When the run is left before, what the error stream still brings comes to the editor too. -/
def initWith (t : Toolchain) (p : Script) (e : Editor) : InitRun :=
  let b := (Beginning.start p e).readParts (Beginning.outputParts p)
  let after := b.readParts (Beginning.errorParts p)
  { (if b.isOver then b else after).leave t with editor := after.editor }

def initProject (t : Toolchain) (e : Editor) (w : World) :
    Except Problem Unit × Editor × World :=
  let e := e.showOutput
  let r := t.spawn initArgs none w
  match r.1 with
  | .error p => (.error p, e, r.2)
  | .ok p =>
    let run := t.initWith p e
    (run.result, run.editor, r.2)

def runInitCommand (t : Toolchain) (e : Editor) (w : World) :
    Except Crash Bool × Editor × World :=
  match e.appendLine "Command: Initializing new project" with
  | (e, some c) => (.error c, e, w)
  | (e, none) =>
    match t.initProject e w with
    | (.ok (), e, w) => (.ok true, e.showInfo "Project Initialized", w)
    | (.error (.failure f), e, w) =>
      (.ok false, e.showError ("Failed to initialize project: " ++ f.message), w)
    | (.error (.crash c), e, w) => (.error c, e, w)

end Workbench.Toolchain
