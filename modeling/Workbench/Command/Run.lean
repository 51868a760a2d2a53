import Workbench.Build.Schedule
import Workbench.Command.Line
import Workbench.Discovery.Locate
import Workbench.Json.Writer
import Workbench.Report
import Workbench.Toolchain.Invoke

/-! # Running commands

A command locates a toolchain, runs it and reports as JSON. Builds are always
made one by one for each root, whatever the toolchain could do on its own.
-/

namespace Workbench.Command

open Json (Value)

variable [Surroundings]

/-- What a command comes to: a status and a report, if there is one. -/
structure Finish where
  status : Nat
  report : Option Value := none

def unusable : Nat := 2

def statusOf (success : Bool) : Nat := if success then 0 else 1

structure Context where
  settings : Settings
  installer : Option Installer := none

namespace Context

def search (c : Context) (w : World) (root : Text) : Search :=
  ⟨c.settings, w.env, "linux", some root⟩

end Context

/-! ## Builds -/

structure Built where
  scheduler : Scheduler
  tasks : List Nat

namespace Built

def coordinator (b : Built) : Coordinator := b.scheduler.coordinator

def result? (b : Built) (task : Nat) : Option BuildResult :=
  ((b.coordinator.finished.find? (·.task == task)).bind (·.outcome)).map (·.1)

/-- The results of the tasks in order, without those that have none. -/
def results (b : Built) : List BuildResult := b.tasks.filterMap b.result?

/-- Some build ended normally and all that did succeeded. -/
def succeeded (b : Built) : Bool := !b.results.isEmpty && b.results.all (·.succeeded)

def report (b : Built) : Value :=
  let c := b.coordinator
  .obj [("builds", .arr (b.results.map Report.buildResult)),
    ("diagnostics", .object (c.roots.map fun root =>
      (root, Report.diagnostics (c.indices.diagnostics.get root)))),
    ("symbols", .arr (c.roots.flatMap fun root =>
      (c.indices.symbols.forRoot root).map Report.symbol))]

end Built

def buildWith (t : Toolchain) (roots : List Text) (e : Editor) (w : World) : Built :=
  let s : Scheduler := { coordinator := Coordinator.create t roots false e, world := w }
  let r := s.buildAll none
  ⟨r.1.finish, r.2⟩

def build (c : Context) (roots : List Text) (e : Editor) (w : World) : Told (Option Built) :=
  let roots := roots.map Path.absolute
  let installer := if e.confirms then c.installer else none
  match (c.search w (roots.headD [])).locate installer e w with
  | (.error p, e, w) => (.error p, e, w)
  | (.ok none, e, w) => (.ok none, e, w)
  | (.ok (some t), e, w) =>
    let b := buildWith t roots e w
    (.ok (some b), b.coordinator.editor, b.scheduler.world)

/-! ## Commands -/

def withBuilds (c : Context) (roots : List Text) (tell : Built → Finish) (e : Editor) (w : World) :
    Told Finish :=
  match build c roots e w with
  | (.error p, e, w) => (.error p, e, w)
  | (.ok none, e, w) => (.ok ⟨unusable, none⟩, e, w)
  | (.ok (some b), e, w) => (.ok (tell b), e, w)

def withVersion (c : Context) (root : Text) (absent : Finish)
    (go : Toolchain → Option Version → Editor → World → Told Finish) (e : Editor) (w : World) :
    Told Finish :=
  match (c.search w root).locate none e w with
  | (.error p, e, w) => (.error p, e, w)
  | (.ok none, e, w) => (.ok absent, e, w)
  | (.ok (some t), e, w) =>
    match t.detect Host.toolName w with
    | (.error p, w) => (.error p, e, w)
    | (.ok v, w) => go t v e w

def versionReport (c : Context) (lookedIn : List Text) (t : Toolchain) (v : Option Version) :
    Value :=
  .obj [("found", .bool true), ("binary", .str t.binary),
    ("version", Report.nullable (fun v => .str v.text) v),
    ("tier", .str (c.settings.tier v).name), ("looked_in", Report.texts lookedIn)]

def runVersion (c : Context) (e : Editor) (w : World) : Told Finish :=
  let lookedIn := (c.search w Path.workingDirectory).candidates.descriptions
  let absent : Value := .obj [("found", .bool false), ("looked_in", Report.texts lookedIn)]
  withVersion c Path.workingDirectory ⟨unusable, some absent⟩
    (fun t v e w => (.ok ⟨0, some (versionReport c lookedIn t v)⟩, e, w)) e w

def runInit (c : Context) (root : Text) (e : Editor) (w : World) : Told Finish :=
  let root := Path.absolute root
  withVersion c root ⟨unusable, none⟩ (fun t _ e w =>
    match t.runInitCommand e w with
    | (.error p, e, w) => (.error p, e, w)
    | (.ok ok, e, w) =>
      (.ok ⟨statusOf ok, some (.obj [("root", .str root), ("initialized", .bool ok)])⟩, e, w)) e w

def runTask (c : Context) (task : Task) (e : Editor) (w : World) : Told Finish :=
  match task with
  | .build roots =>
    withBuilds c roots (fun b => ⟨statusOf b.succeeded, some b.report⟩) e w
  | .symbols query roots =>
    withBuilds c roots (fun b =>
      ⟨0, some (Report.found query (b.coordinator.indices.symbols.search query))⟩) e w
  | .version => runVersion c e w
  | .init root => runInit c root e w

/-! ## Command lines -/

/-- The settings of an invocation: its options count for more than the environment. -/
def Invocation.over (i : Invocation) (s : Settings) : Settings :=
  { s with
    executable := i.executable.or s.executable
    logLevel := i.logLevel.getD s.logLevel }

inductive Trouble where
  | settings (errors : List Field.Error)
  | crash (c : Crash)

structure Outcome where
  status : Nat
  output : Text
  /-- The line that reports a mistake; an early end without one has an empty line. -/
  usageError : Option Text
  world : World

def helpText : Text :=
  "usage: " ++ programName ++ " [-h] [--version] [--executable EXECUTABLE] [--install]\n" ++
    "                   [--log-level LOG_LEVEL]\n" ++
    "                   \x7bbuild,symbols,version,init\x7d ...\n"

def Stop.outcome (w : World) : Stop → Except Trouble Outcome
  | .help => .ok ⟨0, helpText, some [], w⟩
  | .version => .ok ⟨0, programName ++ " " ++ programVersion ++ "\n", some [], w⟩
  | .error program message => .ok ⟨unusable, [], some (errorLine program message), w⟩
  | .noValue => .error (.crash .noValue)

def Finish.output (f : Finish) : Text :=
  match f.report with
  | none => []
  | some v => v.indented ++ "\n"

def runInvocation (i : Invocation) (installer : Option Installer) (w : World) :
    Except Trouble Outcome :=
  match Settings.read [] w.env with
  | .faulty es => .error (.settings es)
  | .ok s =>
    match runTask ⟨i.over s, installer⟩ i.task { confirms := i.install } w with
    | (.error c, _) => .error (.crash c)
    | (.ok f, _, w) => .ok ⟨f.status, f.output, none, w⟩

def run (argv : List Text) (installer : Option Installer) (w : World) : Except Trouble Outcome :=
  match parse argv with
  | .error stop => stop.outcome w
  | .ok i => runInvocation i installer w

end Workbench.Command
