import Workbench.Build.Schedule
import Workbench.Discovery.Locate
import Workbench.Json.Display
import Workbench.Json.Writer
import Workbench.Tools.Catalogue

/-! # Calling tools

A context serves the calls one after another. It looks for the toolchain when
a call first needs one, and keeps the roots that calls have named.
-/

namespace Workbench

open Json (Value)

variable [Surroundings]

namespace Tool

inductive Stage where
  | searching (e : Editor) (w : World)
  | ready (s : Scheduler)

abbrev Reply := Except Problem Value

end Tool

open Tool

structure ToolContext where
  settings : Settings
  stage : Tool.Stage

namespace ToolContext

def create (s : Settings) (w : World) : ToolContext := ⟨s, .searching {} w⟩

def editor (c : ToolContext) : Editor :=
  match c.stage with
  | .searching e _ => e
  | .ready s => s.coordinator.editor

def world (c : ToolContext) : World :=
  match c.stage with
  | .searching _ w => w
  | .ready s => s.world

def roots? (c : ToolContext) : Option (List Text) :=
  match c.stage with
  | .searching .. => none
  | .ready s => some s.coordinator.roots

def addRoot (s : Scheduler) (root : Text) : Scheduler :=
  let c := s.coordinator
  if Path.absolute root ∈ c.roots then s
  else { s with coordinator := { c with roots := c.roots ++ [Path.absolute root] } }

def schedulerFor (c : ToolContext) (t : Toolchain) (e : Editor) (w : World) : Scheduler :=
  { coordinator := Coordinator.create t [] c.settings.singleFlight e, world := w }

def scheduler (c : ToolContext) (root : Option Text) : Except Problem Scheduler × ToolContext :=
  match c.stage with
  | .ready s => (.ok s, c)
  | .searching e w =>
    let search : Search := ⟨c.settings, w.env, "linux", root⟩
    match search.locate none e w with
    | (.error p, e, w) => (.error (.crash p), { c with stage := .searching e w })
    | (.ok none, e, w) => (.error (.failure search.failure), { c with stage := .searching e w })
    | (.ok (some t), e, w) =>
      let s := c.schedulerFor t e w
      (.ok s, { c with stage := .ready s })

/-- Goes on with the scheduler, and with the root kept if one is named. -/
def withScheduler (c : ToolContext) (root : Option Text) (go : Scheduler → Reply × Scheduler) :
    Reply × ToolContext :=
  match c.scheduler root with
  | (.error p, c) => (.error p, c)
  | (.ok s, c) =>
    let r := go (root.elim s (addRoot s))
    (r.1, { c with stage := .ready r.2 })

/-! ## Tools -/

def mistake (message : Text) : Value := .obj [("error", .str message)]

def require (args : Field.Members) (name : Text) : Except Failure Text :=
  match (Field.lookup args name).filter (·.isGiven) with
  | some v => .ok v.shown
  | none => .error (.general ("missing required argument: " ++ name) [])

def buildReply (root : Text) (c : Coordinator) (task : Nat) : Value :=
  match (c.finished.find? (·.task == task)).bind (·.outcome) with
  | some x => Report.buildResult x.1
  | none => mistake ("build of " ++ root ++ " could not run")

/-- Builds a root and waits until its process, and every other task, has ended. -/
def rebuild (root : Text) (s : Scheduler) : Reply × Scheduler :=
  match s.build root with
  | (s, none) => (.ok (mistake ("not a reproto project (no reproto.toml): " ++ root)), s)
  | (s, some task) =>
    let s := s.finish
    (.ok (buildReply root s.coordinator task), s)

def getDiagnostics (root : Text) (s : Scheduler) : Reply × Scheduler :=
  (.ok (.obj [("root", .str (Path.absolute root)),
    ("diagnostics", Report.diagnostics (s.coordinator.indices.diagnostics.get root))]), s)

def documentSymbols (uri : Text) (s : Scheduler) : Reply × Scheduler :=
  let symbols := s.coordinator.indices.symbols.forFile uri
  (.ok (.obj [("uri", .str uri), ("symbols", .arr (symbols.map Report.shownSymbol))]), s)

def workspaceSymbols (query : Value) (s : Scheduler) : Reply × Scheduler :=
  match query with
  | .str q => (.ok (Report.found q (s.coordinator.indices.symbols.search q)), s)
  | v =>
    (.error (.crash (.wrongType
      ("'" ++ typeWord v ++ "' object has no attribute 'lower'"))), s)

def withArgument (c : ToolContext) (args : Field.Members) (t : Tool)
    (go : Text → Reply × ToolContext) : Reply × ToolContext :=
  match require args t.parameter.name with
  | .ok v => go v
  | .error f => (.error (.failure f), c)

def callTool (c : ToolContext) (t : Tool) (args : Field.Members) : Reply × ToolContext :=
  match t with
  | .rebuild => c.withArgument args t fun root => c.withScheduler (some root) (rebuild root)
  | .getDiagnostics =>
    c.withArgument args t fun root => c.withScheduler (some root) (getDiagnostics root)
  | .documentSymbols => c.withArgument args t fun uri => c.withScheduler none (documentSymbols uri)
  | .workspaceSymbols =>
    let query := (Field.lookup args t.parameter.name).getD (.str [])
    c.withScheduler none (workspaceSymbols query)

/-- The result of a call, also of a tool that does not exist. Failures are
results of their own; a crash has none. -/
def dispatch (c : ToolContext) (name : Text) (args : Field.Members) :
    Except Crash Value × ToolContext :=
  match Tool.ofName? name with
  | none => (.ok (mistake ("Unknown tool: " ++ name)), c)
  | some t =>
    match c.callTool t args with
    | (.ok v, c) => (.ok v, c)
    | (.error (.failure f), c) => (.ok (.obj f.report), c)
    | (.error (.crash p), c) => (.error p, c)

def replyText : Except Crash Value → Text
  | .ok v => v.indented
  | .error p => (mistake p.message).compact

def call (c : ToolContext) (name : Text) (args : Field.Members) : Text × ToolContext :=
  let r := c.dispatch name args
  (replyText r.1, r.2)

end ToolContext

/-! ## Summaries -/

namespace Tool

def ellipsis : Text := "…"

/-- Arguments on one line, cut at a length; a negative length counts from the end. -/
def summary (args : Field.Members) (limit : Int) : Text :=
  let line := Text.join ", " (args.map fun m => m.1 ++ "=" ++ m.2.display)
  let kept : Nat := if limit < 0 then line.length - limit.natAbs else limit.toNat
  if line.length ≤ limit then line else line.take kept ++ ellipsis

end Tool

end Workbench
