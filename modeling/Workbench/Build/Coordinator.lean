import Workbench.Build.Reading
import Workbench.Path.Name

/-! # Build coordination

Triggers start sessions, one task each. The tasks of several roots, and of one
root unless single flight is on, run side by side; each makes its steps, and the
steps of all tasks may come in any order. With single flight a trigger that
comes while its root is building is kept for one build more.
-/

namespace Workbench

variable [Surroundings]

namespace Build

inductive Phase where
  /-- Not begun. -/
  | scheduled
  /-- The process is being started. -/
  | spawning (s : Session)
  /-- The process runs. -/
  | reading (r : Reading)
  /-- The session has ended; the coordinator has not been told yet. -/
  | finished

structure Task where
  id : Nat
  root : Text
  phase : Phase

/-- The end of a task, with the result and the findings of a session that
ended normally. -/
structure Finish where
  task : Nat
  root : Text
  outcome : Option (BuildResult × Findings)

/-- One step of a run. What it depends on outside is part of it. -/
inductive Event where
  | trigger (root : Text) (hasManifest : Bool)
  /-- The file of a URI is saved or opened. -/
  | touch (uri : Text) (hasManifest : Bool)
  | begin (id : Nat)
  | launch (id : Nat) (start : Start)
  | output (id : Nat) (arrived : Nat)
  | drain (id : Nat) (arrived : Nat)
  | exit (id : Nat)
  | settle (id : Nat) (hasManifest : Bool)

end Build

open Build

structure Coordinator where
  toolchain : Toolchain
  roots : List Text
  singleFlight : Bool := false
  editor : Editor := {}
  indices : Indices := {}
  /-- Tasks whose end the coordinator has not been told. -/
  tasks : List Task := []
  /-- The task started last for a root, by key. -/
  inflight : OrderedMap Text Nat := {}
  /-- Keys of roots that are to be built once more. -/
  pending : List Text := []
  nextId : Nat := 0
  /-- The ends of tasks in order. -/
  finished : List Finish := []

namespace Coordinator

def create (t : Toolchain) (roots : List Text) (singleFlight : Bool) (e : Editor) : Coordinator :=
  { toolchain := t, roots := roots.map Path.absolute, singleFlight, editor := e }

def active (c : Coordinator) : Nat := c.tasks.length

def manifestName : Text := "reproto.toml"

def manifestPath (root : Text) : Text := Path.join root manifestName

/-! ## Which root a file belongs to -/

def owningRoot (c : Coordinator) (path : Text) : Option Text :=
  c.roots.find? fun root =>
    (PathName.ofText (Path.absolute path)).isWithin (PathName.ofText root)

def sourceSuffix : Text := ".reproto"

/-- The root to build when the file of a URI is saved or opened. -/
def rootOf (c : Coordinator) (uri : Text) : Except Crash (Option Text) :=
  match Uri.toPath uri with
  | .error f => .error (.reference f)
  | .ok path =>
    .ok (if (PathName.ofText path).suffix = sourceSuffix then c.owningRoot path else none)

/-! ## Steps -/

def start (c : Coordinator) (root : Text) : Coordinator :=
  { c with
    tasks := c.tasks ++ [⟨c.nextId, root, .scheduled⟩]
    inflight := c.inflight.insert (Path.rootKey root) c.nextId
    nextId := c.nextId + 1 }

/-- A request to build a root: the task that answers it, if the root has a manifest. -/
def trigger (c : Coordinator) (root : Text) (hasManifest : Bool) : Coordinator × Option Nat :=
  let root := Path.absolute root
  let key := Path.rootKey root
  if !hasManifest then (c, none)
  else match c.singleFlight, c.inflight.get? key with
    | true, some id => ({ c with pending := c.pending.insert key }, some id)
    | _, _ => (c.start root, some c.nextId)

def touch (c : Coordinator) (uri : Text) (hasManifest : Bool) : Coordinator × Option Nat :=
  match c.rootOf uri with
  | .ok (some root) => c.trigger root hasManifest
  | _ => (c, none)

def task? (c : Coordinator) (id : Nat) : Option Task := c.tasks.find? (·.id == id)

def setPhase (c : Coordinator) (id : Nat) (phase : Phase) : Coordinator :=
  { c with tasks := c.tasks.map fun t => if t.id = id then { t with phase } else t }

def finish (c : Coordinator) (t : Task) (outcome : Option (BuildResult × Findings)) :
    Coordinator :=
  { c.setPhase t.id .finished with finished := c.finished ++ [⟨t.id, t.root, outcome⟩] }

def showError (c : Coordinator) (message : Text) : Coordinator :=
  { c with editor := c.editor.showError message }

def problemMessage (root : Text) : Problem → Text
  | .failure f => f.message
  | .crash _ => "build of " ++ root ++ " failed unexpectedly"

def begin (c : Coordinator) (id : Nat) : Coordinator :=
  match c.task? id with
  | some ⟨_, root, .scheduled⟩ =>
    c.setPhase id (.spawning (Session.create root c.toolchain))
  | _ => c

def launch (c : Coordinator) (id : Nat) (start : Start) : Coordinator :=
  match c.task? id with
  | some ⟨_, root, .spawning s⟩ =>
    match start with
    | .error fault =>
      (c.showError (problemMessage root (fault.problem s.command))).finish
        ⟨id, root, .finished⟩ none
    | .ok p => c.setPhase id (.reading (.start s p))
  | _ => c

def readOutput (c : Coordinator) (id arrived : Nat) : Coordinator :=
  match c.task? id with
  | some ⟨_, _, .reading r⟩ =>
    let out := r.readOutput c.editor arrived
    { c with editor := out.2 }.setPhase id (.reading out.1)
  | _ => c

def drain (c : Coordinator) (id arrived : Nat) : Coordinator :=
  match c.task? id with
  | some ⟨_, _, .reading r⟩ =>
    let out := r.readErrors c.editor arrived
    { c with editor := out.2 }.setPhase id (.reading out.1)
  | _ => c

/-- A task whose reading is over learns how its process ended and leaves its session. -/
def exit (c : Coordinator) (id : Nat) : Coordinator :=
  match c.task? id with
  | some ⟨_, root, .reading r⟩ =>
    if r.isOver then
      let ending := r.leave c.indices c.editor
      let c := { c with indices := ending.indices, editor := ending.editor }
      match ending.result with
      | .ok result => c.finish ⟨id, root, .finished⟩ (some (result, ending.session.findings))
      | .error problem =>
        (c.showError (problemMessage root problem)).finish ⟨id, root, .finished⟩ none
    else c
  | _ => c

def discard (c : Coordinator) (t : Task) : Coordinator :=
  let key := Path.rootKey t.root
  { c with
    tasks := c.tasks.filter (·.id != t.id)
    inflight := if c.inflight.get? key = some t.id then c.inflight.erase key else c.inflight }

/-- The coordinator is told that a task has ended: a trigger that was kept for
its root is answered now. -/
def settle (c : Coordinator) (id : Nat) (hasManifest : Bool) : Coordinator × Option Nat :=
  match c.task? id with
  | some ⟨_, root, .finished⟩ =>
    let key := Path.rootKey root
    let c := c.discard ⟨id, root, .finished⟩
    if key ∈ c.pending then
      { c with pending := c.pending.erase key }.trigger root hasManifest
    else (c, none)
  | _ => (c, none)

/-! ## Runs -/

def step (c : Coordinator) : Event → Coordinator
  | .trigger root m => (c.trigger root m).1
  | .touch uri m => (c.touch uri m).1
  | .begin id => c.begin id
  | .launch id start => c.launch id start
  | .output id arrived => c.readOutput id arrived
  | .drain id arrived => c.drain id arrived
  | .exit id => c.exit id
  | .settle id m => (c.settle id m).1

def run (c : Coordinator) (events : List Event) : Coordinator := events.foldl step c

end Coordinator

end Workbench
