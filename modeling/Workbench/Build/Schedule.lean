import Workbench.Build.Coordinator

/-! # Scheduling builds

A scheduler lets the tasks of a coordinator take their steps in turn, in the
world given. A task whose process is behind a closed gate waits until the gate
is opened. The scheduler is idle when no task can take a step.
-/

namespace Workbench

variable [Surroundings]

namespace Build

inductive Job where
  | begin (id : Nat)
  | output (id : Nat)
  | drain (id : Nat)
  | exit (id : Nat)
  | settle (id : Nat)
deriving DecidableEq

/-- A bound on the steps that a job leads to, a build kept for later apart. -/
def Job.weight : Job → Nat
  | begin _ => 5
  | output _ => 4
  | drain _ => 3
  | exit _ => 2
  | settle _ => 1

structure Waiting where
  task : Nat
  gate : Text
deriving DecidableEq

end Build

open Build

structure Scheduler where
  coordinator : Coordinator
  world : World
  /-- Steps that can be taken, first come first. -/
  ready : List Job := []
  waiting : List Waiting := []
  /-- The gates that have been opened, once and for all. -/
  opened : List Text := []
  /-- Gates not heard of yet are open as well. -/
  allOpen : Bool := false

namespace Scheduler

def isOpen (s : Scheduler) (gate : Text) : Bool := s.allOpen || gate ∈ s.opened

def enqueue (s : Scheduler) (jobs : List Job) : Scheduler := { s with ready := s.ready ++ jobs }

/-- The first steps of the tasks that `later` has and `earlier` has not. -/
def newJobs (earlier later : Coordinator) : List Job :=
  (List.range' earlier.nextId (later.nextId - earlier.nextId)).map .begin

def apply (s : Scheduler) (e : Event) : Scheduler :=
  let c := s.coordinator.step e
  { s with coordinator := c }.enqueue (newJobs s.coordinator c)

def hasManifest (s : Scheduler) (root : Text) : Bool :=
  s.world.isFile (Coordinator.manifestPath (Path.absolute root))

/-! ## Jobs -/

def begin (s : Scheduler) (id : Nat) : Scheduler :=
  match s.coordinator.task? id with
  | none => s
  | some t =>
    let r := (Session.create t.root s.coordinator.toolchain).spawn s.world
    let next : Job := match r.1 with
      | .ok _ => .output id
      | .error _ => .settle id
    (({ s with world := r.2 }.apply (.begin id)).apply (.launch id r.1)).enqueue [next]

def reading? (s : Scheduler) (id : Nat) : Option Reading :=
  match s.coordinator.task? id with
  | some ⟨_, _, .reading r⟩ => some r
  | _ => none

def applyTimes (s : Scheduler) (e : Event) : Nat → Scheduler
  | 0 => s
  | n + 1 => (s.apply e).applyTimes e n

def output (s : Scheduler) (id : Nat) : Scheduler :=
  (s.applyTimes (.output id readSize) ((s.reading? id).elim 0 Reading.outputParts)).enqueue
    [.drain id]

def drain (s : Scheduler) (id : Nat) : Scheduler :=
  (s.applyTimes (.drain id readSize) ((s.reading? id).elim 0 Reading.errorParts)).enqueue
    [.exit id]

def closedGate? (s : Scheduler) (id : Nat) : Option Text :=
  ((s.reading? id).bind (·.script.gate)).filter (!s.isOpen ·)

def exit (s : Scheduler) (id : Nat) : Scheduler :=
  match s.closedGate? id with
  | some gate => { s with waiting := s.waiting ++ [⟨id, gate⟩] }
  | none => (s.apply (.exit id)).enqueue [.settle id]

def settle (s : Scheduler) (id : Nat) : Scheduler :=
  match s.coordinator.task? id with
  | none => s
  | some t => s.apply (.settle id (s.hasManifest t.root))

def perform (s : Scheduler) : Job → Scheduler
  | .begin id => s.begin id
  | .output id => s.output id
  | .drain id => s.drain id
  | .exit id => s.exit id
  | .settle id => s.settle id

def weight (s : Scheduler) : Nat :=
  (s.ready.map Job.weight).foldr (· + ·) 0 + 6 * s.coordinator.pending.length

/-- Takes steps until none is left; the bound on their number is an argument. -/
def drive : Nat → Scheduler → Scheduler
  | 0, s => s
  | n + 1, s =>
    match s.ready with
    | [] => s
    | job :: rest => drive n ({ s with ready := rest }.perform job)

def run (s : Scheduler) : Scheduler := s.drive s.weight

/-! ## Triggers -/

def build (s : Scheduler) (root : Text) : Scheduler × Option Nat :=
  let m := s.hasManifest root
  (s.apply (.trigger root m), (s.coordinator.trigger root m).2)

def buildEach (s : Scheduler) : List Text → Scheduler × List Nat
  | [] => (s, [])
  | root :: rest =>
    let r := s.build root
    let more := r.1.buildEach rest
    (more.1, r.2.toList ++ more.2)

def buildAll (s : Scheduler) (roots : Option (List Text)) : Scheduler × List Nat :=
  s.buildEach (roots.getD s.coordinator.roots)

def rebuild (s : Scheduler) (uri : Text) : Except Crash (Scheduler × Option Nat) :=
  (s.coordinator.rootOf uri).map fun
    | none => (s, none)
    | some root =>
      let m := s.hasManifest root
      (s.apply (.touch uri m), (s.coordinator.touch uri m).2)

/-! ## Gates -/

def wake (s : Scheduler) : Scheduler :=
  let free := s.waiting.filter fun t => s.isOpen t.gate
  let s := { s with waiting := s.waiting.filter fun t => !s.isOpen t.gate }
  s.enqueue (free.map fun t => .exit t.task)

def openGate (s : Scheduler) (gate : Text) : Scheduler :=
  { s with opened := gate :: s.opened }.wake

/-- Opens all gates, and those of processes to come. -/
def openAll (s : Scheduler) : Scheduler := { s with allOpen := true }.wake

def finish (s : Scheduler) : Scheduler := s.openAll.run

end Scheduler

end Workbench
