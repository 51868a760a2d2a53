import Mathlib.Logic.Function.Iterate
import Workbench.Proofs.Build.Idle
import Workbench.Proofs.Build.Order
import Workbench.Proofs.Build.Projection
import Workbench.Proofs.Build.Undisturbed

/-! # One build after another

A scheduler that is idle, with no task and no request left, and that is asked for one build
and waits for its end, is idle again. It has made one session, with the next process that the
world starts; what this session has brought is told by its root and its process.
-/

namespace Workbench

open Build OrderedMap

/-! ## Sessions -/

variable [Surroundings]

namespace Session

open Editor

theorem readOutput_alike {s : Session} {e e' : Editor}
    (h : Alike (fun _ => []) (fun _ => []) e e') (chunks : List (List UInt8)) :
    (s.readOutput e' chunks).1 = (s.readOutput e chunks).1 ∧
      (s.readOutput e' chunks).2.2 = (s.readOutput e chunks).2.2 := by
  induction chunks generalizing s e e' with
  | nil =>
    obtain ⟨hs, -, hc⟩ := readPart_alike (s := s) none h (fun _ => id) fun _ => Nat.zero_le _
    exact ⟨hs, hc⟩
  | cons chunk chunks ih =>
    obtain ⟨hs, ha, hc⟩ :=
      readPart_alike (s := s) (some chunk) h (fun _ => id) fun _ => Nat.zero_le _
    rw [Reading.readOutput_cons, Reading.readOutput_cons]
    rcases h₁ : s.readPart e (some chunk) with ⟨s₁, e₁, c₁⟩
    rcases h₂ : s.readPart e' (some chunk) with ⟨s₂, e₂, c₂⟩
    rw [h₁, h₂] at hs ha hc
    obtain rfl : s₂ = s₁ := hs
    obtain rfl : c₂ = c₁ := hc
    cases c₂ with
    | some c => exact ⟨rfl, rfl⟩
    | none => exact ih ha

omit [Surroundings] in
theorem forwardErrors_of_open {e : Editor} (h : e.Open) (chunks : List (List UInt8)) :
    (forwardErrors e chunks).2 = none := by
  rw [forwardErrors_eq, (tells_foldUntil e .piece _).snd_eq_none_iff]
  exact fun i _ => h.takesAfter .piece i

/-- Beside an editor that takes all it is told only the output can end a session. -/
theorem run_of_open (s : Session) (p : Script) (x : Indices) {e : Editor} (h : e.Open) :
    s.run (.ok p) x e = ((s.enter .running).readOutput e p.outChunks).1.leave p
      ((s.enter .running).readOutput e p.outChunks).2.2 x
      (forwardErrors ((s.enter .running).readOutput e p.outChunks).2.1 p.errChunks).1 := by
  have hopen : ((s.enter .running).readOutput e p.outChunks).2.1.Open :=
    readOutput_keeps (fun _ t h => (h.add .line t).1) _ _ h
  rw [run, forwardErrors_of_open hopen, Option.or_none]

end Session

namespace Build

def outcome (root : Text) (start : Start) : Option (BuildResult × Findings) :=
  let out := (Session.create root default).run start {} {}
  out.result.toOption.map fun r => (r, out.session.findings)

theorem outcome_absolute (root : Text) (start : Start) :
    outcome (Path.absolute root) start = outcome root start := by
  have hs : Session.create (Path.absolute root) default = Session.create root default := by
    rw [Session.create, Session.create, Path.absolute_absolute]
  rw [outcome, outcome, hs]

/-- It does not matter which toolchain runs, what the indices hold and which editor that takes all
of it is told. -/
theorem outcome_eq (t : Toolchain) (root : Text) (start : Start) (x : Indices) {e : Editor}
    (he : e.Open) : ((Session.create root t).run start x e).result.toOption.map
      (fun r => (r, ((Session.create root t).run start x e).session.findings)) =
      outcome root start := by
  cases start with
  | error reason => rfl
  | ok p =>
    have halike := (Editor.open_fresh false).alike he
    obtain ⟨hs, hc⟩ := Session.readOutput_alike (s := (Session.create root t).enter .running)
      halike p.outChunks
    have hd : (((Session.create root t).enter .running).readOutput {} p.outChunks) =
        ({ (((Session.create root default).enter .running).readOutput {} p.outChunks).1 with
          toolchain := t }, (((Session.create root default).enter .running).readOutput {}
            p.outChunks).2) := rfl
    rw [hd] at hs hc
    simp only [outcome, Session.run_of_open _ _ _ he,
      Session.run_of_open _ _ _ (Editor.open_fresh false), hs, hc]
    rcases (((Session.create root default).enter .running).readOutput {} p.outChunks) with
      ⟨s, e', _ | c⟩
    · simp only [(Session.leave_none _).2, Session.findings_leave]
      rfl
    · rfl

end Build

namespace Reading

variable {r : Reading} {q : Reading × Editor} {n m : Nat}

omit [Surroundings] in
theorem iterate_eq {α : Type} {f : α → α} {a : α} (hn : f (f^[n] a) = f^[n] a)
    (hm : f (f^[m] a) = f^[m] a) : f^[n] a = f^[m] a := by
  have key {n m : Nat} (hle : n ≤ m) (h : f (f^[n] a) = f^[n] a) : f^[m] a = f^[n] a := by
    obtain ⟨k, rfl⟩ := Nat.exists_eq_add_of_le' hle
    rw [Function.iterate_add_apply]
    exact Function.iterate_fixed h k
  rcases Nat.le_total n m with hle | hle
  · exact (key hle hn).symm
  · exact key hle hm

theorem outputStep_of_over (h : q.1.OutputOver) : outputStep q = q := by
  unfold outputStep readOutput
  rcases h with h | h
  · cases hc : q.1.crash with
    | none => exact absurd hc h
    | some c => rfl
  · rw [h]
    cases q.1.crash <;> rfl

theorem outputOver_iterate (h : q.1.outputLeft ≤ n) : (outputStep^[n] q).1.OutputOver := by
  induction n generalizing q with
  | zero => exact outputOver_of_left (Nat.le_zero.mp h)
  | succ n ih =>
    have hleft := q.1.outputLeft_readOutput q.2
    exact ih (q := outputStep q) (hleft.trans (by omega))

omit [Surroundings] in
theorem errorStep_of_none (h : q.1.errors = none) : errorStep q = q := by
  unfold errorStep readErrors
  rw [h]

omit [Surroundings] in
theorem errors_iterate (h : q.1.errorsLeft ≤ n) : (errorStep^[n] q).1.errors = none := by
  induction n generalizing q with
  | zero => exact errors_of_left (Nat.le_zero.mp h)
  | succ n ih =>
    have hleft := q.1.errorsLeft_readErrors q.2
    exact ih (q := errorStep q) (hleft.trans (by omega))

theorem reads_parts (root : Text) (t : Toolchain) (p : Script) (e : Editor) (n m : Nat) :
    (errorStep^[m] (outputStep^[n] (start (Session.create root t) p, e))).1.Reads root p := by
  have hout : (outputStep^[n] (start (Session.create root t) p, e)).1.Reads root p :=
    Function.Iterate.rec (fun q : Reading × Editor => q.1.Reads root p) (.start root t p)
      (fun q h => h.readOutput q.2 readSize) n
  exact Function.Iterate.rec (fun q : Reading × Editor => q.1.Reads root p) hout
    (fun q h => h.readErrors q.2 readSize) m

omit [Surroundings] in
theorem errors_afterErrors (out : Editor × Option Crash) :
    (r.afterErrors none out).1.errors = none := by
  obtain ⟨e, _ | c⟩ := out <;> rfl

omit [Surroundings] in
theorem ended_afterErrors {left : Option (Utf8.State × List UInt8)} {out : Editor × Option Crash}
    (h : r.fault = none) : (r.afterErrors left out).1.ended = r.crash.or out.2 := by
  obtain ⟨e, _ | c⟩ := out
  · rw [Option.or_none]
    exact (congrArg (Option.or · r.crash) h).trans (Option.none_or)
  · rw [afterErrors, ended]
    cases r.crash <;> rfl

/-- Enough readings of the output, and then of the error stream, come to the end of the session. -/
theorem run_ok_eq_parts (s : Session) (p : Script) (x : Indices) (e : Editor)
    (hn : (start s p).outputParts ≤ n) (hm : (outputStep^[n] (start s p, e)).1.errorParts ≤ m) :
    (errorStep^[m] (outputStep^[n] (start s p, e))).1.isOver ∧
      s.run (.ok p) x e = (errorStep^[m] (outputStep^[n] (start s p, e))).1.leave x
        (errorStep^[m] (outputStep^[n] (start s p, e))).2 := by
  obtain ⟨n', o, hn', ho⟩ := exists_iterate_outputStep (r := start s p) (e := e) rfl rfl
  have hover : (outputStep^[n'] (start s p, e)).1.OutputOver := by
    rw [hn']
    cases hc : ((start s p).session.readOutput e (chunksOf readSize p.out)).2.2 with
    | none => exact .inr (ho hc)
    | some c => exact .inl (by simp [afterPart, hc])
  have hout := iterate_eq (outputStep_of_over hover)
    (outputStep_of_over (outputOver_iterate (q := (start s p, e)) ((outputLeft_le _).trans hn)))
  rw [← hout] at hm ⊢
  have hdone := errors_iterate ((errorsLeft_le _).trans hm)
  obtain ⟨m', hm'⟩ := exists_iterate_errorStep (r := (outputStep^[n'] (start s p, e)).1)
    (e := (outputStep^[n'] (start s p, e)).2) (by rw [hn']; rfl)
  have hdone' : (errorStep^[m'] (outputStep^[n'] (start s p, e))).1.errors = none := by
    rw [hm', errors_afterErrors]
  have herr := iterate_eq (errorStep_of_none hdone') (errorStep_of_none hdone)
  have hkept := (afterErrors_keeps (r := (outputStep^[n'] (start s p, e)).1) none
    (foldUntil (Editor.add · .piece ·) (outputStep^[n'] (start s p, e)).2
      (Session.pieces .start (chunksOf readSize p.err))))
  rw [← herr]
  refine ⟨isOver_of_outputOver ?_ hdone', ?_⟩
  · rw [hm', OutputOver, hkept.1, hkept.2.1]
    exact hover
  · rw [hm', hn', leave, ended_afterErrors rfl, snd_afterErrors, ← Session.forwardErrors_eq]
    obtain ⟨errors, fault, hr⟩ := exists_afterErrors
      ((start s p).afterPart o ((start s p).session.readOutput e (chunksOf readSize p.out))).1 none
      (Session.forwardErrors ((start s p).afterPart o ((start s p).session.readOutput e
        (chunksOf readSize p.out))).2 (chunksOf readSize p.err))
    rw [hr]
    rfl

/-- What a session leaves whose reading is over is told by its process. -/
theorem Reads.tells {root : Text} {p : Script} (h : r.Reads root p) (ho : r.isOver) (id : Nat)
    (x : Indices) (e : Editor) :
    Finish.Tells ⟨id, root, (r.leave x e).result.toOption.map
      fun b => (b, (r.leave x e).session.findings)⟩ (.ok p) := by
  have hkey (o : Option (BuildResult × Findings)) : Finish.key ⟨id, root, o⟩ = Path.absolute root :=
    Path.rootKey_eq_absolute root
  cases hc : r.ended with
  | some c =>
    rw [Reading.leave, hc]
    rcases h.cases_ended hc with hs | he
    · exact .stopped ((hkey _).symm ▸ hs) rfl
    · exact .unheard he rfl
  | none =>
    have hend := ((isOver_iff.mp ho).resolve_left (absurd hc)).1
    obtain ⟨ha, -, ds, ss, hg, hf⟩ := h.gathered_all (ended_eq_none_iff.mp hc).2 hend
    rw [Reading.leave, hc, (Session.leave_none _).2, Session.findings_leave, hf, h.script_eq]
    refine .committed (r := r.session.result p.exit.code) ha ((hkey _).symm ▸ hg) ?_ rfl rfl
    rw [hkey]
    exact h.root_eq

end Reading

theorem Build.outcome_tells (id : Nat) (root : Text) (start : Start) :
    Finish.Tells ⟨id, root, outcome root start⟩ start := by
  cases start with
  | error reason => exact .refused rfl
  | ok p =>
    obtain ⟨hover, hrun⟩ := Reading.run_ok_eq_parts (Session.create root default) p {} {}
      (Nat.le_refl _) (Nat.le_refl _)
    rw [outcome, hrun]
    exact (Reading.reads_parts root default p {} _ _).tells hover id {} _

namespace Coordinator

variable {c : Coordinator} {root : Text} {phase : Phase} {ed : Editor}

def solo (c : Coordinator) (root : Text) (phase : Phase) (ed : Editor) : Coordinator :=
  { c.start root with tasks := [⟨c.nextId, root, phase⟩], editor := ed }

theorem start_eq_solo (h : c.tasks = []) : c.start root = c.solo root .scheduled c.editor := by
  simp [solo, start, h]

@[simp] theorem task?_solo (c : Coordinator) (root : Text) (phase : Phase) (ed : Editor) :
    (c.solo root phase ed).task? c.nextId = some ⟨c.nextId, root, phase⟩ := by
  simp [solo, task?]

@[simp] theorem editor_solo : (c.solo root phase ed).editor = ed := rfl

@[simp] theorem indices_solo : (c.solo root phase ed).indices = c.indices := rfl

theorem setPhase_solo (c : Coordinator) (root : Text) (phase phase' : Phase) (ed : Editor) :
    (c.solo root phase ed).setPhase c.nextId phase' = c.solo root phase' ed := by
  simp [solo, setPhase]

theorem begin_solo : (c.solo root .scheduled ed).step (.begin c.nextId) =
    c.solo root (.spawning (Session.create root c.toolchain)) ed := by
  simp only [step, begin, task?_solo]
  exact setPhase_solo c root .scheduled _ ed

theorem launch_solo (s : Session) (p : Script) :
    (c.solo root (.spawning s) ed).step (.launch c.nextId (.ok p)) =
      c.solo root (.reading (.start s p)) ed := by
  simp only [step, launch, task?_solo]
  exact setPhase_solo c root (.spawning s) _ ed

theorem output_solo (q : Reading × Editor) :
    (c.solo root (.reading q.1) q.2).step (.output c.nextId readSize) =
      c.solo root (.reading (Reading.outputStep q).1) (Reading.outputStep q).2 := by
  simp only [step, readOutput, task?_solo]
  exact setPhase_solo c root (.reading q.1) _ _

theorem drain_solo (q : Reading × Editor) :
    (c.solo root (.reading q.1) q.2).step (.drain c.nextId readSize) =
      c.solo root (.reading (Reading.errorStep q).1) (Reading.errorStep q).2 := by
  simp only [step, drain, task?_solo]
  exact setPhase_solo c root (.reading q.1) _ _

theorem iterate_solo {f : Coordinator → Coordinator} {g : Reading × Editor → Reading × Editor}
    (h : ∀ q : Reading × Editor, f (c.solo root (.reading q.1) q.2) =
      c.solo root (.reading (g q).1) (g q).2) (n : Nat) (q : Reading × Editor) :
    f^[n] (c.solo root (.reading q.1) q.2) = c.solo root (.reading (g^[n] q).1) (g^[n] q).2 := by
  induction n generalizing q with
  | zero => rfl
  | succ n ih => rw [Function.iterate_succ_apply, Function.iterate_succ_apply, h, ih]

def ended (c : Coordinator) (root : Text) (o : Option (BuildResult × Findings)) (ed : Editor) :
    Coordinator :=
  { c.solo root .finished ed with
    indices := Finish.publish c.indices ⟨c.nextId, root, o⟩
    finished := c.finished ++ [⟨c.nextId, root, o⟩] }

def built (c : Coordinator) (root : Text) (o : Option (BuildResult × Findings)) (ed : Editor) :
    Coordinator :=
  { c with
    editor := ed
    indices := Finish.publish c.indices ⟨c.nextId, root, o⟩
    inflight := (c.inflight.insert (Path.rootKey root) c.nextId).erase (Path.rootKey root)
    nextId := c.nextId + 1
    finished := c.finished ++ [⟨c.nextId, root, o⟩] }

theorem finish_solo {d : Coordinator} {o : Option (BuildResult × Findings)}
    (h : d = { c.solo root phase d.editor with
      indices := Finish.publish c.indices ⟨c.nextId, root, o⟩ }) :
    d.finish ⟨c.nextId, root, .finished⟩ o = c.ended root o d.editor := by
  refine (congrArg (finish · _ o) h).trans ?_
  simp [finish, setPhase, solo, ended, start]

theorem refuse_solo (c : Coordinator) (root : Text) (ed : Editor) (s : Session)
    (fault : StartFault) :
    ∃ ed', (c.solo root (.spawning s) ed).step (.launch c.nextId (.error fault)) =
      c.ended root none ed' := by
  simp only [step, launch, task?_solo]
  exact ⟨_, finish_solo rfl⟩

theorem exit_solo {q : Reading × Editor} (h : q.1.isOver)
    (hr : Path.rootKey q.1.session.root = Path.rootKey root) :
    ∃ ed', (c.solo root (.reading q.1) q.2).step (.exit c.nextId) =
      c.ended root ((q.1.leave c.indices q.2).result.toOption.map
        fun b => (b, (q.1.leave c.indices q.2).session.findings)) ed' := by
  obtain ⟨r, ed⟩ := q
  simp only [step, exit, task?_solo, h, if_true, indices_solo, editor_solo]
  cases hc : r.ended with
  | some cr =>
    rw [Reading.leave, hc]
    exact ⟨_, finish_solo rfl⟩
  | none =>
    obtain ⟨hx, ho⟩ := Session.leave_none (p := r.script) (x := c.indices) (e := ed) r.session
    rw [Reading.leave, hc, hx, ho, Session.findings_leave, Indices.commit_congr hr]
    exact ⟨_, finish_solo rfl⟩

theorem settle_ended (root : Text) (ed : Editor) (ht : c.tasks = []) (hp : c.pending = [])
    (o : Option (BuildResult × Findings)) (m : Bool) :
    (c.ended root o ed).step (.settle c.nextId m) = c.built root o ed := by
  have hk : (c.ended root o ed).task? c.nextId = some ⟨c.nextId, root, .finished⟩ :=
    c.task?_solo root .finished ed
  have hn : Task.key ⟨c.nextId, root, .finished⟩ ∉ (c.ended root o ed).pending := by
    change _ ∉ c.pending
    rw [hp]
    exact List.not_mem_nil
  change ((c.ended root o ed).settle c.nextId m).1 = _
  refine (settle_eq hk rfl m).trans ((if_neg hn).trans ?_)
  simp [discard, ended, solo, start, built, ht]

theorem later_run (c : Coordinator) (events : List Event) : c.editor.Later (c.run events).editor :=
  run_induction (P := fun c' => c.editor.Later c'.editor) (.refl _)
    (fun h hm => h.trans hm.later) events

end Coordinator

/-! ## Schedulers -/

namespace World

def afterStarts (w : World) (n : Nat) : World := { w with starts := w.starts.drop n }

/-- Worlds in which the same files are, and in which processes will go the same way. -/
def Same (w v : World) : Prop := v.files = w.files ∧ v.env = w.env ∧ v.starts = w.starts

omit [Surroundings] in
theorem Same.trans {w v u : World} (h : w.Same v) (h' : v.Same u) : w.Same u :=
  ⟨h'.1.trans h.1, h'.2.1.trans h.2.1, h'.2.2.trans h.2.2⟩

omit [Surroundings] in
theorem Same.afterStarts {w v : World} (h : w.Same v) (n : Nat) :
    (w.afterStarts n).Same (v.afterStarts n) :=
  ⟨h.1, h.2.1, congrArg (List.drop n) h.2.2⟩

omit [Surroundings] in
theorem Same.startAt_eq {w v : World} (h : w.Same v) (n : Nat) : v.startAt n = w.startAt n := by
  rw [startAt, startAt, h.2.2]

theorem Same.isFile_eq {w v : World} (h : w.Same v) (path : Text) :
    v.isFile path = w.isFile path := by
  rw [isFile, isFile, h.1]

omit [Surroundings] in
theorem spawn_eq (w : World) (command : List Text) (directory : Option Text) :
    (w.spawn command directory).1 = w.startAt 0 ∧
      (w.afterStarts 1).Same (w.spawn command directory).2 := by
  obtain ⟨files, env, _ | ⟨start, starts⟩, spawned⟩ := w
  · exact ⟨rfl, rfl, rfl, rfl⟩
  · exact ⟨rfl, rfl, rfl, rfl⟩

end World

namespace Scheduler

open Coordinator

variable {s : Scheduler} {c : Coordinator} {w : World} {root : Text} {phase : Phase} {ed : Editor}
  {job : Job}

/-- No task is left and no request is kept, and the editor takes all it is told. -/
structure Settled (s : Scheduler) : Prop where
  tasks : s.coordinator.tasks = []
  pending : s.coordinator.pending = []
  inflight : ∀ key, s.coordinator.inflight.get? key = none
  old : ∀ f ∈ s.coordinator.finished, f.task < s.coordinator.nextId
  ready : s.ready = []
  waiting : s.waiting = []
  editor : s.coordinator.editor.Open

omit [Surroundings] in
theorem Settled.of_rest (h : s.Settled) (roots : List Text) (w : World) :
    { s with coordinator := { s.coordinator with roots }, world := w }.Settled :=
  ⟨h.tasks, h.pending, h.inflight, h.old, h.ready, h.waiting, h.editor⟩

def among (s : Scheduler) (c : Coordinator) (w : World) (jobs : List Job) : Scheduler :=
  { s with coordinator := c, world := w, ready := jobs, waiting := [], allOpen := true }

variable {e : Event} {q : Reading × Editor} {start : Start} {o : Option (BuildResult × Findings)}

theorem drive_job (n : Nat) : drive (n + 1) (s.among c w [job]) =
    drive n ((s.among c w []).perform job) := rfl

theorem drive_nil (n : Nat) : drive n (s.among c w []) = s.among c w [] := by
  cases n <;> rfl

theorem apply_among (h : (c.step e).nextId = c.nextId) :
    (s.among c w []).apply e = s.among (c.step e) w [] := by
  simp [apply, among, newJobs, h, enqueue]

theorem applyTimes_among (h : ∀ c : Coordinator, (c.step e).nextId = c.nextId) (n : Nat) :
    (s.among c w []).applyTimes e n = s.among ((·.step e)^[n] c) w [] := by
  induction n generalizing c with
  | zero => rfl
  | succ n ih =>
    rw [applyTimes, apply_among (h c), ih]
    rfl

theorem begin_among :
    (s.among (c.solo root .scheduled ed) s.world []).begin c.nextId =
      s.among ((c.solo root (.spawning (Session.create root c.toolchain)) ed).step
          (.launch c.nextId ((Session.create root c.toolchain).spawn s.world).1))
        ((Session.create root c.toolchain).spawn s.world).2
        [match ((Session.create root c.toolchain).spawn s.world).1 with
          | .ok _ => .output c.nextId
          | .error _ => .settle c.nextId] := by
  have ht : (s.among (c.solo root .scheduled ed) s.world []).coordinator.task? c.nextId =
      some ⟨c.nextId, root, .scheduled⟩ := c.task?_solo root .scheduled ed
  rw [Scheduler.begin, ht]
  change ((Scheduler.apply (s.among (c.solo root .scheduled ed)
    ((Session.create root c.toolchain).spawn s.world).2 []) (.begin c.nextId)).apply
      (.launch c.nextId ((Session.create root c.toolchain).spawn s.world).1)).enqueue _ = _
  rw [apply_among ((step_move _ (.begin _)).nextId_eq rfl (by simp)), begin_solo,
    apply_among ((step_move _ (.launch _ _)).nextId_eq rfl (by simp))]
  rfl

theorem output_among :
    (s.among (c.solo root (.reading q.1) q.2) w []).output c.nextId =
      s.among (c.solo root (.reading (Reading.outputStep^[q.1.outputParts] q).1)
        (Reading.outputStep^[q.1.outputParts] q).2) w [.drain c.nextId] := by
  have hr : (s.among (c.solo root (.reading q.1) q.2) w []).reading? c.nextId = some q.1 := by
    rw [reading?, among, task?_solo]
  rw [output, hr, Option.elim_some, applyTimes_among fun c =>
    (step_move c (.output _ readSize)).nextId_eq rfl (by simp), iterate_solo output_solo]
  rfl

theorem drain_among :
    (s.among (c.solo root (.reading q.1) q.2) w []).drain c.nextId =
      s.among (c.solo root (.reading (Reading.errorStep^[q.1.errorParts] q).1)
        (Reading.errorStep^[q.1.errorParts] q).2) w [.exit c.nextId] := by
  have hr : (s.among (c.solo root (.reading q.1) q.2) w []).reading? c.nextId = some q.1 := by
    rw [reading?, among, task?_solo]
  rw [drain, hr, Option.elim_some, applyTimes_among fun c =>
    (step_move c (.drain _ readSize)).nextId_eq rfl (by simp), iterate_solo drain_solo]
  rfl

theorem exit_among (id : Nat) :
    (s.among c w []).exit id = s.among (c.step (.exit id)) w [.settle id] := by
  have hc : (s.among c w []).closedGate? id = none := by simp [closedGate?, isOpen, among]
  rw [exit, hc]
  dsimp only
  rw [apply_among ((step_move _ (.exit _)).nextId_eq rfl (by simp))]
  rfl

theorem settle_among (ht : c.tasks = []) (hp : c.pending = []) :
    (s.among (c.ended root o ed) w []).settle c.nextId = s.among (c.built root o ed) w [] := by
  have hk : (s.among (c.ended root o ed) w []).coordinator.task? c.nextId =
      some ⟨c.nextId, root, .finished⟩ :=
    c.task?_solo root .finished ed
  have hs := settle_ended root ed ht hp o
  rw [settle, hk]
  dsimp only
  rw [apply_among, hs]
  rw [hs]
  rfl

theorem drive_settle (ht : c.tasks = []) (hp : c.pending = []) (n : Nat) :
    drive (n + 1) (s.among (c.ended root o ed) w [.settle c.nextId]) =
      s.among (c.built root o ed) w [] := by
  rw [drive_job, perform, settle_among ht hp, drive_nil]

theorem drive_output (s : Scheduler) (w : World) (root : Text) (ht : c.tasks = [])
    (hp : c.pending = []) (he : ed.Open) (p : Script) :
    ∃ ed', drive 4 (s.among (c.solo root (.reading (.start (Session.create root c.toolchain) p)) ed)
        w [.output c.nextId]) = s.among (c.built root (outcome root (.ok p)) ed') w [] := by
  obtain ⟨hover, hrun⟩ := Reading.run_ok_eq_parts (Session.create root c.toolchain) p c.indices ed
    (Nat.le_refl _) (Nat.le_refl _)
  have hkey (n m : Nat) := (congrArg Path.rootKey
    (Reading.reads_parts root c.toolchain p ed n m).root_eq).trans (Path.rootKey_absolute root)
  obtain ⟨ed', hexit⟩ := exit_solo (c := c) hover (hkey _ _)
  rw [← outcome_eq c.toolchain root (.ok p) c.indices he, hrun]
  refine ⟨ed', ?_⟩
  rw [drive_job, perform,
    output_among (q := (Reading.start (Session.create root c.toolchain) p, ed)), drive_job, perform,
    drain_among, drive_job, perform, exit_among, hexit, drive_settle ht hp 0]

theorem drive_begin (s : Scheduler) (root : Text) (ht : c.tasks = []) (hp : c.pending = [])
    (he : ed.Open) :
    ∃ ed' w, drive 5 (s.among (c.solo root .scheduled ed) s.world [.begin c.nextId]) =
        s.among (c.built root (outcome root (s.world.startAt 0)) ed') w [] ∧
      (s.world.afterStarts 1).Same w := by
  obtain ⟨hstart, hsame⟩ := s.world.spawn_eq (Session.create root c.toolchain).command
    (some (Session.create root c.toolchain).root)
  rw [← Session.spawn] at hstart hsame
  rw [drive_job, perform, begin_among, hstart]
  generalize ((Session.create root c.toolchain).spawn s.world).2 = w at hsame ⊢
  cases s.world.startAt 0 with
  | error fault =>
    obtain ⟨ed', hr⟩ := c.refuse_solo root ed (Session.create root c.toolchain) fault
    rw [hr]
    exact ⟨ed', w, drive_settle ht hp 3, hsame⟩
  | ok p =>
    obtain ⟨ed', hd⟩ := drive_output s w root ht hp he p
    rw [launch_solo]
    exact ⟨ed', w, hd, hsame⟩

/-- A build that is asked for and waited for has been made, with the next process. -/
theorem finish_build (h : s.Settled) (hm : s.hasManifest root) :
    (s.build root).2 = some s.coordinator.nextId ∧
    ∃ ed w, (s.build root).1.finish = s.among (s.coordinator.built (Path.absolute root)
        (outcome root (s.world.startAt 0)) ed) w [] ∧
      (s.world.afterStarts 1).Same w := by
  have htrigger : s.coordinator.trigger root true =
      (s.coordinator.start (Path.absolute root), some s.coordinator.nextId) := by
    rw [trigger, h.inflight]
    cases s.coordinator.singleFlight <;> rfl
  have hbuild : s.build root = ({ s with
      coordinator := s.coordinator.start (Path.absolute root)
      ready := [.begin s.coordinator.nextId] }, some s.coordinator.nextId) := by
    rw [build, hm, apply, Coordinator.step, htrigger]
    simp [newJobs, start, enqueue, h.ready]
  have hopen : (s.build root).1.openAll = s.among
      (s.coordinator.solo (Path.absolute root) .scheduled s.coordinator.editor) s.world
      [.begin s.coordinator.nextId] := by
    rw [hbuild, start_eq_solo h.tasks]
    simp [openAll, wake, h.waiting, enqueue, among]
  have hweight : (s.build root).1.openAll.weight = 5 := by
    rw [hopen]
    simp [weight, among, solo, start, h.pending, Job.weight]
  obtain ⟨ed', w, hd, hw⟩ := s.drive_begin (Path.absolute root) h.tasks h.pending h.editor
  rw [outcome_absolute] at hd
  refine ⟨congrArg Prod.snd hbuild, ed', w, ?_, hw⟩
  rw [finish, run, hweight, hopen, hd]

theorem Settled.finish_build (h : s.Settled) (hm : s.hasManifest root) :
    (s.build root).1.finish.Settled := by
  obtain ⟨events, he⟩ := (s.reaches_apply (.trigger root (s.hasManifest root))).trans
    (s.build root).1.reaches_finish
  have hlater := s.coordinator.later_run events
  rw [← he] at hlater
  have hed := h.editor.of_later hlater
  obtain ⟨-, ed, w, hf, -⟩ := Scheduler.finish_build h hm
  rw [hf] at hed ⊢
  refine ⟨h.tasks, h.pending, fun key => ?_, fun f hf => ?_, rfl, rfl, hed⟩
  · change ((s.coordinator.inflight.insert _ _).erase _).get? key = none
    rw [get?_erase, get?_insert, h.inflight]
    split_ifs with h₁ h₂
    · rfl
    · exact absurd h₂.symm h₁
    · rfl
  · rcases List.mem_append.mp hf with hf | hf
    · exact Nat.lt_succ_of_lt (h.old f hf)
    · rw [List.mem_singleton.mp hf]
      exact Nat.lt_succ_self _

theorem build_of_not_manifest (hm : s.hasManifest root = false) : s.build root = (s, none) := by
  rw [build, hm]
  simp [apply, Coordinator.step, trigger, newJobs, enqueue]

end Scheduler

end Workbench
