import Workbench.Proofs.Build.Answers
import Workbench.Proofs.Build.Steps

/-! # What becomes of a session that fails

A session fails when its process cannot be started, or when reading its output has crashed
and it is left. In either step one error is shown and one end is recorded, without a result.
No other step shows an error or records such an end, whatever is read and printed.
-/

namespace Workbench

open Build

/-! ## Errors that are shown -/

namespace Editor

def shown (e : Editor) : List Text := errors e.calls

theorem shown_call (e : Editor) (c : Call) : (e.call c).shown = e.shown ++ errors [c] :=
  List.filterMap_append

theorem shown_showError (e : Editor) (t : Text) : (e.showError t).shown = e.shown ++ [t] :=
  e.shown_call (.showError t)

theorem shown_showOutput (e : Editor) : e.showOutput.shown = e.shown :=
  (e.shown_call .showOutput).trans (List.append_nil _)

theorem shown_add (e : Editor) (k : Entry) (t : Text) : (e.add k t).1.shown = e.shown := by
  unfold add
  split
  · rw [shown_call, shown, calls_behind]
    cases k <;> exact List.append_nil _
  · rw [shown, calls_behind]
    rfl

end Editor

variable [Surroundings]

namespace Session

theorem shown_leave (s : Session) (p : Script) (x : Indices) (e : Editor) :
    (s.leave p none x e).editor.shown = e.shown := by
  unfold leave
  dsimp only
  split_ifs
  · rfl
  · exact e.shown_showOutput

end Session

namespace Reading

theorem shown_readOutput (r : Reading) (e : Editor) (n : Nat) :
    (r.readOutput e n).2.shown = e.shown :=
  readOutput_keeps (P := fun e' => e'.shown = e.shown)
    (fun e' t h => (e'.shown_add .line t).trans h) r n rfl

omit [Surroundings] in
theorem shown_readErrors (r : Reading) (e : Editor) (n : Nat) :
    (r.readErrors e n).2.shown = e.shown :=
  readErrors_keeps_editor (P := fun e' => e'.shown = e.shown)
    (fun e' t h => (e'.shown_add .piece t).trans h) r n rfl

end Reading

/-! ## Failures -/

namespace Build

/-- The failure of the session of a task. -/
structure Failed where
  task : Nat
  root : Text
  problem : Problem

namespace Failed

def message (f : Failed) : Text := Coordinator.problemMessage f.root f.problem

def finish (f : Failed) : Finish := ⟨f.task, f.root, none⟩

end Failed

end Build

namespace Coordinator

variable {c c' : Coordinator} {e : Event}

/-- The session that a step lets fail: a process was not started, or a crash is told of. -/
def failed? (c : Coordinator) : Event → Option Failed
  | .launch id (.error fault) =>
    match c.task? id with
    | some ⟨_, root, .spawning s⟩ => some ⟨id, root, fault.problem s.command⟩
    | _ => none
  | .exit id =>
    match c.task? id with
    | some ⟨_, root, .reading r⟩ => r.ended.map fun cr => ⟨id, root, .crash cr⟩
    | _ => none
  | _ => none

def failures (c : Coordinator) : List Event → List Failed
  | [] => []
  | e :: es => (c.failed? e).toList ++ (c.step e).failures es

theorem failures_append (c : Coordinator) (es es' : List Event) :
    c.failures (es ++ es') = c.failures es ++ (c.run es).failures es' := by
  induction es generalizing c with
  | nil => rfl
  | cons e es ih =>
    rw [List.cons_append, failures, failures, ih, List.append_assoc]
    rfl

def withoutResult (c : Coordinator) : List Finish := c.finished.filter (·.outcome.isNone)

/-- Some failures are told, each with one error and one end. -/
structure Tells (c c' : Coordinator) (fs : List Failed) : Prop where
  shown : c'.editor.shown = c.editor.shown ++ fs.map Failed.message
  ends : c'.withoutResult = c.withoutResult ++ fs.map Failed.finish

omit [Surroundings] in
theorem Tells.of_eq (hs : c'.editor.shown = c.editor.shown) (he : c'.finished = c.finished) :
    c.Tells c' [] := by
  constructor
  · rw [hs]
    exact (List.append_nil _).symm
  · rw [withoutResult, he]
    exact (List.append_nil _).symm

omit [Surroundings] in
theorem Tells.trans {c'' : Coordinator} {fs fs' : List Failed} (h : c.Tells c' fs)
    (h' : c'.Tells c'' fs') : c.Tells c'' (fs ++ fs') := by
  constructor
  · rw [h'.shown, h.shown, List.map_append, List.append_assoc]
  · rw [h'.ends, h.ends, List.map_append, List.append_assoc]

omit [Surroundings] in
theorem tells_finish (c : Coordinator) (id : Nat) (root : Text) (p : Problem) :
    c.Tells ((c.showError (problemMessage root p)).finish ⟨id, root, .finished⟩ none)
      [⟨id, root, p⟩] := by
  constructor
  · exact c.editor.shown_showError _
  · exact List.filter_append _ _

theorem Move.tells (hm : Move c e c') (hl : ∀ id fault, e ≠ .launch id (.error fault))
    (hx : ∀ id, e ≠ .exit id) : c.Tells c' [] := by
  cases hm with
  | refuse => exact absurd rfl (hl _ _)
  | crash | commit => exact absurd rfl (hx _)
  | output => exact .of_eq (Reading.shown_readOutput _ _ _) rfl
  | drain => exact .of_eq (Reading.shown_readErrors _ _ _) rfl
  | follow =>
    rw [trigger_true]
    split_ifs
    · exact .of_eq rfl rfl
    · exact .of_eq rfl rfl
  | _ => exact .of_eq rfl rfl

omit [Surroundings] in
theorem launch_tells (c : Coordinator) (id : Nat) (fault : StartFault) :
    c.Tells (c.launch id (.error fault)) (c.failed? (.launch id (.error fault))).toList := by
  have hf : c.failed? (.launch id (.error fault)) = match c.task? id with
      | some ⟨_, root, .spawning s⟩ => some ⟨id, root, fault.problem s.command⟩
      | _ => none := rfl
  rw [launch, hf]
  cases c.task? id with
  | none => exact .of_eq rfl rfl
  | some k =>
    obtain ⟨_, root, phase⟩ := k
    cases phase with
    | spawning s => exact c.tells_finish id root _
    | _ => exact .of_eq rfl rfl

theorem exit_tells (c : Coordinator) (id : Nat) :
    c.Tells (c.exit id) (c.failed? (.exit id)).toList := by
  have hf : c.failed? (.exit id) = match c.task? id with
      | some ⟨_, root, .reading r⟩ => r.ended.map fun cr => ⟨id, root, .crash cr⟩
      | _ => none := rfl
  rw [exit, hf]
  cases c.task? id with
  | none => exact .of_eq rfl rfl
  | some k =>
    obtain ⟨_, root, phase⟩ := k
    cases phase with
    | reading r =>
      dsimp only
      cases hc : r.ended with
      | some cr =>
        -- Nothing is read any more after a crash, so the session is left at once.
        have ho : r.isOver := by rw [Reading.isOver, hc]; rfl
        rw [if_pos ho, Reading.leave, hc, Session.leave_some]
        exact c.tells_finish id root (.crash cr)
      | none =>
        split_ifs
        · obtain ⟨-, hr⟩ :=
            Session.leave_none (p := r.script) (x := c.indices) (e := c.editor) r.session
          rw [Reading.leave, hc, hr]
          constructor
          · exact (r.session.shown_leave r.script c.indices c.editor).trans (List.append_nil _).symm
          · exact List.filter_append _ _
        · exact .of_eq rfl rfl
    | _ => exact .of_eq rfl rfl

/-- A session whose process could not be started, or that is left after a crash, is told of
once, and nothing else is. -/
theorem step_tells (c : Coordinator) (e : Event) : c.Tells (c.step e) (c.failed? e).toList := by
  have hm := step_move c e
  cases e with
  | launch id start =>
    cases start with
    | error fault => exact c.launch_tells id fault
    | ok p => exact hm.tells nofun nofun
  | exit id => exact c.exit_tells id
  | _ => exact hm.tells nofun nofun

theorem run_tells (c : Coordinator) (es : List Event) : c.Tells (c.run es) (c.failures es) := by
  induction es using List.reverseRecOn with
  | nil => exact .of_eq rfl rfl
  | append_singleton es e ih =>
    rw [run_concat, failures_append]
    have h := ih.trans (step_tells (c.run es) e)
    rwa [← List.append_nil (failed? _ e).toList] at h

end Coordinator

end Workbench
