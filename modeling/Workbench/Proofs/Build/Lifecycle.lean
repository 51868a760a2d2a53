import Workbench.Proofs.Build.Abort

/-! # The life of a session

A session is created, runs, commits and is done, in this order. A kill makes it done as
well, wherever it stands. So a session whose process never reports a status is done before
it commits, and a session that is stopped behind a status is never done. In all other runs
the order is kept and the end is reached, unless the process cannot even be asked for.
-/

namespace Workbench

def SessionState.stage : SessionState → ℕ
  | created => 0
  | running => 1
  | committing => 2
  | done => 3

namespace Session

/-- Each state stands behind all those passed before it, so none is entered again. -/
def MovesForward (s : Session) : Prop := s.passed.Pairwise (·.stage < ·.stage)

/-- Nothing is committed once the session has been done. -/
def CommitsBeforeDone (s : Session) : Prop :=
  s.life.Pairwise fun m m' => m = .entered .done → m' ≠ .committed

instance (s : Session) : Decidable s.MovesForward :=
  inferInstanceAs (Decidable (List.Pairwise _ _))

instance (s : Session) : Decidable s.CommitsBeforeDone :=
  inferInstanceAs (Decidable (List.Pairwise _ _))

variable {root : Text} {t : Toolchain} {start : Start} {p : Script} {x : Indices} {e : Editor}
  {out : Ending}

@[simp] theorem life_enter (s : Session) (st : SessionState) :
    (s.enter st).life = s.life ++ [.entered st] := rfl

variable [Surroundings]

@[simp] theorem life_commit (s : Session) (code : Option Int) :
    (s.commit x code).1.life = s.life ++ [.committed] := rfl

omit [Surroundings] in
theorem life_release (s : Session) (q : Process) :
    (s.release q).1.life = s.life ++ if q.status = none then [.entered .done] else [] := by
  unfold release
  cases q.status <;> simp

theorem life_leave_some (s : Session) (c : Crash) :
    (s.leave p (some c) x e).session.life =
      s.life ++ if p.exit.known = none then [.entered .done] else [] :=
  s.life_release { exit := p.exit }

theorem life_leave_none (s : Session) :
    (s.leave p none x e).session.life =
      s.life ++ (if p.exit.code = none then [.entered .done] else []) ++
        [.entered .committing, .committed, .entered .done] := by
  have h : (s.release (Process.wait { exit := p.exit })).1.life =
      s.life ++ if p.exit.code = none then [.entered .done] else [] := s.life_release _
  simp only [leave, life_enter, life_commit, h, List.append_assoc]
  rfl

/-- A session is created and runs; behind that stands what its process and its output make
of the way it is left. -/
theorem life_run_ok (root : Text) (t : Toolchain) (p : Script) (x : Indices) (e : Editor) :
    ((∃ c, ((create root t).run (.ok p) x e).result = .error (.crash c)) ∧
      ((create root t).run (.ok p) x e).session.life =
        [.entered .created, .entered .running] ++
          if p.exit.known = none then [.entered .done] else []) ∨
    ((∃ r, ((create root t).run (.ok p) x e).result = .ok r) ∧
      ((create root t).run (.ok p) x e).session.life =
        [.entered .created, .entered .running] ++
          (if p.exit.code = none then [.entered .done] else []) ++
            [.entered .committing, .committed, .entered .done]) := by
  rw [run]
  cases (((create root t).enter .running).readOutput e p.outChunks).2.2.or
    (forwardErrors _ _).2 with
  | some c => exact .inl ⟨⟨c, leave_some _ c⟩, life_leave_some _ c⟩
  | none => exact .inr ⟨⟨_, (leave_none _).2⟩, life_leave_none _⟩

/-- The states are passed in their order, and nothing is committed once the session has been
done, just unless a session with a result has a process that never reports a status. The
session is done in the end just unless its command cannot be handed to the system, or it crashes
behind a status that its process has reported. A session commits just when it has a result,
once. -/
theorem run_lifecycle (ho : (create root t).run start x e = out) :
    (out.session.MovesForward ↔
      ¬ ∃ p r, start = .ok p ∧ p.exit.code = none ∧ out.result = .ok r) ∧
    (out.session.CommitsBeforeDone ↔
      ¬ ∃ p r, start = .ok p ∧ p.exit.code = none ∧ out.result = .ok r) ∧
    (out.session.state = .done ↔ (∀ m, start ≠ .error (.malformed m)) ∧
      ¬ ∃ p c, start = .ok p ∧ p.exit.known ≠ none ∧ out.result = .error (.crash c)) ∧
    out.session.life.count .committed = (if out.result.toOption.isSome then 1 else 0) := by
  subst ho
  cases start with
  | error fault =>
    cases fault <;>
      simp [MovesForward, CommitsBeforeDone, state, run, unstarted, passed, create, Mark.state?,
        SessionState.stage, Except.toOption]
  | ok p =>
    rcases life_run_ok root t p x e with ⟨⟨c, hr⟩, hl⟩ | ⟨⟨r, hr⟩, hl⟩
    · rw [MovesForward, CommitsBeforeDone, state, passed, hl, hr]
      cases hk : p.exit.known <;>
        simp [Mark.state?, SessionState.stage, hk, Except.toOption]
    · rw [MovesForward, CommitsBeforeDone, state, passed, hl, hr]
      cases hk : p.exit.code <;>
        simp [List.filterMap_cons, Mark.state?, SessionState.stage, hk, Except.toOption]

end Session

open Surroundings in
theorem Session.run_lifecycle_of_status :
    ∃ (p : Script) (out : Ending), p.exit = .status 1 ∧
      (create [] default).run (.ok p) {} {} = out ∧ out.session.MovesForward ∧
      out.session.CommitsBeforeDone ∧ out.session.state = .done ∧
      out.session.life.count .committed = 1 := by
  obtain ⟨out, ho, hr⟩ : ∃ out, (create [] default).run (.ok { exit := .status 1 }) {} {} = out ∧
      out.result.toOption.isSome := ⟨_, rfl, by decide +kernel⟩
  obtain ⟨hf, hc, hd, hn⟩ := run_lifecycle ho
  refine ⟨{ exit := .status 1 }, out, rfl, ho, hf.mpr ?_, hc.mpr ?_, hd.mpr ⟨nofun, ?_⟩, ?_⟩
  · rintro ⟨_, _, ⟨⟩, hn, -⟩
    cases hn
  · rintro ⟨_, _, ⟨⟩, hn, -⟩
    cases hn
  · rintro ⟨_, _, ⟨⟩, hn, -⟩
    exact hn rfl
  · rw [hn, hr]
    rfl

open Surroundings in
/-- A process that never reports a status: its session is done, commits, and is done again.
A crash behind a status: its session runs for ever. -/
theorem Session.run_not_forward :
    (∃ out, (create [] default).run (.ok { exit := .silent }) {} {} = out ∧
      out.session.passed = [.created, .running, .done, .committing, .done] ∧
      ¬ out.session.MovesForward ∧ ¬ out.session.CommitsBeforeDone ∧ out.indices ≠ {}) ∧
    ∃ out, (create [] default).run (.ok { out := [0x5B, 0x0A], exit := .reported 0 }) {}
        { closed := true } = out ∧
      out.session.passed = [.created, .running] ∧ out.session.state ≠ .done := by
  refine ⟨⟨_, rfl, ?_, ?_, ?_, ?_⟩, ⟨_, rfl, ?_, ?_⟩⟩
  all_goals decide +kernel

end Workbench
