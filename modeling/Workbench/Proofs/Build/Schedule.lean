import Workbench.Build.Schedule
import Workbench.Proofs.Build.Steps

/-! # Schedules are runs

Whatever a scheduler does to its coordinator is a run of steps. So what holds of a
coordinator after all events in any order holds of the schedules too.
-/

namespace Workbench

open Build

namespace Scheduler

variable {s s' s'' : Scheduler}

variable [Surroundings]

/-- Steps lead from the coordinator of one scheduler to that of another. -/
def Reaches (s s' : Scheduler) : Prop :=
  ∃ events, s'.coordinator = s.coordinator.run events

theorem Reaches.trans (h : s.Reaches s') (h' : s'.Reaches s'') : s.Reaches s'' := by
  obtain ⟨es, h⟩ := h
  obtain ⟨es', h'⟩ := h'
  exact ⟨es ++ es', by rw [h', h, Coordinator.run_append]⟩

theorem reaches_of_eq (h : s'.coordinator = s.coordinator) : s.Reaches s' := ⟨[], h⟩

theorem reaches_apply (s : Scheduler) (e : Event) : s.Reaches (s.apply e) := ⟨[e], rfl⟩

theorem reaches_applyTimes (s : Scheduler) (e : Event) (n : Nat) :
    s.Reaches (s.applyTimes e n) := by
  induction n generalizing s with
  | zero => exact reaches_of_eq rfl
  | succ n ih => exact (s.reaches_apply e).trans (ih _)

theorem reaches_begin (s : Scheduler) (id : Nat) : s.Reaches (s.begin id) := by
  unfold begin
  split
  · exact reaches_of_eq rfl
  · exact ⟨[.begin id, .launch id _], rfl⟩

theorem reaches_output (s : Scheduler) (id : Nat) : s.Reaches (s.output id) :=
  (s.reaches_applyTimes _ _).trans (reaches_of_eq rfl)

theorem reaches_drain (s : Scheduler) (id : Nat) : s.Reaches (s.drain id) :=
  (s.reaches_applyTimes _ _).trans (reaches_of_eq rfl)

theorem reaches_exit (s : Scheduler) (id : Nat) : s.Reaches (s.exit id) := by
  unfold exit
  split
  · exact reaches_of_eq rfl
  · exact ⟨[.exit id], rfl⟩

theorem reaches_settle (s : Scheduler) (id : Nat) : s.Reaches (s.settle id) := by
  unfold settle
  split
  · exact reaches_of_eq rfl
  · exact s.reaches_apply _

theorem reaches_perform (s : Scheduler) (job : Job) : s.Reaches (s.perform job) := by
  cases job with
  | begin id => exact s.reaches_begin id
  | output id => exact s.reaches_output id
  | drain id => exact s.reaches_drain id
  | exit id => exact s.reaches_exit id
  | settle id => exact s.reaches_settle id

theorem reaches_drive (n : Nat) (s : Scheduler) : s.Reaches (drive n s) := by
  induction n generalizing s with
  | zero => exact reaches_of_eq rfl
  | succ n ih =>
    unfold drive
    split
    · exact reaches_of_eq rfl
    · next job rest _ =>
      have h : s.Reaches { s with ready := rest } := reaches_of_eq rfl
      exact (h.trans (reaches_perform _ job)).trans (ih _)

theorem reaches_rebuild {uri : Text} {o : Option Nat} (h : s.rebuild uri = .ok (s', o)) :
    s.Reaches s' := by
  unfold rebuild at h
  rcases hr : s.coordinator.rootOf uri with c | _ | root
  · rw [hr] at h
    cases h
  · rw [hr] at h
    cases h
    exact reaches_of_eq rfl
  · rw [hr] at h
    cases h
    exact s.reaches_apply _

theorem reaches_finish (s : Scheduler) : s.Reaches s.finish :=
  Reaches.trans (reaches_of_eq rfl) (reaches_drive _ s.openAll)

end Scheduler

end Workbench
