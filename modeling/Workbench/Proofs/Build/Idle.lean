import Workbench.Proofs.Build.Reading
import Workbench.Proofs.Build.Schedule

/-! # A scheduler gets idle

Every job leads to a lighter one or to none, and a request that was kept outweighs the task
that answers it. So the scheduler comes to a point where no job is left.
-/

namespace Workbench

open Build

theorem Build.Job.weight_pos (job : Job) : 0 < job.weight := by
  cases job <;> simp [Job.weight]

namespace Coordinator

variable [Surroundings] {c c' : Coordinator} {e : Event}

/-- What a step adds in tasks it takes from the requests that were kept. -/
theorem Move.load (hm : Move c e c') (he : c.request? e = none) :
    5 * (c'.nextId - c.nextId) + 6 * c'.pending.length ≤ 6 * c.pending.length := by
  cases hm with
  | coalesce h | start h => cases h.symm.trans he
  | @drop k =>
    have := List.length_erase_le (a := k.key) (l := c.pending)
    change 5 * (c.nextId - c.nextId) + 6 * (c.pending.erase k.key).length ≤ _
    omega
  | @follow k _ _ hk =>
    have hpos := List.length_pos_of_mem hk
    have herase := List.length_erase_of_mem hk
    rw [trigger_true]
    split_ifs
    · have hinsert : ((c.pending.erase k.key).insert (Path.rootKey k.root)).length ≤
          (c.pending.erase k.key).length + 1 := by
        rw [List.length_insert]
        split_ifs <;> omega
      simp only [discard]
      omega
    · change 5 * (c.nextId + 1 - c.nextId) + 6 * (c.pending.erase k.key).length ≤ _
      omega
  | _ => simp [setPhase, finish, discard]

end Coordinator

namespace Scheduler

variable {s : Scheduler} {e : Event} {job : Job}

theorem weight_eq (s : Scheduler) :
    s.weight = (s.ready.map Job.weight).sum + 6 * s.coordinator.pending.length := by
  rw [weight, List.sum_eq_foldr]

theorem weight_enqueue (s : Scheduler) (jobs : List Job) :
    (s.enqueue jobs).weight = s.weight + (jobs.map Job.weight).sum := by
  simp only [weight_eq, enqueue, List.map_append, List.sum_append]
  omega

theorem weight_newJobs (c c' : Coordinator) :
    ((newJobs c c').map Job.weight).sum = 5 * (c'.nextId - c.nextId) := by
  rw [newJobs, List.map_map]
  have h : (Job.weight ∘ Job.begin) = fun _ => 5 := rfl
  rw [h, List.map_const', List.sum_replicate, List.length_range']
  exact Nat.mul_comm _ _

theorem weight_of_ready {rest : List Job} (h : s.ready = job :: rest) :
    s.weight = { s with ready := rest }.weight + job.weight := by
  simp only [weight_eq, h, List.map_cons, List.sum_cons]
  omega

variable [Surroundings]

/-- A step that answers no request makes the rest no heavier. -/
theorem weight_apply (he : s.coordinator.request? e = none) : (s.apply e).weight ≤ s.weight := by
  have hload := (Coordinator.step_move s.coordinator e).load he
  rw [apply, weight_enqueue, weight_newJobs]
  simp only [weight_eq]
  omega

theorem weight_applyTimes {e : Event} (he : ∀ c : Coordinator, c.request? e = none) (n : Nat)
    (s : Scheduler) : (s.applyTimes e n).weight ≤ s.weight := by
  induction n generalizing s with
  | zero => exact Nat.le_refl _
  | succ n ih => exact (ih _).trans (weight_apply (he _))

theorem weight_perform (s : Scheduler) (job : Job) :
    (s.perform job).weight < s.weight + job.weight := by
  have hpos := job.weight_pos
  cases job with
  | begin id =>
    change (s.begin id).weight < _
    unfold begin
    split
    · exact Nat.lt_add_of_pos_right hpos
    · next t _ =>
      rcases ((Session.create t.root s.coordinator.toolchain).spawn s.world) with ⟨start, w⟩
      dsimp only
      rw [weight_enqueue]
      have h₁ := weight_apply (s := { s with world := w }) (e := .begin id) rfl
      have h₂ := weight_apply (s := ({ s with world := w } : Scheduler).apply (.begin id))
        (e := .launch id start) rfl
      have h₃ : ({ s with world := w } : Scheduler).weight = s.weight := rfl
      cases start <;> simp only [List.map_cons, List.map_nil, List.sum_cons, List.sum_nil,
        Job.weight] <;> omega
  | output id =>
    have h := weight_applyTimes (e := .output id readSize) (fun _ => rfl)
      ((s.reading? id).elim 0 Reading.outputParts) s
    change (s.output id).weight < _
    rw [output, weight_enqueue]
    simp only [List.map_cons, List.map_nil, List.sum_cons, List.sum_nil, Job.weight]
    omega
  | drain id =>
    have h := weight_applyTimes (e := .drain id readSize) (fun _ => rfl)
      ((s.reading? id).elim 0 Reading.errorParts) s
    change (s.drain id).weight < _
    rw [drain, weight_enqueue]
    simp only [List.map_cons, List.map_nil, List.sum_cons, List.sum_nil, Job.weight]
    omega
  | exit id =>
    change (s.exit id).weight < _
    unfold exit
    split
    · exact Nat.lt_add_of_pos_right hpos
    · have h := weight_apply (s := s) (e := .exit id) rfl
      rw [weight_enqueue]
      simp only [List.map_cons, List.map_nil, List.sum_cons, List.sum_nil, Job.weight]
      omega
  | settle id =>
    change (s.settle id).weight < _
    unfold settle
    split
    · exact Nat.lt_add_of_pos_right hpos
    · next t _ =>
      have h := weight_apply (s := s) (e := .settle id (s.hasManifest t.root)) rfl
      exact Nat.lt_of_le_of_lt h (Nat.lt_add_of_pos_right hpos)

/-- With enough steps allowed no job is left. -/
theorem ready_drive {n : Nat} (h : s.weight ≤ n) : (drive n s).ready = [] := by
  induction n generalizing s with
  | zero =>
    cases hr : s.ready with
    | nil => exact hr
    | cons job rest =>
      have := job.weight_pos
      have := weight_of_ready hr
      omega
  | succ n ih =>
    unfold drive
    cases hr : s.ready with
    | nil => exact hr
    | cons job rest =>
      refine ih ?_
      have := weight_perform { s with ready := rest } job
      have := weight_of_ready hr
      omega

theorem ready_run (s : Scheduler) : s.run.ready = [] := ready_drive (Nat.le_refl _)

theorem run_keeps {P : Scheduler → Prop} (hs : P s)
    (h : ∀ {s : Scheduler} {job : Job} {rest : List Job}, s.ready = job :: rest → P s →
      P ({ s with ready := rest }.perform job)) : P s.run := by
  have key (n : Nat) : ∀ {s : Scheduler}, P s → P (drive n s) := by
    induction n with
    | zero => exact fun hs => hs
    | succ n ih =>
      intro s hs
      unfold drive
      split
      · exact hs
      · next job rest hr => exact ih (h hr hs)
  exact key _ hs

end Scheduler

/-! ## Reading to the end -/

namespace Reading

variable {r : Reading} {e : Editor}

def OutputOver (r : Reading) : Prop := r.crash ≠ none ∨ r.output = none

theorem isOver_iff : r.isOver ↔ r.ended ≠ none ∨ r.output = none ∧ r.errors = none := by
  simp [isOver, Option.isSome_iff_ne_none]

theorem isOver_of_outputOver (h : r.OutputOver) (he : r.errors = none) : r.isOver :=
  isOver_iff.mpr <| h.imp (fun hc hn => hc (ended_eq_none_iff.mp hn).2) fun ho => ⟨ho, he⟩

def partsLeft (bytes : List UInt8) : Nat := (bytes.length + (readSize - 1)) / readSize + 1

theorem partsLeft_pos (bytes : List UInt8) : 0 < partsLeft bytes := Nat.succ_pos _

theorem partsLeft_le (bytes : List UInt8) : partsLeft bytes ≤ parts bytes := by
  simp only [partsLeft, parts, readSize]
  omega

theorem partsLeft_drop (b : UInt8) (bs : List UInt8) :
    partsLeft ((b :: bs).drop (portion readSize)) + 1 = partsLeft (b :: bs) := by
  have hportion : portion readSize = 65536 := by decide
  rw [hportion]
  simp only [partsLeft, List.length_drop, List.length_cons, readSize]
  omega

def outputLeft (r : Reading) : Nat :=
  match r.crash, r.output with
  | none, some bytes => partsLeft bytes
  | _, _ => 0

theorem outputOver_of_left (h : r.outputLeft = 0) : r.OutputOver := by
  unfold outputLeft at h
  split at h
  · exact absurd h (partsLeft_pos _).ne'
  · next hn =>
    by_contra ho
    obtain ⟨hc, ho⟩ := not_or.mp ho
    obtain ⟨bytes, ho⟩ := Option.ne_none_iff_exists'.mp ho
    exact hn bytes (not_not.mp hc) ho

theorem outputLeft_le (r : Reading) : r.outputLeft ≤ r.outputParts := by
  unfold outputLeft outputParts
  split
  · next bytes _ ho =>
    rw [ho]
    exact partsLeft_le bytes
  · exact Nat.zero_le _

theorem outputLeft_afterPart (left : Option (List UInt8)) (out : Session × Editor × Option Crash) :
    (r.afterPart left out).1.outputLeft ≤ left.elim 0 partsLeft := by
  obtain ⟨s, e, _ | c⟩ := out
  · cases left <;> exact Nat.le_refl _
  · exact Nat.zero_le _

theorem outputLeft_readOutput [Surroundings] (r : Reading) (e : Editor) :
    (r.readOutput e readSize).1.outputLeft ≤ r.outputLeft - 1 := by
  unfold readOutput
  cases hc : r.crash with
  | some c => simp [outputLeft, hc]
  | none =>
    cases ho : r.output with
    | none => simp [outputLeft, hc, ho]
    | some bytes =>
      have hleft : r.outputLeft = partsLeft bytes := by simp [outputLeft, hc, ho]
      rw [hleft]
      cases bytes with
      | nil => exact (outputLeft_afterPart _ _).trans (Nat.zero_le _)
      | cons b bs =>
        refine (outputLeft_afterPart _ _).trans ?_
        rw [Option.elim_some, ← partsLeft_drop, Nat.add_sub_cancel]

def errorsLeft (r : Reading) : Nat := r.errors.elim 0 (partsLeft ·.2)

theorem errors_of_left (h : r.errorsLeft = 0) : r.errors = none := by
  unfold errorsLeft at h
  cases he : r.errors with
  | none => rfl
  | some u =>
    rw [he] at h
    exact absurd h (partsLeft_pos _).ne'

theorem errorsLeft_le (r : Reading) : r.errorsLeft ≤ r.errorParts := by
  unfold errorsLeft errorParts
  cases r.errors with
  | none => exact Nat.le_refl _
  | some u => exact partsLeft_le u.2

theorem errorsLeft_afterErrors (left : Option (Utf8.State × List UInt8))
    (out : Editor × Option Crash) :
    (r.afterErrors left out).1.errorsLeft ≤ left.elim 0 (partsLeft ·.2) := by
  obtain ⟨e, _ | c⟩ := out
  · exact Nat.le_refl _
  · exact Nat.zero_le _

theorem errorsLeft_readErrors (r : Reading) (e : Editor) :
    (r.readErrors e readSize).1.errorsLeft ≤ r.errorsLeft - 1 := by
  have hleft : r.errorsLeft = r.errors.elim 0 (partsLeft ·.2) := rfl
  unfold readErrors
  split
  · next he => simp [hleft, he]
  · exact (errorsLeft_afterErrors _ _).trans (Nat.zero_le _)
  · next u bytes hb he =>
    obtain ⟨b, bs, rfl⟩ := List.exists_cons_of_ne_nil hb
    refine (errorsLeft_afterErrors _ _).trans ?_
    rw [hleft, he, Option.elim_some, Option.elim_some, ← partsLeft_drop, Nat.add_sub_cancel]

theorem afterErrors_keeps (left : Option (Utf8.State × List UInt8)) (out : Editor × Option Crash) :
    (r.afterErrors left out).1.crash = r.crash ∧ (r.afterErrors left out).1.output = r.output ∧
      (r.ended ≠ none → (r.afterErrors left out).1.ended ≠ none) := by
  obtain ⟨e, _ | c⟩ := out
  · exact ⟨rfl, rfl, id⟩
  · refine ⟨rfl, rfl, fun _ hn => ?_⟩
    obtain ⟨hf, hc⟩ := ended_eq_none_iff.mp hn
    change r.crash = none at hc
    simp [afterErrors, hc] at hf

theorem readErrors_keeps (r : Reading) (e : Editor) (n : Nat) :
    (r.readErrors e n).1.crash = r.crash ∧ (r.readErrors e n).1.output = r.output ∧
      (r.ended ≠ none → (r.readErrors e n).1.ended ≠ none) := by
  unfold readErrors
  split
  · exact ⟨rfl, rfl, id⟩
  · exact afterErrors_keeps _ _
  · exact afterErrors_keeps _ _

end Reading

end Workbench
