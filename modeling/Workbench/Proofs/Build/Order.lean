import Workbench.Proofs.Build.Tended
import Workbench.Proofs.Build.Undisturbed

/-! # Processes are started in order

Tasks begin in the order of their numbers, so the process of a task is told by its number,
whatever else happens in between.
-/

namespace Workbench

open Build

/-- What the attempt comes to that is made behind a number of others. -/
def World.startAt (w : World) (n : Nat) : Start :=
  w.starts.getD n (.error (.refused "no more scripted processes"))

theorem World.spawn_of_drop {w v : World} {n : Nat} (h : v.starts = w.starts.drop n)
    (command : List Text) (directory : Option Text) :
    (v.spawn command directory).1 = w.startAt n ∧
      (v.spawn command directory).2.starts = w.starts.drop (n + 1) := by
  have hn : w.starts[n]? = (w.starts.drop n).head? := List.head?_drop.symm
  rw [startAt, List.getD_eq_getElem?_getD, hn, ← List.tail_drop, ← h, World.spawn]
  cases v.starts with
  | nil => exact ⟨rfl, rfl⟩
  | cons start rest => exact ⟨rfl, rfl⟩

variable [Surroundings]

namespace Coordinator

variable {c c' : Coordinator} {e : Event} {k : Task} {id : Nat} {events : List Event}
  {start : Start}

theorem Move.scheduled (hm : Move c e c') (hn : c.books.Numbered)
    (hp : c.phase? id = some .scheduled) (he : e ≠ .begin id) :
    c'.phase? id = some .scheduled := by
  obtain ⟨root, ht⟩ := exists_task? hp
  have hk := mem_of_task? ht
  have hother {i : Task} (hi : c.task? i.id = some i) (hne : i.phase ≠ .scheduled) : id ≠ i.id := by
    intro hid
    exact hne (by rw [hn.eq_of_id (mem_of_task? hi) hk hid.symm])
  have hset {i : Task} {phase : Phase} (hi : c.task? i.id = some i) (hid : id ≠ i.id) :
      ⟨id, root, .scheduled⟩ ∈ (c.setPhase i.id phase).tasks :=
    (mem_setPhase hi hn).mpr (.inr ⟨hk, hid⟩)
  suffices ⟨id, root, .scheduled⟩ ∈ c'.tasks from phase?_eq (hn.step hm) this
  cases hm with
  | idle | coalesce => exact hk
  | start => exact mem_start.mpr (.inl hk)
  | @begin i hi =>
    refine hset hi ?_
    rintro rfl
    exact he rfl
  | launch hi hp | refuse hi hp | output hi hp | drain hi hp | crash hi hp | commit hi hp =>
    exact hset hi (hother hi (by rw [hp]; exact nofun))
  | settle hi hp | drop hi hp =>
    exact mem_discard.mpr ⟨hk, hother hi (by rw [hp]; exact nofun)⟩
  | follow hi hp =>
    have hd := mem_discard.mpr ⟨hk, hother hi (by rw [hp]; exact nofun)⟩
    rw [trigger_true]
    split_ifs
    · exact hd
    · exact mem_start.mpr (.inl hd)

theorem scheduled_of_new (hn : c.books.Numbered) (hid : c.nextId ≤ id)
    (hlt : id < (c.step e).nextId) : (c.step e).phase? id = some .scheduled := by
  have hm := step_move c e
  rcases hm.tasks with ⟨-, h⟩ | ⟨old, key, -, ht, h⟩
  · omega
  · obtain rfl : id = c.nextId := by omega
    refine phase?_eq (hn.step hm) (k := ⟨c.nextId, key, .scheduled⟩) ?_
    rw [ht]
    exact List.mem_append_right _ List.mem_cons_self

/-- A start that was learnt of by then was learnt of before, or in the last step. -/
theorem Launched.of_concat (h : c.Launched (events ++ [e]) id start) :
    c.Launched events id start ∨ e = .launch id start := by
  obtain ⟨before, after, k, s, he, hk, hp⟩ := h
  rcases List.eq_nil_or_concat' after with rfl | ⟨front, last, rfl⟩
  · exact .inr (List.cons.inj (List.append_inj' he rfl).2).1
  · rw [← List.cons_append, ← List.append_assoc] at he
    exact .inl ⟨before, front, k, s, (List.append_inj' he rfl).1, hk, hp⟩

theorem Launched.of_append {es es' : List Event} (h : c.Launched (es ++ es') id start) :
    c.Launched es id start ∨ (c.run es).Launched es' id start := by
  obtain ⟨before, after, k, s, he, hk, hp⟩ := h
  rcases List.append_eq_append_iff.mp he with ⟨mid, rfl, h⟩ | ⟨mid, rfl, h⟩
  · rw [run_append] at hk
    exact .inr ⟨mid, after, k, s, h, hk, hp⟩
  · cases mid with
    | nil => exact .inr ⟨[], after, k, s, h.symm, by rwa [List.append_nil], hp⟩
    | cons e mid =>
      obtain ⟨rfl, -⟩ := List.cons.inj h
      exact .inl ⟨before, mid, k, s, rfl, hk, hp⟩

theorem head_of_end (hf : c.finished = []) (events : List Event) :
    ∀ f ∈ (c.run events).finished, f.task < c.nextId → (f.task, f.root) ∈ c.books.heads := by
  induction events using List.reverseRecOn with
  | nil =>
    intro f h
    rw [run, List.foldl_nil, hf] at h
    cases h
  | append_singleton events e ih =>
    rw [run_concat]
    rcases (step_move (c.run events) e).finished with h | ⟨k, hk, -, o, h⟩
    · rw [h]
      exact ih
    · rw [h]
      intro f hf hlt
      rcases List.mem_append.mp hf with hf | hf
      · exact ih f hf hlt
      · obtain rfl := List.mem_singleton.mp hf
        exact mem_heads_of_run (head_mem hk) hlt

end Coordinator

namespace Build

def Job.begins? : Job → Option Nat
  | begin id => some id
  | _ => none

/-- The event lets a task begin below a number only, and tells of a process what the world has. -/
def Event.InOrder (w : World) (m : Nat) : Event → Prop
  | begin id => id < m
  | launch id start => start = w.startAt id
  | _ => True

end Build

namespace Scheduler

open Coordinator

variable {c₀ : Coordinator} {w : World} {s : Scheduler} {m : Nat} {e : Event} {job : Job}
  {rest : List Job}

/-- The tasks below a number have begun, with the starts that the world had for them; the
others begin in order. -/
structure Orderly (c₀ : Coordinator) (w : World) (s : Scheduler) (m : Nat) : Prop where
  accounted : s.coordinator.Accounted
  le : m ≤ s.coordinator.nextId
  begins : s.ready.filterMap Job.begins? = List.range' m (s.coordinator.nextId - m)
  scheduled : ∀ id, m ≤ id → id < s.coordinator.nextId → s.coordinator.phase? id = some .scheduled
  starts : s.world.starts = w.starts.drop m
  launched : ∃ events, s.coordinator = c₀.run events ∧
    ∀ id start, c₀.Launched events id start → start = w.startAt id

omit [Surroundings] in
theorem begins_newJobs (c c' : Coordinator) :
    (newJobs c c').filterMap Job.begins? = List.range' c.nextId (c'.nextId - c.nextId) := by
  rw [newJobs, List.filterMap_map]
  exact List.filterMap_some

namespace Orderly

theorem restart (h : s.Orderly c₀ w m) : s.Orderly s.coordinator w m :=
  { h with launched := ⟨[], rfl, fun _ _ ⟨before, _, _, _, he, _⟩ => by cases before <;> cases he⟩ }

theorem apply (h : s.Orderly c₀ w m) (he : e.InOrder w m) : (s.apply e).Orderly c₀ w m := by
  have hm := step_move s.coordinator e
  have hle := hm.nextId_le
  have hml := h.le
  refine ⟨h.accounted.step hm, hml.trans hle, ?_, fun id hid hlt => ?_, h.starts, ?_⟩
  · change (s.ready ++ newJobs s.coordinator (s.coordinator.step e)).filterMap _ =
      List.range' m ((s.coordinator.step e).nextId - m)
    rw [List.filterMap_append, h.begins, begins_newJobs]
    obtain ⟨n, hn⟩ := Nat.exists_eq_add_of_le hml
    obtain ⟨n', hn'⟩ := Nat.exists_eq_add_of_le hle
    rw [hn', hn, Nat.add_sub_cancel_left, Nat.add_sub_cancel_left, Nat.add_assoc,
      Nat.add_sub_cancel_left, List.range'_append_1]
  · by_cases hold : id < s.coordinator.nextId
    · refine hm.scheduled h.accounted.numbered (h.scheduled id hid hold) ?_
      rintro rfl
      exact absurd he (Nat.not_lt.mpr hid)
    · exact scheduled_of_new h.accounted.numbered (Nat.not_lt.mp hold) hlt
  · obtain ⟨events, hc, hs⟩ := h.launched
    refine ⟨events ++ [e], ?_, fun id start hlaunched => ?_⟩
    · rw [run_concat, ← hc]
      rfl
    · rcases hlaunched.of_concat with h' | hlast
      · exact hs id start h'
      · subst e
        exact he

theorem applyTimes (h : s.Orderly c₀ w m) (he : e.InOrder w m) (n : Nat) :
    (s.applyTimes e n).Orderly c₀ w m := by
  induction n generalizing s with
  | zero => exact h
  | succ n ih => exact ih (h.apply he)

theorem enqueue (h : s.Orderly c₀ w m) {jobs : List Job}
    (hj : jobs.filterMap Job.begins? = []) : (s.enqueue jobs).Orderly c₀ w m :=
  ⟨h.accounted, h.le,
    by rw [Scheduler.enqueue, List.filterMap_append, hj, List.append_nil, h.begins],
    h.scheduled, h.starts, h.launched⟩

theorem eq_of_begin {id : Nat} (h : s.Orderly c₀ w m) (hr : s.ready = .begin id :: rest) :
    id = m ∧ m < s.coordinator.nextId ∧ rest.filterMap Job.begins? =
      List.range' (m + 1) (s.coordinator.nextId - (m + 1)) := by
  have hbegins := h.begins
  rw [hr] at hbegins
  have hlt : m < s.coordinator.nextId := by
    by_contra hn
    rw [Nat.sub_eq_zero_of_le (Nat.not_lt.mp hn)] at hbegins
    cases hbegins
  obtain ⟨n, hn⟩ := Nat.exists_eq_add_of_lt hlt
  have hsub : s.coordinator.nextId - m = n + 1 := by omega
  have hsub' : s.coordinator.nextId - (m + 1) = n := by omega
  rw [hsub, List.range'_succ] at hbegins
  rw [hsub']
  obtain ⟨hid, hrest⟩ := List.cons.inj hbegins
  exact ⟨hid, hlt, hrest⟩

theorem begin {id : Nat} (h : s.Orderly c₀ w m) (hr : s.ready = .begin id :: rest) :
    ({ s with ready := rest }.begin id).Orderly c₀ w (m + 1) := by
  obtain ⟨rfl, hlt, hrest⟩ := h.eq_of_begin hr
  obtain ⟨root, ht⟩ := exists_task? (h.scheduled id (Nat.le_refl _) hlt)
  rw [Scheduler.begin]
  dsimp only
  rw [ht]
  dsimp only
  obtain ⟨hstart, hstarts⟩ := World.spawn_of_drop h.starts
    (Session.create root s.coordinator.toolchain).command
    (some (Session.create root s.coordinator.toolchain).root)
  rw [Session.spawn]
  generalize World.spawn _ _ _ = spawned at hstart hstarts ⊢
  obtain ⟨start, w'⟩ := spawned
  obtain rfl : start = w.startAt id := hstart
  have hspawned : Orderly c₀ w { s with world := w', ready := rest } (id + 1) :=
    ⟨h.accounted, hlt, hrest, fun i hi => h.scheduled i (by omega), hstarts, h.launched⟩
  refine Orderly.enqueue ((hspawned.apply (e := .begin id) (Nat.lt_succ_self id)).apply
    (e := .launch id (w.startAt id)) rfl) ?_
  cases w.startAt id <;> rfl

theorem perform_other (h : s.Orderly c₀ w m) (hr : s.ready = job :: rest)
    (hj : job.begins? = none) : ({ s with ready := rest }.perform job).Orderly c₀ w m := by
  have hrest : Orderly c₀ w { s with ready := rest } m := by
    refine ⟨h.accounted, h.le, ?_, h.scheduled, h.starts, h.launched⟩
    rw [← h.begins, hr, List.filterMap_cons_none hj]
  cases job with
  | begin id => cases hj
  | output id => exact (hrest.applyTimes (e := .output id readSize) trivial _).enqueue rfl
  | drain id => exact (hrest.applyTimes (e := .drain id readSize) trivial _).enqueue rfl
  | exit id =>
    change Orderly c₀ w (Scheduler.exit _ id) m
    unfold Scheduler.exit
    split
    · exact ⟨h.accounted, h.le, hrest.begins, h.scheduled, h.starts, h.launched⟩
    · exact (hrest.apply (e := .exit id) trivial).enqueue rfl
  | settle id =>
    change Orderly c₀ w (Scheduler.settle _ id) m
    unfold Scheduler.settle
    split
    · exact hrest
    · exact hrest.apply trivial

theorem perform (h : s.Orderly c₀ w m) (hr : s.ready = job :: rest) :
    ∃ m', ({ s with ready := rest }.perform job).Orderly c₀ w m' := by
  cases job with
  | begin id => exact ⟨m + 1, h.begin hr⟩
  | _ => exact ⟨m, h.perform_other hr rfl⟩

theorem openAll (h : s.Orderly c₀ w m) : s.openAll.Orderly c₀ w m := by
  refine ⟨h.accounted, h.le, ?_, h.scheduled, h.starts, h.launched⟩
  rw [Scheduler.openAll, wake, Scheduler.enqueue, List.filterMap_append, h.begins,
    List.filterMap_map]
  exact List.append_right_eq_self.mpr (List.filterMap_eq_nil_iff.mpr fun _ _ => rfl)

theorem finish (h : s.Orderly c₀ w m) : ∃ m', s.finish.Orderly c₀ w m' :=
  run_keeps (P := fun s => ∃ m', s.Orderly c₀ w m') ⟨m, h.openAll⟩
    fun hr ⟨_, h⟩ => h.perform hr

theorem buildEach (h : s.Orderly c₀ w m) (roots : List Text) :
    (s.buildEach roots).1.Orderly c₀ w m := by
  induction roots generalizing s with
  | nil => exact h
  | cons root roots ih => exact ih (h.apply (e := .trigger root (s.hasManifest root)) trivial)

end Orderly

/-- A coordinator that has done nothing, in a world. -/
def fresh (t : Toolchain) (roots : List Text) (sf : Bool) (ed : Editor) (x : Indices) (w : World) :
    Scheduler :=
  { coordinator := Coordinator.fresh t roots sf ed x, world := w }

theorem orderly_fresh (t : Toolchain) (roots : List Text) (sf : Bool) (ed : Editor) (x : Indices)
    (w : World) :
    (fresh t roots sf ed x w).Orderly (Coordinator.fresh t roots sf ed x) w 0 where
  accounted := accounted_fresh t roots sf ed x
  le := Nat.le_refl _
  begins := rfl
  scheduled _ _ h := absurd h (Nat.not_lt_zero _)
  starts := rfl
  launched := by
    refine ⟨[], rfl, ?_⟩
    rintro _ _ ⟨before, after, _, _, h, -⟩
    cases before <;> cases h

theorem tended_fresh (t : Toolchain) (roots : List Text) (sf : Bool) (ed : Editor) (x : Indices)
    (w : World) : (fresh t roots sf ed x w).Tended :=
  ⟨accounted_fresh t roots sf ed x, fun _ hk => absurd hk List.not_mem_nil⟩

end Scheduler

end Workbench
