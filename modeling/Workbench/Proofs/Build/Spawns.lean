import Workbench.Proofs.Build.Resilience
import Workbench.Proofs.Command.Builds

/-! # Which processes builds start

Without single flight no task follows another, so the tasks are those of the requests. They
begin in the order of their numbers, and each tries to start one process, in its root. So a
scheduler that is idle has started just the processes that were asked for.
-/

namespace Workbench

open Build

theorem World.spawned_spawn (w : World) (command : List Text) (directory : Option Text) :
    (w.spawn command directory).2.spawned = w.spawned ++ [⟨command, directory⟩] := by
  unfold spawn
  dsimp only
  split <;> rfl

theorem World.files_spawn (w : World) (command : List Text) (directory : Option Text) :
    (w.spawn command directory).2.files = w.files := by
  unfold spawn
  dsimp only
  split <;> rfl

variable [Surroundings]

theorem World.buildable_congr {w w' : World} (h : w'.files = w.files) (roots : List Text) :
    w'.buildable roots = w.buildable roots := by
  simp only [buildable, isFile, h]

def Toolchain.buildIn (t : Toolchain) (root : Text) : Spawn := ⟨t.command buildArgs, some root⟩

namespace Coordinator

variable {c c' : Coordinator} {e : Event} {t : Toolchain} {roots : List Text}

structure Listed (t : Toolchain) (roots : List Text) (c : Coordinator) : Prop where
  toolchain : c.toolchain = t
  singleFlight : c.singleFlight = false
  pending : c.pending = []
  nextId : c.nextId = roots.length
  heads : ∀ id root, (id, root) ∈ c.books.heads → roots[id]? = some root

namespace Listed

omit [Surroundings] in
theorem congr (h : c.Listed t roots) (hb : c'.books = c.books) (ht : c'.toolchain = c.toolchain)
    (hs : c'.singleFlight = c.singleFlight) : c'.Listed t roots := by
  have hp : c'.pending = c.pending := congrArg Books.pending hb
  have hn : c'.nextId = c.nextId := congrArg Books.nextId hb
  exact ⟨ht.trans h.toolchain, hs.trans h.singleFlight, hp.trans h.pending, hn.trans h.nextId,
    hb ▸ h.heads⟩

theorem discard (h : c.Listed t roots) (k : Task) : (c.discard k).Listed t roots := by
  refine ⟨h.toolchain, h.singleFlight, h.pending, h.nextId, fun id root hm => h.heads id root ?_⟩
  rw [books_discard] at hm
  exact List.mem_of_mem_filter hm

theorem step (h : c.Listed t roots) (hm : Move c e c') (he : c.request? e = none) :
    c'.Listed t roots := by
  have hnone (k : Task) : k.key ∉ c.pending := h.pending ▸ List.not_mem_nil
  cases hm with
  | idle => exact h
  | coalesce hr | start hr => cases he.symm.trans hr
  | begin | launch | output | drain => exact h.congr (books_setPhase _ _ _) rfl rfl
  | refuse | crash | commit => exact h.congr (books_finish _ _ _) rfl rfl
  | settle => exact h.discard _
  | drop _ _ hk | follow _ _ hk => exact absurd hk (hnone _)

end Listed

end Coordinator

namespace Scheduler

open Coordinator

variable {c₀ : Coordinator} {w : World} {s : Scheduler} {m : Nat} {e : Event} {job : Job}
  {rest : List Job} {t : Toolchain} {roots : List Text} {before : List Spawn}

/-! ## What a job does -/

theorem coordinator_applyTimes_keeps {P : Coordinator → Prop}
    (hP : ∀ c : Coordinator, P c → P (c.step e)) (h : P s.coordinator) (n : Nat) :
    P (s.applyTimes e n).coordinator := by
  induction n generalizing s with
  | zero => exact h
  | succ n ih => exact ih (s := s.apply e) (hP _ h)

theorem perform_keeps {P : Coordinator → Prop}
    (hP : ∀ (c : Coordinator) (e : Event), (∀ c' : Coordinator, c'.request? e = none) → P c →
      P (c.step e)) (h : P s.coordinator) (job : Job) : P (s.perform job).coordinator := by
  cases job with
  | begin id =>
    change P (s.begin id).coordinator
    unfold Scheduler.begin
    split
    · exact h
    · exact hP _ (.launch id _) (fun _ => rfl) (hP _ (.begin id) (fun _ => rfl) h)
  | output id =>
    exact coordinator_applyTimes_keeps (fun c => hP c (.output id readSize) fun _ => rfl) h _
  | drain id =>
    exact coordinator_applyTimes_keeps (fun c => hP c (.drain id readSize) fun _ => rfl) h _
  | exit id =>
    change P (s.exit id).coordinator
    unfold Scheduler.exit
    split
    · exact h
    · exact hP _ (.exit id) (fun _ => rfl) h
  | settle id =>
    change P (s.settle id).coordinator
    unfold Scheduler.settle
    split
    · exact h
    · exact hP _ (.settle id _) (fun _ => rfl) h

theorem world_applyTimes (s : Scheduler) (e : Event) (n : Nat) :
    (s.applyTimes e n).world = s.world := by
  induction n generalizing s with
  | zero => rfl
  | succ n ih => exact ih (s.apply e)

/-- A task that begins starts a process in its root. -/
theorem spawned_begin (hn : s.coordinator.books.Numbered) {id : Nat} {k : Task}
    (ht : s.coordinator.task? id = some k) :
    (s.begin id).world.spawned = s.world.spawned ++ [s.coordinator.toolchain.buildIn k.root] := by
  -- A task is kept under its root, so its session is made for just that text.
  have hkey := hn.key_eq (mem_of_task? ht)
  rw [Task.key, Path.rootKey_eq_absolute] at hkey
  have hworld : (s.begin id).world =
      ((Session.create k.root s.coordinator.toolchain).spawn s.world).2 := by
    rw [Scheduler.begin, ht]
    rfl
  have hspawn : Spawn.mk (Session.create k.root s.coordinator.toolchain).command
      (some (Session.create k.root s.coordinator.toolchain).root) =
      s.coordinator.toolchain.buildIn k.root := by
    rw [Session.create, hkey]
    rfl
  rw [hworld, Session.spawn, World.spawned_spawn, hspawn]

theorem world_perform (hj : job.begins? = none) (s : Scheduler) :
    (s.perform job).world = s.world := by
  cases job with
  | begin id => cases hj
  | output id => exact s.world_applyTimes _ _
  | drain id => exact s.world_applyTimes _ _
  | exit id =>
    change (s.exit id).world = _
    unfold Scheduler.exit
    split <;> rfl
  | settle id =>
    change (s.settle id).world = _
    unfold Scheduler.settle
    split <;> rfl

theorem world_buildEach (s : Scheduler) (roots : List Text) :
    (s.buildEach roots).1.world = s.world := by
  induction roots generalizing s with
  | nil => rfl
  | cons root roots ih => exact ih (s.build root).1

/-! ## Processes by roots -/

/-- The first tasks have begun, and there is a process for the root of each. -/
structure Spawning (c₀ : Coordinator) (w : World) (t : Toolchain) (roots : List Text)
    (before : List Spawn) (s : Scheduler) (m : Nat) : Prop where
  orderly : s.Orderly c₀ w m
  listed : s.coordinator.Listed t roots
  spawned : s.world.spawned = before ++ (roots.take m).map t.buildIn

namespace Spawning

theorem begin {id : Nat} (h : s.Spawning c₀ w t roots before m)
    (hr : s.ready = .begin id :: rest) :
    ({ s with ready := rest }.begin id).Spawning c₀ w t roots before (m + 1) := by
  obtain ⟨rfl, hlt, -⟩ := h.orderly.eq_of_begin hr
  obtain ⟨root, ht⟩ := exists_task? (h.orderly.scheduled id (Nat.le_refl _) hlt)
  have hroot := h.listed.heads id root (head_mem (mem_of_task? ht))
  have hspawn := spawned_begin (s := { s with ready := rest }) h.orderly.accounted.numbered ht
  refine ⟨h.orderly.begin hr, perform_keeps (s := { s with ready := rest })
    (fun c e he hc => hc.step (step_move c e) (he c)) h.listed (.begin id), ?_⟩
  rw [hspawn, h.spawned, h.listed.toolchain, List.take_add_one, hroot, Option.toList_some,
    List.map_append, List.append_assoc]
  rfl

theorem perform (h : s.Spawning c₀ w t roots before m) (hr : s.ready = job :: rest) :
    ∃ m', ({ s with ready := rest }.perform job).Spawning c₀ w t roots before m' := by
  have hother (hj : job.begins? = none) :
      ({ s with ready := rest }.perform job).Spawning c₀ w t roots before m := by
    refine ⟨h.orderly.perform_other hr hj, perform_keeps (s := { s with ready := rest })
      (fun c e he hc => hc.step (step_move c e) (he c)) h.listed job, ?_⟩
    rw [world_perform hj]
    exact h.spawned
  cases job with
  | begin id => exact ⟨m + 1, h.begin hr⟩
  | _ => exact ⟨m, hother rfl⟩

theorem openAll (h : s.Spawning c₀ w t roots before m) :
    s.openAll.Spawning c₀ w t roots before m :=
  ⟨h.orderly.openAll, h.listed, h.spawned⟩

theorem spawned_run (h : s.Spawning c₀ w t roots before m) :
    s.run.world.spawned = before ++ roots.map t.buildIn := by
  obtain ⟨m', h'⟩ := run_keeps (P := fun s => ∃ m', s.Spawning c₀ w t roots before m') ⟨m, h⟩
    fun hr ⟨_, h⟩ => h.perform hr
  have hb := h'.orderly.begins
  rw [ready_run] at hb
  have hsub : s.run.coordinator.nextId - m' = 0 := List.range'_eq_nil_iff.mp hb.symm
  have hle : roots.length ≤ m' := by
    rw [← h'.listed.nextId]
    exact Nat.le_of_sub_eq_zero hsub
  rw [h'.spawned, List.take_of_length_le hle]

end Spawning

/-- Builds that were asked for of roots in turn start one process each for those that have a
manifest, in order and in the root, whether all gates are open or not. -/
theorem spawned_buildEach (t : Toolchain) (roots : List Text) (ed : Editor) (x : Indices)
    (w : World) (wanted : List Text) {s : Scheduler}
    (hs : ((fresh t roots false ed x w).buildEach wanted).1 = s) :
    s.run.world.spawned = w.spawned ++ (w.buildable wanted).map t.buildIn ∧
      s.finish.world.spawned = w.spawned ++ (w.buildable wanted).map t.buildIn := by
  have horderly := (orderly_fresh t roots false ed x w).buildEach wanted
  obtain ⟨hheads, hnext, -, -⟩ := buildEach_eq (s := fresh t roots false ed x w) rfl wanted
  have hworld := world_buildEach (fresh t roots false ed x w) wanted
  rw [hs] at horderly hheads hnext hworld
  have h : s.Spawning (Coordinator.fresh t roots false ed x) w t (w.buildable wanted) w.spawned
      0 := by
    obtain ⟨events, hc, -⟩ := horderly.launched
    obtain ⟨ht, -, hsf⟩ := settings_run (Coordinator.fresh t roots false ed x) events
    have hled := run_induction (led_fresh t roots false ed x) Led.step events
    rw [← hc] at ht hsf hled
    refine ⟨horderly, ⟨ht, hsf, hled.pending hsf, hnext.trans (Nat.zero_add _), ?_⟩, ?_⟩
    · intro id root hm
      rw [hheads] at hm
      obtain ⟨⟨root', id'⟩, hp, hswap⟩ := List.mem_map.mp hm
      obtain ⟨rfl, rfl⟩ := Prod.mk.inj hswap
      exact List.mk_mem_zipIdx_iff_getElem?.mp hp
    · rw [hworld]
      exact (List.append_nil _).symm
  exact ⟨h.spawned_run, h.openAll.spawned_run⟩

end Scheduler

end Workbench
