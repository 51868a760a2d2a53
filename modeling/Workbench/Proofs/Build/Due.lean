import Workbench.Proofs.Build.Spawns

/-! # A build that is due is made

A build of a root is due while a task for the root has not begun, or while a request for the root
is kept behind a task. A step of a scheduler leaves it due or starts its process, if the manifest
stays where it is, and once no task is left nothing can be due any more.
-/

namespace Workbench

open Build

variable [Surroundings]

namespace Coordinator

variable {c c' : Coordinator} {e : Event} {k : Task} {root : Text}

/-! ## One step -/

/-- A task for the root has not begun, or a request for the root is kept behind a task. -/
inductive Coming (c : Coordinator) (root : Text) : Prop where
  | scheduled {id : Nat} (hk : ⟨id, root, .scheduled⟩ ∈ c.tasks)
  | kept {id : Nat} (hk : (id, root) ∈ c.books.heads) (hp : root ∈ c.pending)

structure Sound (c : Coordinator) : Prop where
  numbered : c.books.Numbered
  exclusive : c.pending ≠ [] → c.books.Exclusive ∧ c.singleFlight = true

theorem sound_run (t : Toolchain) (roots : List Text) (sf : Bool) (ed : Editor) (x : Indices)
    (es : List Event) : ((fresh t roots sf ed x).run es).Sound where
  numbered := (accounted_run (accounted_fresh t roots sf ed x) es).numbered
  exclusive hp := by
    have hled := run_induction (led_fresh t roots sf ed x) Led.step es
    have hs := (settings_run (fresh t roots sf ed x) es).2.2
    cases sf with
    | false => exact absurd (hled.pending hs) hp
    | true => exact ⟨exclusive_run (exclusive_fresh t roots true ed x) rfl es, hs⟩

theorem Move.mem_scheduled (hm : Move c e c') (hn : c.books.Numbered) (hk : k ∈ c.tasks)
    (hp : k.phase = .scheduled) (he : e ≠ .begin k.id) : k ∈ c'.tasks := by
  -- The task that a step is about is in another phase, unless it begins.
  have hne {i : Task} (hi : c.task? i.id = some i) (hphase : i.phase ≠ .scheduled) :
      k.id ≠ i.id := by
    intro hid
    obtain rfl := hn.eq_of_id hk (mem_of_task? hi) hid
    exact hphase hp
  have hset {i : Task} {phase : Phase} (hi : c.task? i.id = some i) (hid : k.id ≠ i.id) :
      k ∈ (c.setPhase i.id phase).tasks :=
    (mem_setPhase hi hn).mpr (.inr ⟨hk, hid⟩)
  cases hm with
  | idle | coalesce => exact hk
  | start => exact mem_start.mpr (.inl hk)
  | @begin i hi =>
    refine hset hi fun hid => ?_
    exact he (congrArg Event.begin hid.symm)
  | launch hi hphase | refuse hi hphase | output hi hphase | drain hi hphase
  | crash hi hphase | commit hi hphase => exact hset hi (hne hi (hphase ▸ nofun))
  | settle hi hphase | drop hi hphase => exact mem_discard.mpr ⟨hk, hne hi (hphase ▸ nofun)⟩
  | @follow i hi hphase =>
    have hd : k ∈ (c.discard i).tasks := mem_discard.mpr ⟨hk, hne hi (hphase ▸ nofun)⟩
    rw [trigger_true]
    split_ifs
    · exact hd
    · exact mem_start.mpr (.inl hd)

theorem Move.coming_of_kept (hm : Move c e c') (hx : c.books.Exclusive) (hs : c.singleFlight = true)
    {id : Nat} (hk : (id, root) ∈ c.books.heads) (hp : root ∈ c.pending)
    (he : e ≠ .settle id false) : c'.Coming root := by
  by_cases hk' : (id, root) ∈ c'.books.heads
  · exact .kept hk' ((hx.mem_pending_step hs hm hk hk').mpr (.inl hp))
  -- The task is gone, so it has ended, and the coordinator was told.
  have hgone {i : Task} (hi : c.task? i.id = some i) (hd : (id, root) ∉ (c.discard i).books.heads) :
      i.id = id ∧ i.key = root := by
    rw [books_discard, List.mem_filter, not_and] at hd
    have hid : id = i.id := by simpa only [bne_iff_ne, ne_eq, not_not] using hd hk
    obtain ⟨k, hkt, rfl, rfl⟩ := Coordinator.mem_heads.mp hk
    rw [hx.eq_of_id (mem_of_task? hi) hkt hid.symm]
    exact ⟨rfl, hx.key_eq hkt⟩
  cases hm with
  | idle | coalesce => exact absurd hk hk'
  | start =>
    refine absurd ?_ hk'
    rw [books_start]
    exact List.mem_append_left _ hk
  | begin | launch | output | drain =>
    rw [books_setPhase] at hk'
    exact absurd hk hk'
  | refuse | crash | commit =>
    rw [books_finish] at hk'
    exact absurd hk hk'
  | settle hi _ hn => exact absurd ((hgone hi hk').2 ▸ hp) hn
  | drop hi => exact absurd (congrArg (Event.settle · false) (hgone hi hk').1) he
  | @follow i hi =>
    rw [hx.trigger_discard (mem_of_task? hi)] at hk' ⊢
    have hd : (id, root) ∉ (c.discard i).books.heads := by
      intro hd
      refine hk' ?_
      rw [books_start]
      exact List.mem_append_left _ hd
    have hkey := (hgone hi hd).2
    subst hkey
    exact .scheduled (mem_start.mpr (.inr rfl))

theorem Coming.step (h : c.Coming root) (hc : c.Sound)
    (hb : ∀ k ∈ c.tasks, k.root = root → e ≠ .begin k.id)
    (hs : ∀ k ∈ c.tasks, k.root = root → e ≠ .settle k.id false) : (c.step e).Coming root := by
  have hm := step_move c e
  cases h with
  | scheduled hk => exact .scheduled (hm.mem_scheduled hc.numbered hk rfl (hb _ hk rfl))
  | kept hk hp =>
    obtain ⟨hx, hsf⟩ := hc.exclusive (List.ne_nil_of_mem hp)
    obtain ⟨k, hkt, rfl, hr⟩ := mem_heads.mp hk
    exact hm.coming_of_kept hx hsf hk hp (hs k hkt hr)

end Coordinator

/-! ## Jobs -/

namespace Scheduler

open Coordinator

variable {s : Scheduler} {c₀ : Coordinator} {root : Text} {before : List Spawn}

/-- A build of the root is to come, or its process has been started behind some others, and the
root has a manifest. -/
structure Due (c₀ : Coordinator) (root : Text) (before : List Spawn) (s : Scheduler) : Prop where
  reached : ∃ es, s.coordinator = c₀.run es
  manifest : s.hasManifest root
  spawned : ∃ later, s.world.spawned = before ++ later ∧
    (c₀.toolchain.buildIn root ∈ later ∨ s.coordinator.Coming root)

theorem hasManifest_congr {s' : Scheduler} (h : s'.world.files = s.world.files) (root : Text) :
    s'.hasManifest root = s.hasManifest root := by
  rw [hasManifest, hasManifest, World.isFile, World.isFile, h]

namespace Due

variable {e : Event}

theorem congr {s' : Scheduler} (h : s.Due c₀ root before)
    (hc : s'.coordinator = s.coordinator) (hw : s'.world = s.world) : s'.Due c₀ root before := by
  refine ⟨hc ▸ h.reached, ?_, ?_⟩
  · rw [hasManifest_congr (congrArg World.files hw)]
    exact h.manifest
  · rw [hc, hw]
    exact h.spawned

theorem apply (hc₀ : ∀ es, (c₀.run es).Sound) (h : s.Due c₀ root before)
    (hb : ∀ k ∈ s.coordinator.tasks, k.root = root → e ≠ .begin k.id)
    (hs : ∀ k ∈ s.coordinator.tasks, k.root = root → e ≠ .settle k.id false) :
    (s.apply e).Due c₀ root before := by
  obtain ⟨es, he⟩ := h.reached
  obtain ⟨later, hl, hd⟩ := h.spawned
  refine ⟨⟨es ++ [e], ?_⟩, ?_, later, hl, hd.imp_right fun hcome => ?_⟩
  · rw [run_concat, ← he]
    rfl
  · rw [hasManifest_congr rfl]
    exact h.manifest
  · exact hcome.step (he ▸ hc₀ es) hb hs

theorem applyTimes (hc₀ : ∀ es, (c₀.run es).Sound) (h : s.Due c₀ root before)
    (hb : ∀ id, e ≠ .begin id) (hs : ∀ id m, e ≠ .settle id m) (n : Nat) :
    (s.applyTimes e n).Due c₀ root before := by
  induction n generalizing s with
  | zero => exact h
  | succ n ih => exact ih (h.apply hc₀ (fun k _ _ => hb k.id) fun k _ _ => hs k.id false)

theorem enqueue (h : s.Due c₀ root before) (jobs : List Job) :
    (s.enqueue jobs).Due c₀ root before := h.congr rfl rfl

theorem begin (hc₀ : ∀ es, (c₀.run es).Sound) (h : s.Due c₀ root before) (id : Nat) :
    (s.begin id).Due c₀ root before := by
  cases ht : s.coordinator.task? id with
  | none =>
    rw [Scheduler.begin, ht]
    exact h
  | some k =>
    obtain ⟨es, he⟩ := h.reached
    obtain ⟨later, hl, hd⟩ := h.spawned
    obtain ⟨es', hc⟩ := s.reaches_begin id
    have hsound : s.coordinator.Sound := he ▸ hc₀ es
    have hfiles : (s.begin id).world.files = s.world.files := by
      rw [Scheduler.begin, ht]
      exact World.files_spawn _ _ _
    obtain ⟨start, hsteps⟩ : ∃ start,
        (s.begin id).coordinator = (s.coordinator.step (.begin id)).step (.launch id start) := by
      rw [Scheduler.begin, ht]
      exact ⟨_, rfl⟩
    have htool : s.coordinator.toolchain = c₀.toolchain := he ▸ (settings_run c₀ es).1
    refine ⟨⟨es ++ es', by rw [hc, he, run_append]⟩, ?_,
      later ++ [c₀.toolchain.buildIn k.root], ?_, ?_⟩
    · rw [hasManifest_congr hfiles]
      exact h.manifest
    · rw [spawned_begin hsound.numbered ht, hl, htool, List.append_assoc]
    · by_cases hr : k.root = root
      · exact .inl (List.mem_append_right _ (hr ▸ List.mem_cons_self))
      · refine hd.imp (List.mem_append_left _) fun hcome => hsteps ▸ ?_
        have hfirst : (s.coordinator.step (.begin id)).Coming root := by
          refine hcome.step hsound (fun i hi hir hev => hr ?_) fun _ _ _ he => by cases he
          rw [← hir, hsound.numbered.eq_of_id (mem_of_task? ht) hi
            ((id_of_task? ht).trans (Event.begin.inj hev))]
        refine hfirst.step ?_ (fun _ _ _ he => by cases he) fun _ _ _ he => by cases he
        have hnext := hc₀ (es ++ [.begin id])
        rwa [run_concat, ← he] at hnext

/-- The request is answered when the end of its task is told, for the manifest is there. -/
theorem settle (hc₀ : ∀ es, (c₀.run es).Sound) (h : s.Due c₀ root before) (id : Nat) :
    (s.settle id).Due c₀ root before := by
  unfold Scheduler.settle
  split
  · exact h
  · next t ht =>
    obtain ⟨es, he⟩ := h.reached
    have hn : s.coordinator.books.Numbered := he ▸ (hc₀ es).numbered
    refine h.apply (e := .settle id (s.hasManifest t.root)) hc₀ (fun _ _ _ he => by cases he)
      fun k hk hr hev => ?_
    obtain ⟨hid, hm⟩ := Event.settle.inj hev
    obtain rfl := hn.eq_of_id (mem_of_task? ht) hk ((id_of_task? ht).trans hid)
    rw [hr, h.manifest] at hm
    cases hm

theorem perform (hc₀ : ∀ es, (c₀.run es).Sound) (h : s.Due c₀ root before) (job : Job) :
    (s.perform job).Due c₀ root before := by
  cases job with
  | begin id => exact h.begin hc₀ id
  | output id =>
    have hout := h.applyTimes (e := .output id readSize) hc₀ (fun _ he => by cases he)
      (fun _ _ he => by cases he) ((s.reading? id).elim 0 Reading.outputParts)
    exact hout.enqueue [.drain id]
  | drain id =>
    have herr := h.applyTimes (e := .drain id readSize) hc₀ (fun _ he => by cases he)
      (fun _ _ he => by cases he) ((s.reading? id).elim 0 Reading.errorParts)
    exact herr.enqueue [.exit id]
  | exit id =>
    change (s.exit id).Due c₀ root before
    unfold Scheduler.exit
    split
    · exact h.congr rfl rfl
    · have hexit := h.apply (e := .exit id) hc₀ (fun _ _ _ he => by cases he)
        fun _ _ _ he => by cases he
      exact hexit.enqueue [.settle id]
  | settle id => exact h.settle hc₀ id

theorem spawned_finish (hc₀ : ∀ es, (c₀.run es).Sound) (h : s.Due c₀ root before)
    (ht : s.finish.coordinator.tasks = []) :
    ∃ later, s.finish.world.spawned = before ++ later ∧ c₀.toolchain.buildIn root ∈ later := by
  have hopen : s.openAll.Due c₀ root before := h.congr rfl rfl
  have hdue : s.finish.Due c₀ root before :=
    run_keeps (P := fun s => s.Due c₀ root before) hopen fun {s job rest} _ hs =>
      perform (s := { s with ready := rest }) hc₀ (hs.congr rfl rfl) job
  obtain ⟨later, hl, hd⟩ := hdue.spawned
  refine ⟨later, hl, hd.resolve_right fun hcome => ?_⟩
  cases hcome with
  | scheduled hk =>
    rw [ht] at hk
    cases hk
  | kept hk =>
    obtain ⟨k, hk, -⟩ := mem_heads.mp hk
    rw [ht] at hk
    cases hk

end Due

end Scheduler

end Workbench
