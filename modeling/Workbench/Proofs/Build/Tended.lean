import Workbench.Proofs.Build.Idle

/-! # No task is forgotten

Each task has a job in the queue that takes it further, or it waits for its gate. So a
scheduler that is idle with all gates open has no task left.
-/

namespace Workbench

open Build

def Build.Event.task? : Event → Option Nat
  | .trigger .. | .touch .. => none
  | .begin id | .launch id _ | .output id _ | .drain id _ | .exit id | .settle id _ => some id

namespace Coordinator

variable {c c' : Coordinator} {e : Event} {k : Task} {id : Nat} {phase : Phase}

/-! ## Phases -/

def phase? (c : Coordinator) (id : Nat) : Option Phase := (c.task? id).map Task.phase

theorem phase?_setPhase (c : Coordinator) (id : Nat) (phase : Phase) :
    (c.setPhase id phase).phase? id = (c.phase? id).map fun _ => phase := by
  have hid : ((fun k : Task => k.id == id) ∘
      fun k => if k.id = id then { k with phase } else k) = (·.id == id) := by
    funext k
    dsimp only [Function.comp]
    split_ifs <;> rfl
  rw [phase?, phase?, task?, task?, setPhase, List.find?_map, hid]
  cases hf : c.tasks.find? (·.id == id) with
  | none => rfl
  | some k =>
    have hk : k.id = id := by simpa using List.find?_some hf
    simp [hk]

theorem exists_task? (h : c.phase? id = some phase) :
    ∃ root, c.task? id = some ⟨id, root, phase⟩ := by
  obtain ⟨k, hk, rfl⟩ := Option.map_eq_some_iff.mp h
  obtain rfl := id_of_task? hk
  exact ⟨k.root, hk⟩

theorem phase?_launch {s : Session} (h : c.phase? id = some (.spawning s)) (start : Start) :
    (c.launch id start).phase? id = some (match start with
      | .ok p => .reading (.start s p)
      | .error _ => .finished) := by
  obtain ⟨root, ht⟩ := exists_task? h
  rw [launch, ht]
  cases start with
  | error reason =>
    change (setPhase _ _ _).phase? id = _
    rw [phase?_setPhase]
    change (c.phase? id).map _ = _
    rw [h]
    rfl
  | ok p =>
    dsimp only
    rw [phase?_setPhase, h]
    rfl

theorem launch_of_ne (h : ∀ s, c.phase? id ≠ some (.spawning s)) (start : Start) :
    c.launch id start = c := by
  unfold launch
  split
  · next s ht => exact absurd (congrArg (Option.map Task.phase) ht) (h s)
  · rfl

theorem phase?_drain {r : Reading} (h : c.phase? id = some (.reading r)) (n : Nat) :
    (c.drain id n).phase? id = some (.reading (r.readErrors c.editor n).1) := by
  obtain ⟨root, ht⟩ := exists_task? h
  rw [drain, ht]
  dsimp only
  rw [phase?_setPhase]
  change (c.phase? id).map _ = _
  rw [h]
  rfl

variable [Surroundings]

theorem phase?_eq (hn : c.books.Numbered) (hk : k ∈ c.tasks) : c.phase? k.id = some k.phase := by
  rw [phase?, hn.task?_eq hk]
  rfl

theorem phase?_begin (h : c.phase? id = some .scheduled) :
    ∃ s, (c.begin id).phase? id = some (.spawning s) := by
  obtain ⟨root, ht⟩ := exists_task? h
  rw [begin, ht]
  dsimp only
  rw [phase?_setPhase, h]
  exact ⟨_, rfl⟩

theorem begin_of_ne (h : c.phase? id ≠ some .scheduled) : c.begin id = c := by
  unfold begin
  split
  · next ht => exact absurd (congrArg (Option.map Task.phase) ht) h
  · rfl

theorem phase?_readOutput {r : Reading} (h : c.phase? id = some (.reading r)) (n : Nat) :
    (c.readOutput id n).phase? id = some (.reading (r.readOutput c.editor n).1) := by
  obtain ⟨root, ht⟩ := exists_task? h
  rw [readOutput, ht]
  dsimp only
  rw [phase?_setPhase]
  change (c.phase? id).map _ = _
  rw [h]
  rfl

theorem phase?_exit {r : Reading} (h : c.phase? id = some (.reading r)) (ho : r.isOver) :
    (c.exit id).phase? id = some .finished := by
  obtain ⟨root, ht⟩ := exists_task? h
  have hend (c' : Coordinator) (hc : c'.tasks = c.tasks) :
      (c'.setPhase id .finished).phase? id = some .finished := by
    rw [phase?_setPhase, phase?, task?, hc]
    change (c.phase? id).map _ = _
    rw [h]
    rfl
  unfold exit
  simp only [ht, ho, if_true]
  split
  · exact hend _ rfl
  · exact hend _ rfl

theorem exit_of_ne (h : ∀ r, c.phase? id = some (.reading r) → ¬ r.isOver) : c.exit id = c := by
  unfold exit
  split
  · next r ht => exact if_neg (h r (congrArg (Option.map Task.phase) ht))
  · rfl

theorem settle_of_ne (h : c.phase? id ≠ some .finished) (m : Bool) : (c.settle id m).1 = c := by
  unfold settle
  split
  · next ht => exact absurd (congrArg (Option.map Task.phase) ht) h
  · rfl

theorem ne_of_mem_settle (h : c.phase? id = some .finished) (hn : c.books.Numbered) {m : Bool}
    (hk : k ∈ (c.settle id m).1.tasks) : k.id ≠ id := by
  obtain ⟨root, ht⟩ := exists_task? h
  have hlt := hn.lt_of_mem (mem_of_task? ht)
  rw [settle_eq (k := ⟨id, root, .finished⟩) ht rfl m] at hk
  split_ifs at hk
  · cases m with
    | false => exact (mem_discard.mp hk).2
    | true =>
      rcases mem_trigger hk with hk | rfl
      · exact (mem_discard.mp hk).2
      · exact hlt.ne'
  · exact (mem_discard.mp hk).2

theorem Move.mem_of_ne (hm : Move c e c') (hn : c.books.Numbered) (hk : k ∈ c'.tasks)
    (he : e.task? ≠ some k.id) : k ∈ c.tasks ∨ c.nextId ≤ k.id := by
  have hset {i : Task} {phase : Phase} (hi : c.task? i.id = some i)
      (hk : k ∈ (c.setPhase i.id phase).tasks) (hne : some i.id ≠ some k.id) : k ∈ c.tasks := by
    rcases (mem_setPhase hi hn).mp hk with rfl | ⟨hk, -⟩
    · exact absurd rfl hne
    · exact hk
  cases hm with
  | idle | coalesce => exact .inl hk
  | start =>
    rcases mem_start.mp hk with hk | rfl
    · exact .inl hk
    · exact .inr (Nat.le_refl _)
  | begin hi | launch hi | output hi | drain hi | refuse hi | crash hi | commit hi =>
    exact .inl (hset hi hk he)
  | settle | drop => exact .inl (mem_discard.mp hk).1
  | follow =>
    rcases mem_trigger hk with hk | rfl
    · exact .inl (mem_discard.mp hk).1
    · exact .inr (Nat.le_refl _)

end Coordinator

/-! ## Jobs -/

namespace Build

def Job.task : Job → Nat
  | begin id | output id | drain id | exit id | settle id => id

/-- The job takes the task further. -/
inductive Job.Serves (k : Task) : Job → Prop where
  | begin (hp : k.phase = .scheduled) : Serves k (.begin k.id)
  | output {r : Reading} (hp : k.phase = .reading r) : Serves k (.output k.id)
  | drain {r : Reading} (hp : k.phase = .reading r) (ho : r.OutputOver) : Serves k (.drain k.id)
  | exit {r : Reading} (hp : k.phase = .reading r) (ho : r.isOver) : Serves k (.exit k.id)
  | settle (hp : k.phase = .finished) : Serves k (.settle k.id)

variable {k : Task} {job : Job}

theorem Job.Serves.task_eq (h : job.Serves k) : job.task = k.id := by
  cases h <;> rfl

theorem Job.Serves.ne_spawning (h : job.Serves k) (s : Session) : k.phase ≠ .spawning s := by
  intro hp
  cases h with
  | begin h | output h | drain h | exit h | settle h => cases h.symm.trans hp

end Build

namespace Scheduler

open Coordinator

variable {s s' : Scheduler} {e : Event} {k : Task} {id : Nat} {job : Job} {rest : List Job}

def Waits (s : Scheduler) (k : Task) : Prop :=
  ∃ r gate, k.phase = .reading r ∧ r.isOver ∧ ⟨k.id, gate⟩ ∈ s.waiting

def Served (s : Scheduler) (k : Task) : Prop := (∃ job ∈ s.ready, job.Serves k) ∨ s.Waits k

theorem Served.mono (h : s.Served k) (hr : s.ready ⊆ s'.ready) (hw : s.waiting ⊆ s'.waiting) :
    s'.Served k := by
  rcases h with ⟨job, hj, hs⟩ | ⟨r, gate, hp, ho, hg⟩
  · exact .inl ⟨job, hr hj, hs⟩
  · exact .inr ⟨r, gate, hp, ho, hw hg⟩

theorem Served.enqueue (h : s.Served k) (jobs : List Job) : (s.enqueue jobs).Served k :=
  h.mono (List.subset_append_left _ _) (List.Subset.refl _)

theorem served_of_last (h : job.Serves k) : (s.enqueue [job]).Served k :=
  .inl ⟨job, List.mem_append_right _ List.mem_cons_self, h⟩

theorem Served.ne_spawning (h : s.Served k) (z : Session) : k.phase ≠ .spawning z := by
  rcases h with ⟨job, -, hs⟩ | ⟨r, gate, hp, -⟩
  · exact hs.ne_spawning z
  · rw [hp]
    exact nofun

theorem served_rest (hr : s.ready = job :: rest) (h : s.Served k) :
    { s with ready := rest }.Served k ∨ job.Serves k := by
  rcases h with ⟨job', hj, hs⟩ | hw
  · rw [hr] at hj
    rcases List.mem_cons.mp hj with rfl | hj
    · exact .inr hs
    · exact .inl (.inl ⟨job', hj, hs⟩)
  · exact .inl (.inr hw)

/-- Every task is served, or the job that was taken would serve it. -/
def Lacks (s : Scheduler) (job : Job) : Prop :=
  ∀ k ∈ s.coordinator.tasks, s.Served k ∨ job.Serves k

theorem Lacks.other (h : s.Lacks job) (hk : k ∈ s.coordinator.tasks)
    (he : some job.task ≠ some k.id) : s.Served k :=
  (h k hk).resolve_right fun hs => he (congrArg some hs.task_eq)

theorem Lacks.phase?_ne_spawning (h : s.Lacks job) (id : Nat) (z : Session) :
    s.coordinator.phase? id ≠ some (.spawning z) := by
  intro hp
  obtain ⟨root, hk⟩ := exists_task? hp
  rcases h _ (mem_of_task? hk) with hs | hs
  · exact hs.ne_spawning z rfl
  · exact hs.ne_spawning z rfl

theorem reading?_eq_some_iff {r : Reading} :
    s.reading? id = some r ↔ s.coordinator.phase? id = some (.reading r) := by
  rw [reading?, phase?]
  split
  · next h => simp [h]
  · next h =>
    refine iff_of_false nofun fun hp => ?_
    obtain ⟨⟨i, root, phase⟩, hk, rfl⟩ := Option.map_eq_some_iff.mp hp
    exact h i root r hk

variable [Surroundings]

/-- Each task is served. -/
structure Tended (s : Scheduler) : Prop where
  accounted : s.coordinator.Accounted
  served : ∀ k ∈ s.coordinator.tasks, s.Served k

theorem accounted_of_reaches (h : s.coordinator.Accounted) (hr : s.Reaches s') :
    s'.coordinator.Accounted := by
  obtain ⟨events, he⟩ := hr
  rw [he]
  exact accounted_run h events

/-- A step keeps the tasks served that it is not about, and a task that it starts is served. -/
theorem served_apply (ha : s.coordinator.Accounted)
    (hs : ∀ k ∈ s.coordinator.tasks, e.task? ≠ some k.id → s.Served k)
    (hk : k ∈ (s.apply e).coordinator.tasks) (he : e.task? ≠ some k.id) :
    (s.apply e).Served k := by
  have hm := step_move s.coordinator e
  rcases hm.mem_of_ne ha.numbered hk he with hk' | hnew
  · exact (hs k hk' he).mono (List.subset_append_left _ _) (List.Subset.refl _)
  · obtain ⟨-, hsched⟩ := started_eq ha.numbered hk hnew
    have hlt := (ha.step hm).numbered.lt_of_mem hk
    have hjob : .begin k.id ∈ newJobs s.coordinator (s.coordinator.step e) := by
      refine List.mem_map.mpr ⟨k.id, List.mem_range'_1.mpr ⟨hnew, ?_⟩, rfl⟩
      change k.id < (s.coordinator.step e).nextId at hlt
      omega
    refine .inl ⟨_, List.mem_append_right _ hjob, .begin ?_⟩
    rw [hsched]

theorem tended_apply (h : s.Tended) (he : e.task? = none) : (s.apply e).Tended := by
  refine ⟨accounted_of_reaches h.accounted (s.reaches_apply e), fun k hk => ?_⟩
  exact served_apply h.accounted (fun k hk _ => h.served k hk) hk (by simp [he])

theorem served_applyTimes {n : Nat} (ha : s.coordinator.Accounted)
    (hs : ∀ k ∈ s.coordinator.tasks, e.task? ≠ some k.id → s.Served k) :
    ∀ k ∈ (s.applyTimes e n).coordinator.tasks, e.task? ≠ some k.id →
      (s.applyTimes e n).Served k := by
  induction n generalizing s with
  | zero => exact hs
  | succ n ih =>
    exact ih (accounted_of_reaches ha (s.reaches_apply e)) fun k hk he =>
      served_apply ha hs hk he

theorem Lacks.idle (h : s.Lacks job) (hj : ∀ k ∈ s.coordinator.tasks, ¬ job.Serves k)
    (he : s.coordinator.step e = s.coordinator) (hk : k ∈ (s.apply e).coordinator.tasks) :
    (s.apply e).Served k := by
  have hk' : k ∈ s.coordinator.tasks := by
    change k ∈ (s.coordinator.step e).tasks at hk
    rwa [he] at hk
  exact ((h k hk').resolve_right (hj k hk')).mono (List.subset_append_left _ _)
    (List.Subset.refl _)

theorem Lacks.begin (ha : s.coordinator.Accounted) (h : s.Lacks (.begin id))
    (hk : k ∈ (s.begin id).coordinator.tasks) : (s.begin id).Served k := by
  unfold Scheduler.begin at hk ⊢
  split at hk
  · next ht =>
    refine (h k hk).resolve_right fun hs => ?_
    obtain rfl : id = k.id := hs.task_eq
    cases ht.symm.trans (ha.numbered.task?_eq hk)
  · next t ht =>
    generalize (Session.create t.root s.coordinator.toolchain).spawn s.world = spawned at hk ⊢
    obtain ⟨start, w⟩ := spawned
    have ha₁ := accounted_of_reaches ha ({ s with world := w }.reaches_apply (.begin id))
    have ha₂ := accounted_of_reaches ha₁ (reaches_apply _ (.launch id start))
    by_cases hid : some id = some k.id
    · obtain rfl := Option.some.inj hid
      have hp := phase?_eq ha₂.numbered hk
      by_cases hsched : s.coordinator.phase? k.id = some .scheduled
      · obtain ⟨z, hz⟩ := phase?_begin hsched
        have hp' := Option.some.inj (hp.symm.trans (phase?_launch hz start))
        cases start with
        | ok p => exact served_of_last (.output hp')
        | error reason => exact served_of_last (.settle hp')
      · -- The job was not for a task at this point, so the task is served by another.
        have hb : s.coordinator.step (.begin k.id) = s.coordinator := begin_of_ne hsched
        have hl : s.coordinator.step (.launch k.id start) = s.coordinator :=
          launch_of_ne (h.phase?_ne_spawning k.id) start
        have hk' : k ∈ s.coordinator.tasks := by
          change k ∈ ((s.coordinator.step (.begin k.id)).step (.launch k.id start)).tasks at hk
          rwa [hb, hl] at hk
        have hs := (h k hk').resolve_right fun hs => hsched <| by
          cases hs with
          | begin hp => rw [phase?_eq ha.numbered hk', hp]
        have hs₂ :
            (({ s with world := w }.apply (.begin k.id)).apply (.launch k.id start)).Served k :=
          hs.mono (List.Subset.trans (List.subset_append_left _ _) (List.subset_append_left _ _))
            (List.Subset.refl _)
        exact hs₂.enqueue _
    · have hs₁ : ∀ k ∈ (apply { s with world := w } (.begin id)).coordinator.tasks,
          some id ≠ some k.id → (apply { s with world := w } (.begin id)).Served k :=
        fun k hk he => served_apply ha (fun k hk he => h.other hk he) hk he
      exact (served_apply (e := .launch id start) ha₁ hs₁ hk hid).enqueue _

theorem coordinator_applyTimes (s : Scheduler) (e : Event) (n : Nat) :
    (s.applyTimes e n).coordinator = (fun c => c.step e)^[n] s.coordinator := by
  induction n generalizing s with
  | zero => rfl
  | succ n ih => exact ih (s.apply e)

theorem subset_applyTimes (s : Scheduler) (e : Event) (n : Nat) :
    s.ready ⊆ (s.applyTimes e n).ready ∧ (s.applyTimes e n).waiting = s.waiting := by
  induction n generalizing s with
  | zero => exact ⟨List.Subset.refl _, rfl⟩
  | succ n ih =>
    obtain ⟨hr, hw⟩ := ih (s.apply e)
    exact ⟨List.Subset.trans (List.subset_append_left _ _) hr, hw⟩

theorem phase?_iterate_output {c : Coordinator} {r : Reading} {n : Nat}
    (h : c.phase? id = some (.reading r)) (hn : r.outputLeft ≤ n) :
    ∃ r', ((fun c => c.step (.output id readSize))^[n] c).phase? id = some (.reading r') ∧
      r'.OutputOver := by
  induction n generalizing c r with
  | zero => exact ⟨r, h, Reading.outputOver_of_left (Nat.le_zero.mp hn)⟩
  | succ n ih =>
    have hleft := r.outputLeft_readOutput c.editor
    exact ih (phase?_readOutput h readSize) (by omega)

theorem phase?_iterate_drain {c : Coordinator} {r : Reading} {n : Nat}
    (h : c.phase? id = some (.reading r)) (hn : r.errorsLeft ≤ n) :
    ∃ r', ((fun c => c.step (.drain id readSize))^[n] c).phase? id = some (.reading r') ∧
      (r.OutputOver → r'.OutputOver) ∧ (r.ended ≠ none → r'.ended ≠ none) ∧ r'.errors = none := by
  induction n generalizing c r with
  | zero => exact ⟨r, h, fun h => h, fun h => h, Reading.errors_of_left (Nat.le_zero.mp hn)⟩
  | succ n ih =>
    have hleft := r.errorsLeft_readErrors c.editor
    obtain ⟨hc, ho, hend⟩ := r.readErrors_keeps c.editor readSize
    obtain ⟨r', hp, hover, hend', he⟩ := ih (phase?_drain h readSize) (by omega)
    refine ⟨r', hp, fun h => hover ?_, fun h => hend' (hend h), he⟩
    rwa [Reading.OutputOver, hc, ho]

theorem Lacks.output (ha : s.coordinator.Accounted) (h : s.Lacks (.output id))
    (hk : k ∈ (s.output id).coordinator.tasks) : (s.output id).Served k := by
  unfold Scheduler.output at hk ⊢
  by_cases hid : some id = some k.id
  · obtain rfl := Option.some.inj hid
    cases hr : s.reading? k.id with
    | none =>
      rw [hr] at hk
      refine Served.enqueue ((h k hk).resolve_right fun hs => ?_) _
      cases hs with
      | output hp => cases hr.symm.trans (reading?_eq_some_iff.mpr
          ((phase?_eq ha.numbered hk).trans (congrArg some hp)))
    | some r =>
      rw [hr] at hk
      have ha' :=
        accounted_of_reaches ha (s.reaches_applyTimes (.output k.id readSize) r.outputParts)
      obtain ⟨r', hp, ho⟩ := phase?_iterate_output (reading?_eq_some_iff.mp hr) r.outputLeft_le
      rw [← coordinator_applyTimes] at hp
      refine served_of_last (.drain (Option.some.inj ?_) ho)
      exact (phase?_eq ha'.numbered hk).symm.trans hp
  · exact Served.enqueue (served_applyTimes (e := .output id readSize) ha
      (fun k hk he => h.other hk he) k hk hid) _

theorem Lacks.drain (ha : s.coordinator.Accounted) (h : s.Lacks (.drain id))
    (hk : k ∈ (s.drain id).coordinator.tasks) : (s.drain id).Served k := by
  unfold Scheduler.drain at hk ⊢
  by_cases hid : some id = some k.id
  · obtain rfl := Option.some.inj hid
    cases hr : s.reading? k.id with
    | none =>
      rw [hr] at hk
      refine Served.enqueue ((h k hk).resolve_right fun hs => ?_) _
      cases hs with
      | drain hp => cases hr.symm.trans (reading?_eq_some_iff.mpr
          ((phase?_eq ha.numbered hk).trans (congrArg some hp)))
    | some r =>
      rw [hr] at hk
      have ha' := accounted_of_reaches ha (s.reaches_applyTimes (.drain k.id readSize) r.errorParts)
      obtain ⟨r', hp, hout, hend, he⟩ :=
        phase?_iterate_drain (reading?_eq_some_iff.mp hr) r.errorsLeft_le
      rw [← coordinator_applyTimes] at hp
      have hk' := Option.some.inj ((phase?_eq ha'.numbered hk).symm.trans hp)
      obtain ⟨root, ht⟩ := exists_task? (reading?_eq_some_iff.mp hr)
      obtain ⟨hready, hwaiting⟩ := s.subset_applyTimes (.drain k.id readSize) r.errorParts
      by_cases hover : r.OutputOver
      · exact served_of_last (.exit hk' (Reading.isOver_of_outputOver (hout hover) he))
      · -- The error stream came first: either the output is still to be read, or the reading
        -- is over, since the editor did not take what came of that stream.
        have hmore (ho : r.isOver) : r'.isOver := Reading.isOver_iff.mpr
          ((Reading.isOver_iff.mp ho).imp hend fun h => absurd (.inr h.1) hover)
        refine Served.enqueue ?_ _
        rcases h _ (mem_of_task? ht) with (⟨job, hj, hs⟩ | ⟨_, gate, ⟨⟩, ho, hg⟩) | hs
        · cases hs with
          | begin hp | settle hp => cases hp
          | output => exact .inl ⟨_, hready hj, .output hk'⟩
          | drain hp hover' => cases hp; exact absurd hover' hover
          | exit hp ho => cases hp; exact .inl ⟨_, hready hj, .exit hk' (hmore ho)⟩
        · exact .inr ⟨r', gate, hk', hmore ho, hwaiting ▸ hg⟩
        · cases hs with
          | drain hp hover' => cases hp; exact absurd hover' hover
  · exact Served.enqueue (served_applyTimes (e := .drain id readSize) ha
      (fun k hk he => h.other hk he) k hk hid) _

theorem Lacks.exit (ha : s.coordinator.Accounted) (h : s.Lacks (.exit id))
    (hk : k ∈ (s.exit id).coordinator.tasks) : (s.exit id).Served k := by
  unfold Scheduler.exit at hk ⊢
  split at hk
  · next gate _ =>
    rcases h k hk with hs | hs
    · exact hs.mono (List.Subset.refl _) (List.subset_append_left _ _)
    · cases hs with
      | exit hp ho => exact .inr ⟨_, gate, hp, ho, List.mem_append_right _ List.mem_cons_self⟩
  · by_cases hr : ∃ r, s.coordinator.phase? id = some (.reading r) ∧ r.isOver
    · by_cases hid : some id = some k.id
      · obtain rfl := Option.some.inj hid
        obtain ⟨r, hp, ho⟩ := hr
        have ha' := accounted_of_reaches ha (s.reaches_apply (.exit k.id))
        refine served_of_last (.settle (Option.some.inj ?_))
        exact (phase?_eq ha'.numbered hk).symm.trans (phase?_exit hp ho)
      · have hs : (s.apply (.exit id)).Served k :=
          served_apply (e := .exit id) ha (fun k hk he => h.other hk he) hk hid
        exact hs.enqueue _
    · have he : s.coordinator.step (.exit id) = s.coordinator :=
        exit_of_ne fun r hp ho => hr ⟨r, hp, ho⟩
      refine Served.enqueue (h.idle (fun i hi hs => hr ?_) he hk) _
      cases hs with
      | exit hp ho => exact ⟨_, (phase?_eq ha.numbered hi).trans (congrArg some hp), ho⟩

theorem Lacks.settle (ha : s.coordinator.Accounted) (h : s.Lacks (.settle id))
    (hk : k ∈ (s.settle id).coordinator.tasks) : (s.settle id).Served k := by
  unfold Scheduler.settle at hk ⊢
  split at hk
  · next ht =>
    refine (h k hk).resolve_right fun hs => ?_
    obtain rfl : id = k.id := hs.task_eq
    cases ht.symm.trans (ha.numbered.task?_eq hk)
  · next t _ =>
    by_cases hp : s.coordinator.phase? id = some .finished
    · have hid := ne_of_mem_settle hp ha.numbered hk
      exact served_apply (e := .settle id (s.hasManifest t.root)) ha
        (fun k hk he => h.other hk he) hk fun he => hid (Option.some.inj he).symm
    · have he : s.coordinator.step (.settle id (s.hasManifest t.root)) = s.coordinator :=
        settle_of_ne hp _
      refine h.idle (fun i hi hs => hp ?_) he hk
      cases hs with
      | settle hend => rw [phase?_eq ha.numbered hi, hend]

/-- Whatever job is taken, no task is forgotten. -/
theorem Tended.perform (h : s.Tended) (hr : s.ready = job :: rest) :
    ({ s with ready := rest }.perform job).Tended := by
  have ha : { s with ready := rest }.coordinator.Accounted := h.accounted
  have hl : Lacks { s with ready := rest } job := fun k hk => served_rest hr (h.served k hk)
  refine ⟨accounted_of_reaches ha (reaches_perform _ job), fun k hk => ?_⟩
  cases job with
  | begin id => exact hl.begin ha hk
  | output id => exact hl.output ha hk
  | drain id => exact hl.drain ha hk
  | exit id => exact hl.exit ha hk
  | settle id => exact hl.settle ha hk

theorem Tended.wake (h : s.Tended) : s.wake.Tended := by
  refine ⟨h.accounted, fun k hk => ?_⟩
  rcases h.served k hk with ⟨job, hj, hs⟩ | ⟨r, gate, hp, ho, hw⟩
  · exact .inl ⟨job, List.mem_append_left _ hj, hs⟩
  · by_cases hopen : s.isOpen gate
    · refine .inl ⟨.exit k.id, List.mem_append_right _ ?_, .exit hp ho⟩
      exact List.mem_map.mpr ⟨⟨k.id, gate⟩, List.mem_filter.mpr ⟨hw, hopen⟩, rfl⟩
    · exact .inr ⟨r, gate, hp, ho, List.mem_filter.mpr ⟨hw, by simpa using hopen⟩⟩

theorem Tended.buildEach (h : s.Tended) (roots : List Text) : (s.buildEach roots).1.Tended := by
  induction roots generalizing s with
  | nil => exact h
  | cons root roots ih => exact ih (tended_apply (e := .trigger root (s.hasManifest root)) h rfl)

structure Unhindered (s : Scheduler) : Prop where
  allOpen : s.allOpen = true
  waiting : s.waiting = []

theorem Unhindered.applyTimes (h : s.Unhindered) (e : Event) (n : Nat) :
    (s.applyTimes e n).Unhindered := by
  induction n generalizing s with
  | zero => exact h
  | succ n ih => exact ih (s := s.apply e) ⟨h.allOpen, h.waiting⟩

theorem Unhindered.perform (h : s.Unhindered) (job : Job) : (s.perform job).Unhindered := by
  cases job with
  | begin id =>
    change (s.begin id).Unhindered
    unfold Scheduler.begin
    split <;> exact ⟨h.allOpen, h.waiting⟩
  | output id =>
    have := h.applyTimes (.output id readSize) ((s.reading? id).elim 0 Reading.outputParts)
    exact ⟨this.allOpen, this.waiting⟩
  | drain id =>
    have := h.applyTimes (.drain id readSize) ((s.reading? id).elim 0 Reading.errorParts)
    exact ⟨this.allOpen, this.waiting⟩
  | exit id =>
    change (s.exit id).Unhindered
    have hc : s.closedGate? id = none := by simp [closedGate?, isOpen, h.allOpen]
    rw [Scheduler.exit, hc]
    exact ⟨h.allOpen, h.waiting⟩
  | settle id =>
    change (s.settle id).Unhindered
    unfold Scheduler.settle
    split <;> exact ⟨h.allOpen, h.waiting⟩

omit [Surroundings] in
theorem unhindered_openAll (s : Scheduler) : s.openAll.Unhindered := by
  refine ⟨rfl, ?_⟩
  simp [openAll, wake, enqueue, isOpen]

theorem Tended.openAll (h : s.Tended) : s.openAll.Tended :=
  Tended.wake (s := { s with allOpen := true }) ⟨h.accounted, h.served⟩

theorem Tended.finish (h : s.Tended) : s.finish.Tended :=
  run_keeps (P := Tended) h.openAll fun hr h => h.perform hr

/-- When all gates are open and the scheduler is idle no task is left. -/
theorem Tended.tasks_finish (h : s.Tended) : s.finish.coordinator.tasks = [] := by
  have hw : s.finish.Unhindered := run_keeps (P := Unhindered) s.unhindered_openAll
    fun {s _ rest} _ h =>
      Unhindered.perform (s := { s with ready := rest }) ⟨h.allOpen, h.waiting⟩ _
  refine List.eq_nil_iff_forall_not_mem.mpr fun k hk => ?_
  rcases h.finish.served k hk with ⟨job, hj, -⟩ | ⟨r, gate, -, -, hg⟩
  · rw [Scheduler.finish, ready_run] at hj
    cases hj
  · rw [hw.waiting] at hg
    cases hg

end Scheduler

end Workbench
