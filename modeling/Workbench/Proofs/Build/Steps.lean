import Mathlib.Data.List.Induction
import Mathlib.Data.List.Nodup
import Workbench.Build.Coordinator
import Workbench.Proofs.Build.Commit

/-! # What a step of a coordinator does

A step answers a request, moves one task on, ends its session or takes the end of a
session in. `Move` lists what each of them leaves. Whatever the mode, tasks are told
apart by their numbers, and each bears the key of its root.
-/

namespace Workbench

variable [Surroundings]

namespace Build

variable {k : Task}

def Task.key (k : Task) : Text := Path.rootKey k.root

def Task.ended (k : Task) : Bool :=
  match k.phase with
  | .finished => true
  | _ => false

def Task.head (k : Task) : Nat × Text := (k.id, k.root)

theorem Task.key_key (k : Task) (id : Nat) (phase : Phase) :
    Task.key ⟨id, k.key, phase⟩ = k.key := by
  rw [key, key, Path.rootKey_rootKey]

omit [Surroundings] in
theorem Task.ended_iff : k.ended ↔ k.phase = .finished := by
  unfold ended
  split
  · simp_all
  · simp_all

end Build

open Build

namespace Coordinator

variable {c c' : Coordinator} {e : Event} {k : Task} {id : Nat} {key : Text}

/-- The key of the root that a step asks to be built. Without a manifest nothing is asked. -/
def request? (c : Coordinator) : Event → Option Text
  | .trigger root true => some (Path.rootKey root)
  | .touch uri true =>
    match c.rootOf uri with
    | .ok root => root.map Path.rootKey
    | .error _ => none
  | _ => none

def started (c : Coordinator) (e : Event) : List Task :=
  (c.step e).tasks.filter (c.nextId ≤ ·.id)

def starts (c : Coordinator) : List Event → List Task
  | [] => []
  | e :: es => c.started e ++ (c.step e).starts es

/-- The process that a step tries to start. -/
def attempt? (c : Coordinator) : Event → Option Spawn
  | .begin id =>
    match c.task? id with
    | some ⟨_, root, .scheduled⟩ =>
      let s := Session.create root c.toolchain
      some ⟨s.command, some s.root⟩
    | _ => none
  | _ => none

def attempts (c : Coordinator) : List Event → List Spawn
  | [] => []
  | e :: es => (c.attempt? e).toList ++ (c.step e).attempts es

omit [Surroundings] in
theorem mem_of_task? (h : c.task? id = some k) : k ∈ c.tasks := List.mem_of_find?_eq_some h

omit [Surroundings] in
theorem id_of_task? (h : c.task? id = some k) : k.id = id := by
  simpa using List.find?_some h

/-! ## The kinds of steps -/

/-- What a step may do, and when. -/
inductive Move (c : Coordinator) : Event → Coordinator → Prop where
  /-- Nothing is asked for, or not of a task at this point. -/
  | idle {e : Event} (h : c.request? e = none) : Move c e c
  | coalesce {e : Event} {key : Text} {id : Nat} (h : c.request? e = some key)
      (hs : c.singleFlight = true) (hi : c.inflight.get? key = some id) :
      Move c e { c with pending := c.pending.insert key }
  | start {e : Event} {key : Text} (h : c.request? e = some key)
      (hf : c.singleFlight = false ∨ c.inflight.get? key = none) : Move c e (c.start key)
  | begin {k : Task} (h : c.task? k.id = some k) (hp : k.phase = .scheduled) :
      Move c (.begin k.id) (c.setPhase k.id (.spawning (Session.create k.root c.toolchain)))
  | launch {k : Task} {s : Session} {p : Script} (h : c.task? k.id = some k)
      (hp : k.phase = .spawning s) :
      Move c (.launch k.id (.ok p)) (c.setPhase k.id (.reading (.start s p)))
  | refuse {k : Task} {s : Session} {fault : StartFault} {ed : Editor}
      (h : c.task? k.id = some k) (hp : k.phase = .spawning s)
      (he : ed = c.editor.showError (problemMessage k.root (fault.problem s.command))) :
      Move c (.launch k.id (.error fault)) ({ c with editor := ed }.finish k none)
  | output {k : Task} {r : Reading} {n : Nat} (h : c.task? k.id = some k)
      (hp : k.phase = .reading r) :
      Move c (.output k.id n) ({ c with editor := (r.readOutput c.editor n).2 }.setPhase k.id
        (.reading (r.readOutput c.editor n).1))
  | drain {k : Task} {r : Reading} {n : Nat} (h : c.task? k.id = some k)
      (hp : k.phase = .reading r) :
      Move c (.drain k.id n) ({ c with editor := (r.readErrors c.editor n).2 }.setPhase k.id
        (.reading (r.readErrors c.editor n).1))
  | crash {k : Task} {r : Reading} {cr : Crash} {ed : Editor} (h : c.task? k.id = some k)
      (hp : k.phase = .reading r) (hc : r.ended = some cr)
      (he : ed = c.editor.showError (problemMessage k.root (.crash cr))) :
      Move c (.exit k.id) ({ c with editor := ed }.finish k none)
  | commit {k : Task} {r : Reading} {ed : Editor} (h : c.task? k.id = some k)
      (hp : k.phase = .reading r) (hc : r.ended = none) (ho : r.output = none)
      (hr : r.errors = none)
      (he : ed = if r.script.exit.code = some 0 then c.editor else c.editor.showOutput) :
      Move c (.exit k.id)
        ({ c with
            indices := c.indices.commit r.session.root r.session.findings r.script.exit.code
            editor := ed }.finish k
          (some (r.session.result r.script.exit.code, r.session.findings)))
  | settle {k : Task} {m : Bool} (h : c.task? k.id = some k) (hp : k.phase = .finished)
      (hk : k.key ∉ c.pending) : Move c (.settle k.id m) (c.discard k)
  /-- A request was kept, but the manifest is gone. -/
  | drop {k : Task} (h : c.task? k.id = some k) (hp : k.phase = .finished)
      (hk : k.key ∈ c.pending) :
      Move c (.settle k.id false) { c.discard k with pending := c.pending.erase k.key }
  /-- A request was kept and is answered now. -/
  | follow {k : Task} (h : c.task? k.id = some k) (hp : k.phase = .finished)
      (hk : k.key ∈ c.pending) :
      Move c (.settle k.id true)
        ({ c.discard k with pending := c.pending.erase k.key }.trigger k.root true).1

theorem trigger_true (c : Coordinator) (root : Text) :
    (c.trigger root true).1 =
      if c.singleFlight ∧ (c.inflight.get? (Path.rootKey root)).isSome then
        { c with pending := c.pending.insert (Path.rootKey root) }
      else c.start (Path.rootKey root) := by
  simp only [trigger, ← Path.rootKey_eq_absolute, Path.rootKey_rootKey]
  cases c.singleFlight <;> cases c.inflight.get? (Path.rootKey root) <;> rfl

theorem move_trigger_true {root : Text} (h : c.request? e = some (Path.rootKey root)) :
    Move c e (c.trigger root true).1 := by
  rw [trigger_true]
  split_ifs with hi
  · obtain ⟨id, hid⟩ := Option.isSome_iff_exists.mp hi.2
    exact .coalesce h hi.1 hid
  · refine .start h ?_
    rw [← Bool.not_eq_true, ← Option.not_isSome_iff_eq_none]
    exact not_and_or.mp hi

theorem move_touch (c : Coordinator) (uri : Text) (m : Bool) :
    Move c (.touch uri m) (c.touch uri m).1 := by
  cases m with
  | false =>
    have ht : (c.touch uri false).1 = c := by
      unfold touch
      split <;> rfl
    rw [ht]
    exact .idle rfl
  | true =>
    have hr : c.request? (.touch uri true) = match c.rootOf uri with
      | .ok root => root.map Path.rootKey
      | .error _ => none := rfl
    unfold touch
    split
    · next root h =>
      rw [h] at hr
      exact move_trigger_true hr
    · next h =>
      refine .idle (hr.trans ?_)
      rcases hu : c.rootOf uri with _ | _ | root
      · rfl
      · rfl
      · exact absurd hu (h root)

theorem exit_reading {r : Reading} (h : c.task? k.id = some k) (hp : k.phase = .reading r)
    (ho : r.isOver) : Move c (.exit k.id) (c.exit k.id) := by
  obtain ⟨id, root, phase⟩ := k
  obtain rfl : phase = .reading r := hp
  unfold exit
  simp only [h, ho, if_true]
  cases hc : r.ended with
  | some cr =>
    have hl := Session.leave_some (p := r.script) (x := c.indices) (e := c.editor) r.session cr
    rw [Reading.leave, hc, hl]
    exact .crash h rfl hc rfl
  | none =>
    rw [Reading.isOver, hc, Option.isSome_none, Bool.false_or, Bool.and_eq_true,
      Option.isNone_iff_eq_none, Option.isNone_iff_eq_none] at ho
    obtain ⟨hx, hr⟩ := Session.leave_none (p := r.script) (x := c.indices) (e := c.editor) r.session
    rw [Reading.leave, hc, hr, hx, Session.findings_leave]
    exact .commit h rfl hc ho.1 ho.2 rfl

theorem settle_eq (h : c.task? k.id = some k) (hp : k.phase = .finished) (m : Bool) :
    (c.settle k.id m).1 = if k.key ∈ c.pending then
      ({ c.discard k with pending := c.pending.erase k.key }.trigger k.root m).1
    else c.discard k := by
  obtain ⟨id, root, phase⟩ := k
  obtain rfl : phase = .finished := hp
  rw [settle, h]
  exact apply_ite Prod.fst _ _ _

/-- Every step is one of these. -/
theorem step_move (c : Coordinator) (e : Event) : Move c e (c.step e) := by
  cases e with
  | trigger root m =>
    cases m with
    | false => exact .idle rfl
    | true => exact move_trigger_true rfl
  | touch uri m => exact move_touch c uri m
  | begin id =>
    change Move c (.begin id) (c.begin id)
    unfold begin
    split
    · next root h =>
      obtain rfl := id_of_task? h
      exact .begin h rfl
    · exact .idle rfl
  | launch id start =>
    change Move c (.launch id start) (c.launch id start)
    unfold launch
    split
    · next root s h =>
      obtain rfl := id_of_task? h
      cases start with
      | error reason => exact .refuse h rfl rfl
      | ok p => exact .launch h rfl
    · exact .idle rfl
  | output id n =>
    change Move c (.output id n) (c.readOutput id n)
    unfold readOutput
    split
    · next root r h =>
      obtain rfl := id_of_task? h
      exact .output h rfl
    · exact .idle rfl
  | drain id n =>
    change Move c (.drain id n) (c.drain id n)
    unfold drain
    split
    · next root r h =>
      obtain rfl := id_of_task? h
      exact .drain h rfl
    · exact .idle rfl
  | exit id =>
    change Move c (.exit id) (c.exit id)
    -- Before the reading is over the status is not waited for, and nothing happens.
    by_cases hr : ∃ k r, c.task? id = some k ∧ k.phase = .reading r ∧ r.isOver
    · obtain ⟨k, r, h, hp, ho⟩ := hr
      obtain rfl := id_of_task? h
      exact exit_reading h hp ho
    · have he : c.exit id = c := by
        unfold exit
        split
        · next root r h => exact if_neg fun ho => hr ⟨_, r, h, rfl, ho⟩
        · rfl
      rw [he]
      exact .idle rfl
  | settle id m =>
    change Move c (.settle id m) (c.settle id m).1
    by_cases hr : ∃ k, c.task? id = some k ∧ k.phase = .finished
    · obtain ⟨k, h, hp⟩ := hr
      obtain rfl := id_of_task? h
      rw [settle_eq h hp]
      split_ifs with hk
      · cases m with
        | false => exact .drop h hp hk
        | true => exact .follow h hp hk
      · exact .settle h hp hk
    · have hs : (c.settle id m).1 = c := by
        unfold settle
        split
        · next root h => exact absurd ⟨_, h, rfl⟩ hr
        · rfl
      rw [hs]
      exact .idle rfl

/-! ## Books -/

/-- What a coordinator knows of its tasks, whatever their phases, and of requests. -/
structure Books where
  heads : List (Nat × Text)
  inflight : OrderedMap Text Nat
  pending : List Text
  nextId : Nat

def books (c : Coordinator) : Books := ⟨c.tasks.map Task.head, c.inflight, c.pending, c.nextId⟩

omit [Surroundings] in
theorem mem_heads {root : Text} :
    (id, root) ∈ c.books.heads ↔ ∃ k ∈ c.tasks, k.id = id ∧ k.root = root := by
  simp [books, Task.head]

omit [Surroundings] in
theorem head_mem (h : k ∈ c.tasks) : (k.id, k.root) ∈ c.books.heads :=
  mem_heads.mpr ⟨k, h, rfl, rfl⟩

omit [Surroundings] in
theorem books_setPhase (c : Coordinator) (id : Nat) (phase : Phase) :
    (c.setPhase id phase).books = c.books := by
  have hm : (c.setPhase id phase).tasks.map Task.head = c.tasks.map Task.head := by
    rw [setPhase, List.map_map]
    refine List.map_congr_left fun k _ => ?_
    dsimp only [Function.comp]
    split_ifs <;> rfl
  rw [books, hm]
  rfl

omit [Surroundings] in
theorem books_finish (c : Coordinator) (k : Task) (o : Option (BuildResult × Findings)) :
    (c.finish k o).books = c.books :=
  books_setPhase c k.id .finished

theorem books_start (c : Coordinator) (root : Text) :
    (c.start root).books = ⟨c.books.heads ++ [(c.nextId, root)],
      c.inflight.insert (Path.rootKey root) c.nextId, c.pending, c.nextId + 1⟩ := by
  simp [books, start, Task.head]

theorem books_discard (c : Coordinator) (k : Task) :
    (c.discard k).books = ⟨c.books.heads.filter (·.1 != k.id),
      if c.inflight.get? k.key = some k.id then c.inflight.erase k.key else c.inflight,
      c.pending, c.nextId⟩ := by
  rw [books, books, List.filter_map]
  rfl

structure Books.Numbered (b : Books) : Prop where
  keyed : ∀ p ∈ b.heads, Path.rootKey p.2 = p.2
  lt : ∀ p ∈ b.heads, p.1 < b.nextId
  nodup : (b.heads.map Prod.fst).Nodup

theorem rootKey_of_request? (h : c.request? e = some key) : Path.rootKey key = key := by
  unfold request? at h
  split at h
  · obtain rfl := Option.some.inj h
    exact Path.rootKey_rootKey _
  · split at h
    · obtain ⟨root, -, rfl⟩ := Option.map_eq_some_iff.mp h
      exact Path.rootKey_rootKey root
    · cases h
  · cases h

namespace Books.Numbered

theorem start (h : c.books.Numbered) (hk : Path.rootKey key = key) :
    (c.start key).books.Numbered := by
  rw [books_start]
  constructor
  · intro p hp
    rcases List.mem_append.mp hp with hp | hp
    · exact h.keyed p hp
    · rw [List.mem_singleton.mp hp]
      exact hk
  · intro p hp
    rcases List.mem_append.mp hp with hp | hp
    · exact Nat.lt_succ_of_lt (h.lt p hp)
    · rw [List.mem_singleton.mp hp]
      exact Nat.lt_succ_self _
  · have hn : c.nextId ∉ c.books.heads.map Prod.fst := by
      intro hm
      obtain ⟨p, hp, he⟩ := List.mem_map.mp hm
      exact absurd (h.lt p hp) (by rw [he]; exact Nat.lt_irrefl _)
    rw [List.map_append, List.nodup_append_comm]
    exact List.nodup_cons.mpr ⟨hn, h.nodup⟩

theorem discard (h : c.books.Numbered) (k : Task) : (c.discard k).books.Numbered := by
  rw [books_discard]
  constructor
  · exact fun p hp => h.keyed p (List.mem_of_mem_filter hp)
  · exact fun p hp => h.lt p (List.mem_of_mem_filter hp)
  · exact h.nodup.sublist (List.filter_sublist.map _)

theorem setPending (h : c.books.Numbered) (ks : List Text) :
    { c with pending := ks }.books.Numbered :=
  ⟨h.keyed, h.lt, h.nodup⟩

theorem trigger (h : c.books.Numbered) (root : Text) : (c.trigger root true).1.books.Numbered := by
  rw [trigger_true]
  split_ifs
  · exact h.setPending _
  · exact h.start (Path.rootKey_rootKey root)

theorem step (h : c.books.Numbered) (hm : Move c e c') : c'.books.Numbered := by
  cases hm with
  | idle => exact h
  | coalesce => exact h.setPending _
  | start hr => exact h.start (rootKey_of_request? hr)
  | begin | launch | output | drain => exact (books_setPhase _ _ _).symm ▸ h
  | refuse | crash | commit => exact (books_finish _ _ _).symm ▸ h
  | settle => exact h.discard _
  | drop => exact (h.discard _).setPending _
  | follow => exact ((h.discard _).setPending _).trigger _

theorem eq_of_id (h : c.books.Numbered) {k' : Task} (hk : k ∈ c.tasks) (hk' : k' ∈ c.tasks)
    (hid : k.id = k'.id) : k = k' := by
  have hn := h.nodup
  rw [books, List.map_map] at hn
  exact List.inj_on_of_nodup_map hn hk hk' hid

theorem task?_eq (h : c.books.Numbered) (hk : k ∈ c.tasks) : c.task? k.id = some k := by
  obtain ⟨k', hk'⟩ := Option.isSome_iff_exists.mp
    (List.find?_isSome (p := (·.id == k.id)).mpr ⟨k, hk, beq_self_eq_true k.id⟩)
  rw [task?, hk', h.eq_of_id (mem_of_task? hk') hk (id_of_task? hk')]

theorem lt_of_mem (h : c.books.Numbered) (hk : k ∈ c.tasks) : k.id < c.nextId :=
  h.lt (k.id, k.root) (head_mem hk)

theorem key_eq (h : c.books.Numbered) (hk : k ∈ c.tasks) : k.key = k.root :=
  h.keyed (k.id, k.root) (head_mem hk)

end Books.Numbered

/-! ## Tasks and ends -/

theorem mem_start {k' : Task} :
    k' ∈ (c.start key).tasks ↔ k' ∈ c.tasks ∨ k' = ⟨c.nextId, key, .scheduled⟩ := by
  simp [start]

theorem mem_trigger {root : Text} {k' : Task} (h : k' ∈ (c.trigger root true).1.tasks) :
    k' ∈ c.tasks ∨ k' = ⟨c.nextId, Path.rootKey root, .scheduled⟩ := by
  rw [trigger_true] at h
  split_ifs at h
  · exact .inl h
  · exact mem_start.mp h

theorem trigger_ends (c : Coordinator) (root : Text) :
    (c.trigger root true).1.indices = c.indices ∧
      (c.trigger root true).1.finished = c.finished := by
  rw [trigger_true]
  split_ifs
  · exact ⟨rfl, rfl⟩
  · exact ⟨rfl, rfl⟩

theorem mem_discard {k' : Task} : k' ∈ (c.discard k).tasks ↔ k' ∈ c.tasks ∧ k'.id ≠ k.id := by
  simp [discard]

theorem mem_setPhase (h : c.task? k.id = some k) {phase : Phase} {k' : Task}
    (hn : c.books.Numbered) :
    k' ∈ (c.setPhase k.id phase).tasks ↔
      k' = { k with phase } ∨ k' ∈ c.tasks ∧ k'.id ≠ k.id := by
  have hm : k' ∈ (c.setPhase k.id phase).tasks ↔
      ∃ i ∈ c.tasks, (if i.id = k.id then { i with phase } else i) = k' := List.mem_map
  rw [hm]
  constructor
  · rintro ⟨i, hi, rfl⟩
    split_ifs with hid
    · rw [hn.eq_of_id hi (mem_of_task? h) hid]
      exact .inl rfl
    · exact .inr ⟨hi, hid⟩
  · rintro (rfl | ⟨hk, hid⟩)
    · exact ⟨k, mem_of_task? h, if_pos rfl⟩
    · exact ⟨k', hk, if_neg hid⟩

theorem Move.tasks (hm : Move c e c') :
    c'.books.heads ⊆ c.books.heads ∧ c'.nextId = c.nextId ∨
    ∃ old key, old ⊆ c.tasks ∧ c'.tasks = old ++ [⟨c.nextId, key, .scheduled⟩] ∧
      c'.nextId = c.nextId + 1 := by
  have hd (k : Task) : (c.discard k).books.heads ⊆ c.books.heads := by
    rw [books_discard]
    exact List.filter_subset_self _
  have hp (c : Coordinator) (id : Nat) (phase : Phase) :
      (c.setPhase id phase).books.heads ⊆ c.books.heads := by
    rw [books_setPhase]
    exact List.Subset.refl _
  cases hm with
  | idle | coalesce => exact .inl ⟨List.Subset.refl _, rfl⟩
  | @start _ key => exact .inr ⟨c.tasks, key, List.Subset.refl _, rfl, rfl⟩
  | begin | launch | output | drain | refuse | crash | commit =>
    exact .inl ⟨hp _ _ _, rfl⟩
  | settle | drop => exact .inl ⟨hd _, rfl⟩
  | @follow k =>
    rw [trigger_true]
    split_ifs
    · exact .inl ⟨hd k, rfl⟩
    · exact .inr ⟨_, _, List.filter_subset_self _, rfl, rfl⟩

theorem Move.nextId_le (hm : Move c e c') : c.nextId ≤ c'.nextId := by
  rcases hm.tasks with ⟨-, h⟩ | ⟨_, _, -, -, h⟩ <;> omega

theorem Move.nextId_eq (hm : Move c e c') (hr : c.request? e = none)
    (hs : ∀ id m, e ≠ .settle id m) : c'.nextId = c.nextId := by
  cases hm with
  | start h => cases hr.symm.trans h
  | follow => exact absurd rfl (hs _ _)
  | _ => rfl

theorem Move.mem_heads (hm : Move c e c') {p : Nat × Text} (hp : p ∈ c'.books.heads)
    (hlt : p.1 < c.nextId) : p ∈ c.books.heads := by
  rcases hm.tasks with ⟨hs, -⟩ | ⟨old, key, hs, ht, -⟩
  · exact hs hp
  · obtain ⟨k, hk, rfl⟩ := List.mem_map.mp hp
    rw [ht] at hk
    rcases List.mem_append.mp hk with hk | hk
    · exact head_mem (hs hk)
    · rw [List.mem_singleton.mp hk] at hlt
      exact absurd hlt (Nat.lt_irrefl _)

theorem started_eq (h : c.books.Numbered) (hk : k ∈ (c.step e).tasks) (hn : c.nextId ≤ k.id) :
    c.started e = [k] ∧ k = ⟨k.id, k.key, .scheduled⟩ := by
  have hm := step_move c e
  rcases hm.tasks with ⟨hs, -⟩ | ⟨old, key, hs, ht, -⟩
  · exact absurd (h.lt _ (hs (head_mem hk))) (Nat.not_lt.mpr hn)
  · -- The others are older, so their numbers are below the next one.
    have hold : ∀ i ∈ old, i.id < c.nextId := fun i hi => h.lt_of_mem (hs hi)
    have hkey := (h.step hm).key_eq hk
    rw [ht] at hk
    rcases List.mem_append.mp hk with hk | hk
    · exact absurd (hold k hk) (Nat.not_lt.mpr hn)
    · obtain rfl := List.mem_singleton.mp hk
      refine ⟨?_, by rw [hkey]⟩
      rw [started, ht, List.filter_append,
        List.filter_eq_nil_iff.mpr fun i hi => by simpa using hold i hi]
      simp

/-- The sessions of just the tasks that have ended have an end on record, each one end. -/
structure Accounted (c : Coordinator) : Prop where
  numbered : c.books.Numbered
  nodup : (c.finished.map Finish.task).Nodup
  mem_iff : ∀ id, id ∈ c.finished.map Finish.task ↔
    id < c.nextId ∧ ∀ k ∈ c.tasks, k.id = id → k.ended

namespace Accounted

theorem congr (h : c.Accounted) (ht : c'.tasks = c.tasks) (hf : c'.finished = c.finished)
    (hn : c'.nextId = c.nextId) : c'.Accounted := by
  refine ⟨⟨?_, ?_, ?_⟩, ?_, ?_⟩
  · rw [books, ht]; exact h.numbered.keyed
  · rw [books, ht, hn]; exact h.numbered.lt
  · rw [books, ht]; exact h.numbered.nodup
  · rw [hf]; exact h.nodup
  · rw [hf, ht, hn]; exact h.mem_iff

theorem start (h : c.Accounted) (hk : Path.rootKey key = key) : (c.start key).Accounted where
  numbered := h.numbered.start hk
  nodup := h.nodup
  mem_iff id := by
    refine (h.mem_iff id).trans ⟨fun ⟨hlt, he⟩ => ⟨Nat.lt_succ_of_lt hlt, ?_⟩, ?_⟩
    · intro k hk hid
      rcases mem_start.mp hk with hk | rfl
      · exact he k hk hid
      · exact absurd hlt (hid ▸ Nat.lt_irrefl _)
    · rintro ⟨hlt, he⟩
      -- The new task has not ended, so a task on record has another number.
      refine ⟨lt_of_le_of_ne (Nat.le_of_lt_succ hlt) ?_, fun k hk => he k (mem_start.mpr (.inl hk))⟩
      rintro rfl
      cases he _ (mem_start.mpr (.inr rfl)) rfl

theorem discard (h : c.Accounted) (hk : c.task? k.id = some k) (hp : k.ended) :
    (c.discard k).Accounted where
  numbered := h.numbered.discard k
  nodup := h.nodup
  mem_iff id := by
    refine (h.mem_iff id).trans
      (and_congr_right fun _ => ⟨fun he i hi => ?_, fun he i hi hid => ?_⟩)
    · exact he i (mem_discard.mp hi).1
    · by_cases hik : i.id = k.id
      · rw [h.numbered.eq_of_id hi (mem_of_task? hk) hik]
        exact hp
      · exact he i (mem_discard.mpr ⟨hi, hik⟩) hid

theorem setPhase (h : c.Accounted) (hk : c.task? k.id = some k) {phase : Phase}
    (hp : k.ended = false) (hp' : Task.ended { k with phase } = false) :
    (c.setPhase k.id phase).Accounted where
  numbered := by
    rw [books_setPhase]
    exact h.numbered
  nodup := h.nodup
  mem_iff id := by
    refine (h.mem_iff id).trans
      (and_congr_right fun _ => ⟨fun he i hi hid => ?_, fun he i hi hid => ?_⟩)
    · rcases (mem_setPhase hk h.numbered).mp hi with rfl | ⟨hi, -⟩
      · cases hp.symm.trans (he k (mem_of_task? hk) hid)
      · exact he i hi hid
    · by_cases hik : i.id = k.id
      · cases hp'.symm.trans
          (he _ ((mem_setPhase hk h.numbered).mpr (.inl rfl)) (hik.symm.trans hid))
      · exact he i ((mem_setPhase hk h.numbered).mpr (.inr ⟨hi, hik⟩)) hid

theorem not_mem (h : c.Accounted) (hk : c.task? k.id = some k) (hp : k.ended = false) :
    k.id ∉ c.finished.map Finish.task := fun hm =>
  Bool.false_ne_true (hp.symm.trans (((h.mem_iff k.id).mp hm).2 k (mem_of_task? hk) rfl))

theorem finish (h : c.Accounted) (hk : c.task? k.id = some k) (hp : k.ended = false)
    (o : Option (BuildResult × Findings)) : (c.finish k o).Accounted where
  numbered := by
    rw [books_finish]
    exact h.numbered
  nodup := by
    rw [Coordinator.finish, List.map_append, List.nodup_append_comm]
    exact List.nodup_cons.mpr ⟨h.not_mem hk hp, h.nodup⟩
  mem_iff id := by
    rw [Coordinator.finish, List.map_append, List.mem_append, h.mem_iff]
    constructor
    · rintro (⟨hlt, he⟩ | hid)
      · refine ⟨hlt, fun i hi hid => ?_⟩
        rcases (mem_setPhase hk h.numbered).mp hi with rfl | ⟨hi, -⟩
        · rfl
        · exact he i hi hid
      · obtain rfl := List.mem_singleton.mp hid
        refine ⟨h.numbered.lt_of_mem (mem_of_task? hk), fun i hi hid => ?_⟩
        rcases (mem_setPhase hk h.numbered).mp hi with rfl | ⟨-, hik⟩
        · rfl
        · exact absurd hid hik
    · rintro ⟨hlt, he⟩
      by_cases hik : id = k.id
      · exact .inr (List.mem_singleton.mpr hik)
      · refine .inl ⟨hlt, fun i hi hid => he i ?_ hid⟩
        exact (mem_setPhase hk h.numbered).mpr (.inr ⟨hi, hid.trans_ne hik⟩)

theorem trigger (h : c.Accounted) (root : Text) : (c.trigger root true).1.Accounted := by
  rw [trigger_true]
  split_ifs
  · exact h.congr rfl rfl rfl
  · exact h.start (Path.rootKey_rootKey root)

theorem step (h : c.Accounted) (hm : Move c e c') : c'.Accounted := by
  cases hm with
  | idle => exact h
  | coalesce => exact h.congr rfl rfl rfl
  | start hr => exact h.start (rootKey_of_request? hr)
  | begin hk hp | launch hk hp => exact h.setPhase hk (by rw [Task.ended, hp]) rfl
  | output hk hp | drain hk hp =>
    apply Accounted.setPhase
    · exact h.congr rfl rfl rfl
    · exact hk
    · rw [Task.ended, hp]
    · rfl
  | refuse hk hp | crash hk hp | commit hk hp =>
    apply Accounted.finish
    · exact h.congr rfl rfl rfl
    · exact hk
    · rw [Task.ended, hp]
  | settle hk hp => exact h.discard hk (Task.ended_iff.mpr hp)
  | drop hk hp => exact (h.discard hk (Task.ended_iff.mpr hp)).congr rfl rfl rfl
  | follow hk hp =>
    apply Accounted.trigger
    exact (h.discard hk (Task.ended_iff.mpr hp)).congr rfl rfl rfl

end Accounted

/-! ## Runs -/

def fresh (t : Toolchain) (roots : List Text) (singleFlight : Bool) (ed : Editor) (x : Indices) :
    Coordinator :=
  { create t roots singleFlight ed with indices := x }

theorem accounted_fresh (t : Toolchain) (roots : List Text) (sf : Bool) (ed : Editor)
    (x : Indices) : (fresh t roots sf ed x).Accounted where
  numbered := ⟨nofun, nofun, List.nodup_nil⟩
  nodup := List.nodup_nil
  mem_iff _ := iff_of_false nofun nofun

theorem run_append (c : Coordinator) (es es' : List Event) :
    c.run (es ++ es') = (c.run es).run es' := List.foldl_append

theorem run_append_cons (c : Coordinator) (es es' : List Event) (e : Event) :
    c.run (es ++ e :: es') = ((c.run es).step e).run es' := List.foldl_append

theorem run_concat (c : Coordinator) (es : List Event) (e : Event) :
    c.run (es ++ [e]) = (c.run es).step e := run_append c es [e]

theorem Move.settings (hm : Move c e c') : c'.toolchain = c.toolchain ∧ c'.roots = c.roots ∧
    c'.singleFlight = c.singleFlight := by
  cases hm with
  | follow =>
    rw [trigger_true]
    split_ifs
    · exact ⟨rfl, rfl, rfl⟩
    · exact ⟨rfl, rfl, rfl⟩
  | _ => exact ⟨rfl, rfl, rfl⟩

theorem settings_run (c : Coordinator) (es : List Event) : (c.run es).toolchain = c.toolchain ∧
    (c.run es).roots = c.roots ∧ (c.run es).singleFlight = c.singleFlight := by
  induction es using List.reverseRecOn with
  | nil => exact ⟨rfl, rfl, rfl⟩
  | append_singleton es e ih =>
    obtain ⟨ht, hr, hs⟩ := ih
    obtain ⟨ht', hr', hs'⟩ := (step_move (c.run es) e).settings
    rw [run_concat]
    exact ⟨ht'.trans ht, hr'.trans hr, hs'.trans hs⟩

theorem request?_congr (h : c'.roots = c.roots) (e : Event) : c'.request? e = c.request? e := by
  have ho : c'.rootOf = c.rootOf := by
    funext uri
    simp only [rootOf, owningRoot, h]
  unfold request?
  rw [ho]

theorem request?_run (c : Coordinator) (es : List Event) (e : Event) :
    (c.run es).request? e = c.request? e :=
  request?_congr (c.settings_run es).2.1 e

/-- What holds at first and is kept by every step holds throughout. -/
theorem run_induction {P : Coordinator → Prop} (h₀ : P c)
    (hs : ∀ {c c' : Coordinator} {e : Event}, P c → Move c e c' → P c') (es : List Event) :
    P (c.run es) := by
  induction es using List.reverseRecOn with
  | nil => exact h₀
  | append_singleton es e ih =>
    rw [run_concat]
    exact hs ih (step_move _ e)

theorem nextId_le_run (c : Coordinator) (es : List Event) : c.nextId ≤ (c.run es).nextId :=
  run_induction (P := fun c' => c.nextId ≤ c'.nextId) (Nat.le_refl _)
    (fun h hm => h.trans hm.nextId_le) es

theorem mem_heads_of_run {es : List Event} {p : Nat × Text} (hp : p ∈ (c.run es).books.heads)
    (hlt : p.1 < c.nextId) : p ∈ c.books.heads := by
  induction es using List.reverseRecOn with
  | nil => exact hp
  | append_singleton es e ih =>
    rw [run_concat] at hp
    exact ih ((step_move _ e).mem_heads hp (Nat.lt_of_lt_of_le hlt (c.nextId_le_run es)))

theorem root_of_run {es : List Event} {root : Text} (hn : c.books.Numbered)
    (hh : (id, root) ∈ c.books.heads) (hk : (c.run es).task? id = some k) : k.root = root := by
  obtain rfl := id_of_task? hk
  have hlt : k.id < c.nextId := hn.lt _ hh
  obtain ⟨i, hi, hid, hroot⟩ := mem_heads.mp (mem_heads_of_run (head_mem (mem_of_task? hk)) hlt)
  obtain ⟨j, hj, hjid, rfl⟩ := mem_heads.mp hh
  rw [← hroot, hn.eq_of_id hi hj (hid.trans hjid.symm)]

theorem accounted_run (h : c.Accounted) (es : List Event) : (c.run es).Accounted :=
  run_induction h Accounted.step es

end Coordinator

end Workbench
