import Workbench.Proofs.Build.Failures
import Workbench.Proofs.Build.Order
import Workbench.Proofs.Build.SingleFlight
import Workbench.Proofs.Build.Tended

/-! # A coordinator survives its sessions

However sessions end, the books lead to tasks that are there, in either mode. So nothing is
left in them once no task is left, and a scheduler comes to that point from wherever it is.
A request that was kept is answered behind a session that failed as behind any other.
-/

namespace Workbench

open Build OrderedMap

section

variable [Surroundings]

namespace Coordinator

variable {c c' : Coordinator} {e : Event} {k : Task} {key : Text}

/-! ## The books in either mode -/

/-- The books lead to tasks that are there, and without single flight no request is kept. -/
structure Led (c : Coordinator) : Prop where
  numbered : c.books.Numbered
  inflight : ∀ key id, c.inflight.get? key = some id → (id, key) ∈ c.books.heads
  pending : c.singleFlight = false → c.pending = []

namespace Led

theorem start (h : c.Led) (hk : Path.rootKey key = key) : (c.start key).Led := by
  refine ⟨h.numbered.start hk, ?_, h.pending⟩
  intro key' id hi
  rw [books_start, List.mem_append, List.mem_singleton]
  change (c.inflight.insert (Path.rootKey key) c.nextId).get? key' = some id at hi
  rw [hk, get?_insert] at hi
  split_ifs at hi with he
  · rw [← Option.some.inj hi, he]
    exact .inr rfl
  · exact .inl (h.inflight key' id hi)

theorem discard (h : c.Led) (hk : k ∈ c.tasks) : (c.discard k).Led := by
  refine ⟨h.numbered.discard k, ?_, h.pending⟩
  have hold {key : Text} {id : Nat} (hi : (c.discard k).inflight.get? key = some id) :
      c.inflight.get? key = some id := by
    change (if c.inflight.get? k.key = some k.id then c.inflight.erase k.key
      else c.inflight).get? key = some id at hi
    split_ifs at hi
    · rw [get?_erase] at hi
      split_ifs at hi
      exact hi
    · exact hi
  intro key id hi
  have hm := h.inflight key id (hold hi)
  rw [books_discard]
  refine List.mem_filter.mpr ⟨hm, bne_iff_ne.mpr ?_⟩
  -- An entry that leads to the task is the one of its key, and goes with the task.
  rintro rfl
  obtain ⟨k', hk', hid, rfl⟩ := mem_heads.mp hm
  obtain rfl := h.numbered.eq_of_id hk' hk hid
  have hkey := h.numbered.key_eq hk
  rw [← hkey] at hi
  change (if c.inflight.get? k'.key = some k'.id then c.inflight.erase k'.key
    else c.inflight).get? k'.key = some k'.id at hi
  rw [if_pos (hold hi), get?_erase, if_pos rfl] at hi
  cases hi

theorem setPending (h : c.Led) {ks : List Text} (hs : c.singleFlight = false → ks = []) :
    { c with pending := ks }.Led :=
  ⟨h.numbered.setPending ks, h.inflight, hs⟩

theorem trigger (h : c.Led) (root : Text) : (c.trigger root true).1.Led := by
  rw [trigger_true]
  split_ifs with hs
  · refine h.setPending fun hf => ?_
    rw [hs.1] at hf
    cases hf
  · exact h.start (Path.rootKey_rootKey root)

theorem congr (h : c.Led) (hb : c'.books = c.books) (hs : c'.singleFlight = c.singleFlight) :
    c'.Led := by
  have hi : c'.inflight = c.inflight := congrArg Books.inflight hb
  have hp : c'.pending = c.pending := congrArg Books.pending hb
  refine ⟨hb ▸ h.numbered, ?_, ?_⟩
  · rw [hi, hb]
    exact h.inflight
  · rw [hs, hp]
    exact h.pending

theorem step (h : c.Led) (hm : Move c e c') : c'.Led := by
  have herase (key : Text) (hs : c.singleFlight = false) : c.pending.erase key = [] := by
    rw [h.pending hs]
    rfl
  cases hm with
  | idle => exact h
  | coalesce _ hs =>
    refine h.setPending fun hf => ?_
    rw [hs] at hf
    cases hf
  | start hr => exact h.start (rootKey_of_request? hr)
  | begin | launch | output | drain => exact h.congr (books_setPhase _ _ _) rfl
  | refuse | crash | commit => exact h.congr (books_finish _ _ _) rfl
  | settle hk => exact h.discard (mem_of_task? hk)
  | drop hk => exact (h.discard (mem_of_task? hk)).setPending (herase _)
  | follow hk => exact ((h.discard (mem_of_task? hk)).setPending (herase _)).trigger _

end Led

theorem led_fresh (t : Toolchain) (roots : List Text) (sf : Bool) (ed : Editor) (x : Indices) :
    (fresh t roots sf ed x).Led :=
  ⟨(accounted_fresh t roots sf ed x).numbered, nofun, fun _ => rfl⟩

theorem Led.books_of_no_task (h : c.Led) (hx : c.singleFlight = true → c.books.Exclusive)
    (ht : c.tasks = []) : c.inflight.keys = [] ∧ c.pending = [] := by
  have hh : c.books.heads = [] := by
    rw [books, ht]
    rfl
  constructor
  · refine List.eq_nil_iff_forall_not_mem.mpr fun key hk => ?_
    obtain ⟨id, hi⟩ := Option.isSome_iff_exists.mp (isSome_get?.mpr hk)
    have hm := h.inflight key id hi
    rw [hh] at hm
    cases hm
  · cases hs : c.singleFlight with
    | false => exact h.pending hs
    | true =>
      refine List.eq_nil_iff_forall_not_mem.mpr fun key hk => ?_
      have hm := (hx hs).pending key hk
      rw [hh] at hm
      cases hm

theorem books_of_run (t : Toolchain) (roots : List Text) (sf : Bool) (ed : Editor) (x : Indices)
    {events : List Event} (hc : (fresh t roots sf ed x).run events = c) (ht : c.tasks = []) :
    c.inflight.keys = [] ∧ c.pending = [] := by
  subst hc
  refine Led.books_of_no_task (run_induction (led_fresh t roots sf ed x) Led.step events) ?_ ht
  intro hs
  rw [(settings_run _ events).2.2] at hs
  exact exclusive_run (exclusive_fresh t roots sf ed x) hs events

/-! ## Requests behind a failure -/

/-- A request that comes while a task is in flight for its root is answered behind the task,
however its session ends, if the manifest is still there. -/
theorem started_behind (h : c.books.Exclusive) (hs : c.singleFlight = true) {after : List Event}
    (hr : c.request? e = some k.key) (hi : c.inflight.get? k.key = some k.id)
    (hk : k ∈ (c.run (e :: after)).tasks) (he : k.ended) (m : Bool) :
    (c.run (e :: after)).started (.settle k.id m) =
      if m then [⟨(c.run (e :: after)).nextId, k.key, .scheduled⟩] else [] := by
  have hx := exclusive_run h hs (e :: after)
  have hfirst := (h.inflight_iff _ _).mp hi
  have hlast := head_mem hk
  rw [← hx.key_eq hk] at hlast
  have hp : k.key ∈ (c.run (e :: after)).pending :=
    (mem_pending_run h hs hfirst hlast).mpr (.inr ⟨e, List.mem_cons_self, hr⟩)
  rw [hx.started_settle hk he]
  simp only [hp, and_true]

end Coordinator

/-! ## Schedulers -/

namespace Scheduler

open Coordinator

inductive Act where
  | build (root : Text)
  | rebuild (uri : Text)
  /-- The task whose turn it is takes a step. -/
  | advance
  | openGate (gate : Text)
  /-- The files of the world are others. -/
  | change (files : OrderedMap Text Text)
  | finish

variable {s : Scheduler}

def act (s : Scheduler) : Act → Scheduler
  | .build root => (s.build root).1
  | .rebuild uri =>
    match s.rebuild uri with
    | .ok r => r.1
    | .error _ => s
  | .advance =>
    match s.ready with
    | [] => s
    | job :: rest => { s with ready := rest }.perform job
  | .openGate gate => s.openGate gate
  | .change files => { s with world := { s.world with files } }
  | .finish => s.finish

def after (s : Scheduler) (acts : List Act) : Scheduler := acts.foldl act s

/-- A trigger raises an exception just for a URI that cannot be read, whatever the sessions
have done. -/
theorem rebuild_error_iff (s : Scheduler) (uri : Text) :
    (∃ cr, s.rebuild uri = .error cr) ↔ ∃ f, Uri.toPath uri = .error f := by
  rw [rebuild, rootOf]
  cases Uri.toPath uri with
  | error f => exact iff_of_true ⟨_, rfl⟩ ⟨f, rfl⟩
  | ok path =>
    refine iff_of_false ?_ ?_
    · rintro ⟨_, ⟨⟩⟩
    · rintro ⟨_, ⟨⟩⟩

theorem Tended.act (h : s.Tended) (a : Act) : (s.act a).Tended := by
  cases a with
  | build root => exact tended_apply (e := .trigger root (s.hasManifest root)) h rfl
  | rebuild uri =>
    change Scheduler.Tended (match s.rebuild uri with
      | .ok r => r.1
      | .error _ => s)
    rw [Scheduler.rebuild]
    rcases s.coordinator.rootOf uri with cr | _ | root
    · exact h
    · exact h
    · exact tended_apply (e := .touch uri (s.hasManifest root)) h rfl
  | advance =>
    change Scheduler.Tended (match s.ready with
      | [] => s
      | job :: rest => { s with ready := rest }.perform job)
    split
    · exact h
    · next job rest hr => exact h.perform hr
  | openGate gate => exact Tended.wake (s := { s with opened := gate :: s.opened }) ⟨h.1, h.2⟩
  | change files => exact ⟨h.1, h.2⟩
  | finish => exact h.finish

theorem Tended.after (h : s.Tended) (acts : List Act) : (s.after acts).Tended := by
  induction acts generalizing s with
  | nil => exact h
  | cons a acts ih => exact ih (h.act a)

theorem reaches_act (s : Scheduler) (a : Act) : s.Reaches (s.act a) := by
  cases a with
  | build root => exact s.reaches_apply _
  | rebuild uri =>
    change s.Reaches (match s.rebuild uri with
      | .ok r => r.1
      | .error _ => s)
    split
    · next r hr => exact reaches_rebuild hr
    · exact reaches_of_eq rfl
  | advance =>
    change s.Reaches (match s.ready with
      | [] => s
      | job :: rest => { s with ready := rest }.perform job)
    split
    · exact reaches_of_eq rfl
    · next job rest _ =>
      have h : s.Reaches { s with ready := rest } := reaches_of_eq rfl
      exact h.trans (reaches_perform _ job)
  | openGate gate => exact reaches_of_eq rfl
  | change files => exact reaches_of_eq rfl
  | finish => exact s.reaches_finish

theorem reaches_after (s : Scheduler) (acts : List Act) : s.Reaches (s.after acts) := by
  induction acts generalizing s with
  | nil => exact reaches_of_eq rfl
  | cons a acts ih => exact (s.reaches_act a).trans (ih _)

end Scheduler

/-! ## Failing sessions -/

namespace Coordinator

variable {c : Coordinator}

/-- After any events in any order in either mode the errors that were shown are those of the
sessions that failed, one for each, and these are the sessions that ended without a result.
A request that was kept behind a session that failed is answered if the manifest is still
there. No request, number or key is left once no task is left, and wherever a scheduler
stands it comes to this point, with one end for each task; only a URI that cannot be read
makes a trigger raise. -/
theorem run_failures {t : Toolchain} {roots : List Text} {sf : Bool} {ed : Editor} {x : Indices}
    {events : List Event} (hc : (fresh t roots sf ed x).run events = c) :
    c.editor.shown = ed.shown ++ ((fresh t roots sf ed x).failures events).map Failed.message ∧
    c.finished.filter (·.outcome.isNone) =
      ((fresh t roots sf ed x).failures events).map Failed.finish ∧
    (c.finished.map Finish.task).Nodup ∧
    (∀ before e after k, events = before ++ e :: after → sf = true →
      c.request? e = some k.key →
      ((fresh t roots sf ed x).run before).inflight.get? k.key = some k.id →
      k ∈ c.tasks → ⟨k.id, k.root, none⟩ ∈ c.finished →
      ∀ m, c.started (.settle k.id m) = if m then [⟨c.nextId, k.key, .scheduled⟩] else []) ∧
    (c.tasks = [] → c.inflight.keys = [] ∧ c.pending = []) ∧
    ∀ (w : World) (acts : List Scheduler.Act) (s : Scheduler),
      (Scheduler.fresh t roots sf ed x w).after acts = s →
      (∀ uri, (∃ cr, s.rebuild uri = .error cr) ↔ ∃ f, Uri.toPath uri = .error f) ∧
      (∃ es, s.finish.coordinator = (fresh t roots sf ed x).run es) ∧
      s.finish.coordinator.tasks = [] ∧ s.finish.coordinator.inflight.keys = [] ∧
      s.finish.coordinator.pending = [] ∧
      ∀ id < s.finish.coordinator.nextId, ∃ f ∈ s.finish.coordinator.finished, f.task = id := by
  have ha : c.Accounted := hc ▸ accounted_run (accounted_fresh t roots sf ed x) events
  have ht := run_tells (fresh t roots sf ed x) events
  rw [hc] at ht
  refine ⟨ht.shown, ht.ends, ha.nodup, ?_, fun h => books_of_run t roots sf ed x hc h, ?_⟩
  · rintro before e after k rfl rfl hr hi hk hf m
    have he : k.ended := ((ha.mem_iff k.id).mp (List.mem_map_of_mem hf)).2 k hk rfl
    have hx := exclusive_run (exclusive_fresh t roots true ed x) rfl before
    have hs := (settings_run (fresh t roots true ed x) before).2.2
    rw [run_append] at hc
    subst hc
    rw [request?_run] at hr
    exact started_behind hx hs hr hi hk he m
  · rintro w acts s rfl
    have hs := (Scheduler.tended_fresh t roots sf ed x w).after acts
    obtain ⟨es, he⟩ := (Scheduler.reaches_after (Scheduler.fresh t roots sf ed x w) acts).trans
      (Scheduler.reaches_finish _)
    have hb := books_of_run t roots sf ed x he.symm hs.tasks_finish
    refine ⟨Scheduler.rebuild_error_iff _, ⟨es, he⟩, hs.tasks_finish, hb.1, hb.2, ?_⟩
    intro id hid
    have hm := (hs.finish.accounted.mem_iff id).mpr ⟨hid, ?_⟩
    · exact List.mem_map.mp hm
    · intro k hk
      rw [hs.tasks_finish] at hk
      cases hk

end Coordinator

end

open Surroundings in
theorem Coordinator.run_failures_of_kept_request :
    ∃ c, (fresh default [] true {} {}).run
        [.trigger [] true, .begin 0, .trigger [] true, .launch 0 (.error (.refused []))] = c ∧
      c.editor.shown.length = 1 ∧ c.finished.length = 1 ∧
      ∃ k ∈ c.tasks, c.started (.settle k.id true) = [⟨c.nextId, k.key, .scheduled⟩] := by
  obtain ⟨hs, he, -, hk, -⟩ := run_failures (c := (fresh default [] true {} {}).run
    [.trigger [] true, .begin 0, .trigger [] true, .launch 0 (.error (.refused []))]) rfl
  refine ⟨_, rfl, ?_, rfl, ⟨0, Path.rootKey [], .finished⟩, List.mem_singleton.mpr rfl, ?_⟩
  · rw [hs]
    rfl
  · have hr : request? ((fresh default [] true {} {}).run
        [.trigger [] true, .begin 0, .trigger [] true, .launch 0 (.error (.refused []))])
        (.trigger [] true) =
        some (Task.key ⟨0, Path.rootKey [], .finished⟩) :=
      congrArg some (Path.rootKey_rootKey []).symm
    exact hk [.trigger [] true, .begin 0] (.trigger [] true) [.launch 0 (.error (.refused []))]
      ⟨0, Path.rootKey [], .finished⟩ rfl rfl hr rfl (List.mem_singleton.mpr rfl)
      (List.mem_singleton.mpr rfl) true

open Surroundings in
/-- A request that was kept behind a session that failed is not answered when the manifest
has been removed, and a URI with a bracket that is not closed makes a trigger raise. -/
theorem Coordinator.kept_request_dropped :
    (∃ c, (fresh default [] true {} {}).run
        [.trigger [] true, .trigger [] true, .begin 0, .launch 0 (.error (.refused []))] = c ∧
      c.pending = [Path.rootKey []] ∧ c.finished.map (·.outcome.isNone) = [true] ∧
      c.started (.settle 0 false) = [] ∧ (c.step (.settle 0 false)).tasks = []) ∧
    ∃ cr, (Scheduler.fresh default [] true {} {} {}).rebuild "file://[" = .error cr := by
  refine ⟨⟨_, rfl, rfl, rfl, rfl, rfl⟩, ?_⟩
  exact (Scheduler.rebuild_error_iff _ _).mpr ⟨.brackets, by decide⟩

end Workbench
