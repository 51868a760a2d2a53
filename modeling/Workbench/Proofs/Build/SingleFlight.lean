import Workbench.Proofs.Build.Steps

/-! # Single flight

With single flight a root has one task at a time. The books say which, and the requests
that were kept are for roots that have a task. So what the end of a task leads to is told
by the requests since the task was started.
-/

namespace Workbench

open Build OrderedMap

namespace Coordinator

variable {c c' : Coordinator} {e : Event} {k : Task} {key : Text}

variable [Surroundings]

/-- Each root has one task, which the books lead to, and requests are kept for such roots. -/
structure Books.Exclusive (b : Books) : Prop extends b.Numbered where
  roots : (b.heads.map Prod.snd).Nodup
  inflight_iff : ∀ key id, b.inflight.get? key = some id ↔ (id, key) ∈ b.heads
  pending : ∀ key ∈ b.pending, key ∈ b.heads.map Prod.snd
  pending_nodup : b.pending.Nodup

namespace Books.Exclusive

theorem inflight_of_mem (h : c.books.Exclusive) (hk : k ∈ c.tasks) :
    c.inflight.get? k.key = some k.id := by
  rw [h.key_eq hk]
  exact (h.inflight_iff k.root k.id).mpr (head_mem hk)

theorem mem_keys_inflight (h : c.books.Exclusive) :
    key ∈ c.inflight.keys ↔ key ∈ c.books.heads.map Prod.snd := by
  rw [← isSome_get?, Option.isSome_iff_exists, List.mem_map]
  constructor
  · rintro ⟨id, hid⟩
    exact ⟨(id, key), (h.inflight_iff key id).mp hid, rfl⟩
  · rintro ⟨⟨id, _⟩, hp, rfl⟩
    exact ⟨id, (h.inflight_iff _ id).mpr hp⟩

theorem not_mem_roots (h : c.books.Exclusive) (hi : c.inflight.get? key = none) :
    key ∉ c.books.heads.map Prod.snd :=
  mt h.mem_keys_inflight.mpr (get?_eq_none_iff.mp hi)

theorem nodup_keys (h : c.books.Exclusive) : (c.tasks.map Task.key).Nodup := by
  have hr := h.roots
  rw [books, List.map_map] at hr
  rwa [List.map_congr_left fun k hk => h.key_eq hk]

theorem inflight_eq (h : c.books.Exclusive) (key : Text) :
    c.inflight.get? key = (c.tasks.find? (·.key = key)).map Task.id := by
  cases hf : c.tasks.find? (·.key = key) with
  | some k =>
    rw [show key = k.key by simpa [eq_comm] using List.find?_some hf]
    exact h.inflight_of_mem (List.mem_of_find?_eq_some hf)
  | none =>
    refine get?_eq_none_iff.mpr fun hmem => ?_
    obtain ⟨⟨_, _⟩, hm, rfl⟩ := List.mem_map.mp (h.mem_keys_inflight.mp hmem)
    obtain ⟨k, hk, rfl, rfl⟩ := mem_heads.mp hm
    simpa [h.key_eq hk] using List.find?_eq_none.mp hf k hk

theorem eq_of_key (h : c.books.Exclusive) {k' : Task} (hk : k ∈ c.tasks) (hk' : k' ∈ c.tasks)
    (he : k.key = k'.key) : k = k' := by
  refine h.eq_of_id hk hk' (Option.some.inj ?_)
  rw [← h.inflight_of_mem hk, he, h.inflight_of_mem hk']

theorem setPending (h : c.books.Exclusive) {ks : List Text} (hn : ks.Nodup)
    (hs : ∀ key ∈ ks, key ∈ c.books.heads.map Prod.snd) :
    { c with pending := ks }.books.Exclusive :=
  ⟨h.toNumbered.setPending ks, h.roots, h.inflight_iff, hs, hn⟩

theorem start (h : c.books.Exclusive) (hk : Path.rootKey key = key)
    (hi : c.inflight.get? key = none) : (c.start key).books.Exclusive := by
  have hm := h.not_mem_roots hi
  refine ⟨h.toNumbered.start hk, ?_, ?_, ?_, h.pending_nodup⟩
  · rw [books_start, List.map_append, List.nodup_append_comm]
    exact List.nodup_cons.mpr ⟨hm, h.roots⟩
  · intro key' id
    rw [books_start, hk, get?_insert, List.mem_append, List.mem_singleton, ← h.inflight_iff,
      Prod.mk.injEq]
    change _ ↔ c.inflight.get? key' = some id ∨ _
    by_cases he : key = key'
    · rw [if_pos he, ← he, hi]
      simp only [Option.some.injEq, reduceCtorEq, and_true, false_or]
      exact eq_comm
    · rw [if_neg he]
      exact (or_iff_left fun h => he h.2.symm).symm
  · intro key' hp
    rw [books_start, List.map_append]
    exact List.mem_append.mpr (.inl (h.pending key' hp))

theorem discard (h : c.books.Exclusive) (hk : k ∈ c.tasks) {ks : List Text}
    (hs : ks.Sublist c.pending) (hn : k.key ∉ ks) :
    { c.discard k with pending := ks }.books.Exclusive ∧
      (c.discard k).inflight.get? k.key = none := by
  -- The entry of its key leads to the task itself, so it goes with the task.
  have hi : (c.discard k).inflight = c.inflight.erase k.key := if_pos (h.inflight_of_mem hk)
  have hh : (c.discard k).books.heads = c.books.heads.filter (·.1 != k.id) := by
    rw [books_discard]
  have hiff (key : Text) (id : Nat) : (c.discard k).inflight.get? key = some id ↔
      (id, key) ∈ (c.discard k).books.heads := by
    rw [hi, hh, get?_erase, List.mem_filter, ← h.inflight_iff]
    change _ ↔ c.inflight.get? key = some id ∧ _
    by_cases hkey : key = k.key
    · rw [hkey, if_pos rfl, h.inflight_of_mem hk]
      simp only [reduceCtorEq, Option.some.injEq, bne_iff_ne, ne_eq, false_iff, not_and, not_not]
      exact Eq.symm
    · rw [if_neg hkey]
      refine (and_iff_left_of_imp fun hid => ?_).symm
      obtain ⟨k', hk', rfl, rfl⟩ := mem_heads.mp ((h.inflight_iff key id).mp hid)
      refine bne_iff_ne.mpr fun he => hkey ?_
      rw [← h.eq_of_id hk' hk he, h.key_eq hk']
  refine ⟨⟨(h.toNumbered.discard k).setPending ks, ?_, hiff, ?_, h.pending_nodup.sublist hs⟩, ?_⟩
  · change ((c.discard k).books.heads.map Prod.snd).Nodup
    rw [hh]
    exact h.roots.sublist (List.filter_sublist.map _)
  · intro key hkey
    obtain ⟨⟨id, _⟩, hm, rfl⟩ := List.mem_map.mp (h.pending key (hs.mem hkey))
    obtain ⟨k', hk', rfl, rfl⟩ := mem_heads.mp hm
    refine List.mem_map.mpr ⟨(k'.id, k'.root), ?_, rfl⟩
    change _ ∈ (c.discard k).books.heads
    rw [hh]
    refine List.mem_filter.mpr ⟨hm, bne_iff_ne.mpr fun he => hn ?_⟩
    rw [← h.eq_of_id hk' hk he, h.key_eq hk']
    exact hkey
  · rw [hi, get?_erase, if_pos rfl]

theorem trigger_discard (h : c.books.Exclusive) (hk : k ∈ c.tasks) (ks : List Text) :
    ({ c.discard k with pending := ks }.trigger k.root true).1 =
      { c.discard k with pending := ks }.start k.key := by
  have hi : (c.discard k).inflight.get? (Path.rootKey k.root) = none :=
    (h.discard hk (List.nil_sublist _) List.not_mem_nil).2
  rw [trigger_true, hi]
  exact if_neg (fun hs => Bool.false_ne_true hs.2)

theorem step (h : c.books.Exclusive) (hs : c.singleFlight = true) (hm : Move c e c') :
    c'.books.Exclusive := by
  cases hm with
  | idle => exact h
  | coalesce _ _ hi =>
    refine h.setPending (h.pending_nodup.insert) fun key' hk => ?_
    rcases List.mem_insert_iff.mp hk with rfl | hk
    · exact h.mem_keys_inflight.mp (isSome_get?.mp (Option.isSome_of_eq_some hi))
    · exact h.pending key' hk
  | start hr hf =>
    refine h.start (rootKey_of_request? hr) (hf.resolve_left ?_)
    rw [hs]
    exact nofun
  | begin | launch | output | drain => exact (books_setPhase _ _ _).symm ▸ h
  | refuse | crash | commit => exact (books_finish _ _ _).symm ▸ h
  | settle hk hp hn => exact (h.discard (mem_of_task? hk) (List.Sublist.refl _) hn).1
  | drop hk =>
    exact (h.discard (mem_of_task? hk) List.erase_sublist h.pending_nodup.not_mem_erase).1
  | follow hk =>
    rw [h.trigger_discard (mem_of_task? hk)]
    obtain ⟨hd, hi⟩ := h.discard (mem_of_task? hk) List.erase_sublist h.pending_nodup.not_mem_erase
    exact hd.start (Path.rootKey_rootKey _) hi

end Books.Exclusive

/-! ## What is started -/

theorem started_nil (h : c.books.Numbered) (hs : (c.step e).tasks ⊆ c.tasks) : c.started e = [] :=
  List.filter_eq_nil_iff.mpr fun _ hk => by simpa using h.lt_of_mem (hs hk)

theorem started_start (h : c.books.Numbered) (hs : c.step e = c'.start key)
    (hn : c'.nextId = c.nextId) : c.started e = [⟨c.nextId, key, .scheduled⟩] := by
  have hm : (⟨c.nextId, key, .scheduled⟩ : Task) ∈ (c.step e).tasks := by
    rw [hs, ← hn]
    exact mem_start.mpr (.inr rfl)
  exact (started_eq h hm (Nat.le_refl _)).1

namespace Books.Exclusive

theorem started_request (h : c.books.Exclusive) (hs : c.singleFlight = true)
    (hr : c.request? e = some key) :
    c.started e = if key ∈ c.inflight.keys then [] else [⟨c.nextId, key, .scheduled⟩] := by
  have hm := step_move c e
  generalize hc : c.step e = c' at hm
  cases hm with
  | idle hn => cases hn.symm.trans hr
  | coalesce hr' _ hi =>
    cases hr.symm.trans hr'
    rw [if_pos (isSome_get?.mp (Option.isSome_of_eq_some hi))]
    refine started_nil h.toNumbered ?_
    rw [hc]
    exact List.Subset.refl _
  | start hr' hf =>
    cases hr.symm.trans hr'
    have hi := hf.resolve_left (hs ▸ nofun)
    rw [if_neg (get?_eq_none_iff.mp hi)]
    exact started_start h.toNumbered hc rfl
  | _ => cases hr

theorem started_settle (h : c.books.Exclusive) (hk : k ∈ c.tasks) (hp : k.ended) (m : Bool) :
    c.started (.settle k.id m) =
      if m ∧ k.key ∈ c.pending then [⟨c.nextId, k.key, .scheduled⟩] else [] := by
  have hc : c.step (.settle k.id m) = _ := settle_eq (h.task?_eq hk) (Task.ended_iff.mp hp) m
  by_cases hn : k.key ∈ c.pending
  · rw [if_pos hn] at hc
    cases m with
    | false =>
      rw [if_neg (fun h => Bool.false_ne_true h.1)]
      refine started_nil h.toNumbered ?_
      rw [hc]
      exact List.filter_subset_self _
    | true =>
      rw [if_pos ⟨rfl, hn⟩]
      rw [h.trigger_discard hk] at hc
      exact started_start h.toNumbered hc rfl
  · rw [if_neg hn] at hc
    rw [if_neg (fun h => hn h.2)]
    refine started_nil h.toNumbered ?_
    rw [hc]
    exact List.filter_subset_self _

/-- While a task is there, its key is kept when it is asked for, and not given up. -/
theorem mem_pending_step (h : c.books.Exclusive) (hs : c.singleFlight = true) {id : Nat}
    (hm : Move c e c') (hk : (id, key) ∈ c.books.heads) (hk' : (id, key) ∈ c'.books.heads) :
    key ∈ c'.pending ↔ key ∈ c.pending ∨ c.request? e = some key := by
  -- A task that is dropped is not the one with this key, for that is still there.
  have hne {k : Task} (ht : c.task? k.id = some k) (hd : (id, key) ∈ (c.discard k).books.heads) :
      key ≠ k.key := by
    rintro rfl
    have hi := (h.inflight_iff _ _).mpr hk
    rw [books_discard] at hd
    have hid := Option.some.inj ((h.inflight_of_mem (mem_of_task? ht)).symm.trans hi)
    exact bne_iff_ne.mp (List.mem_filter.mp hd).2 hid.symm
  cases hm with
  | idle hn => simp [hn]
  | coalesce hr => simp [hr, List.mem_insert_iff, or_comm, eq_comm]
  | start hr hf =>
    have hi := hf.resolve_left (hs ▸ nofun)
    refine (or_iff_left_of_imp ?_).symm
    rintro hr'
    cases hr.symm.trans hr'
    exact absurd (List.mem_map_of_mem hk) (h.not_mem_roots hi)
  | drop ht =>
    simp [request?, List.mem_erase_of_ne (hne ht hk')]
  | follow ht =>
    rw [h.trigger_discard (mem_of_task? ht)] at hk' ⊢
    rw [books_start] at hk'
    rcases List.mem_append.mp hk' with hd | hd
    · simp [request?, Coordinator.start, List.mem_erase_of_ne (hne ht hd)]
    · cases List.mem_singleton.mp hd
      exact absurd (h.lt _ hk) (Nat.lt_irrefl _)
  | settle => simp [request?, Coordinator.discard]
  | _ => simp [request?, setPhase, finish]

theorem not_mem_pending_of_new (h : c.books.Exclusive) (hs : c.singleFlight = true)
    (hm : Move c e c') (hk : k ∈ c'.tasks) (hn : c.nextId ≤ k.id) (hkey : k.key = key) :
    key ∉ c'.pending := by
  have hold {k : Task} (hn : c.nextId ≤ k.id) : (k.id, k.root) ∉ c.books.heads :=
    fun hk => absurd (h.lt _ hk) (Nat.not_lt.mpr hn)
  cases hm with
  | idle | coalesce => exact absurd (head_mem hk) (hold hn)
  | begin | launch | output | drain =>
    have hm := head_mem hk
    rw [books_setPhase] at hm
    exact absurd hm (hold hn)
  | refuse | crash | commit =>
    have hm := head_mem hk
    rw [books_finish] at hm
    exact absurd hm (hold hn)
  | settle | drop => exact absurd (head_mem (mem_discard.mp hk).1) (hold hn)
  | start hr hf =>
    have hi := hf.resolve_left (hs ▸ nofun)
    rcases mem_start.mp hk with hk | rfl
    · exact absurd (head_mem hk) (hold hn)
    · obtain rfl := (rootKey_of_request? hr).symm.trans hkey
      exact fun hp => h.not_mem_roots hi (h.pending _ hp)
  | follow ht =>
    rw [h.trigger_discard (mem_of_task? ht)] at hk ⊢
    rcases mem_start.mp hk with hk | rfl
    · exact absurd (head_mem (mem_discard.mp hk).1) (hold hn)
    · obtain rfl := (Task.key_key _ _ _).symm.trans hkey
      exact h.pending_nodup.not_mem_erase

end Books.Exclusive

/-! ## Runs -/

theorem exclusive_run (h : c.books.Exclusive) (hs : c.singleFlight = true) (es : List Event) :
    (c.run es).books.Exclusive := by
  have hr : (c.run es).books.Exclusive ∧ (c.run es).singleFlight = true :=
    run_induction (P := fun c => c.books.Exclusive ∧ c.singleFlight = true) ⟨h, hs⟩
      (fun h hm => ⟨h.1.step h.2 hm, hm.settings.2.2.trans h.2⟩) es
  exact hr.1

theorem exclusive_fresh (t : Toolchain) (roots : List Text) (sf : Bool) (ed : Editor)
    (x : Indices) : (fresh t roots sf ed x).books.Exclusive where
  toNumbered := (accounted_fresh t roots sf ed x).numbered
  roots := List.nodup_nil
  inflight_iff _ _ := iff_of_false nofun nofun
  pending := nofun
  pending_nodup := List.nodup_nil

theorem mem_pending_run (h : c.books.Exclusive) (hs : c.singleFlight = true) {id : Nat}
    (hk : (id, key) ∈ c.books.heads) {es : List Event}
    (hk' : (id, key) ∈ (c.run es).books.heads) :
    key ∈ (c.run es).pending ↔ key ∈ c.pending ∨ ∃ e ∈ es, c.request? e = some key := by
  induction es using List.reverseRecOn with
  | nil => simp [run]
  | append_singleton es e ih =>
    have hm := step_move (c.run es) e
    rw [run_concat] at hk' ⊢
    -- The task is older than the step, so it was there before it.
    have hk₁ := hm.mem_heads hk' (Nat.lt_of_lt_of_le (h.lt _ hk) (c.nextId_le_run es))
    rw [(exclusive_run h hs es).mem_pending_step ((c.settings_run es).2.2.trans hs) hm hk₁ hk',
      ih hk₁, request?_run, or_assoc]
    simp [or_and_right, exists_or]

theorem exists_started (h : c.books.Numbered) (h₀ : c.tasks = []) {es : List Event}
    (hk : k ∈ (c.run es).tasks) :
    ∃ before e after, es = before ++ e :: after ∧
      (c.run before).started e = [⟨k.id, k.key, .scheduled⟩] := by
  induction es using List.reverseRecOn generalizing k with
  | nil => simp [run, h₀] at hk
  | append_singleton es e ih =>
    have hn : (c.run es).books.Numbered :=
      run_induction (P := fun c => c.books.Numbered) h Books.Numbered.step es
    rw [run_concat] at hk
    by_cases hnew : (c.run es).nextId ≤ k.id
    · obtain ⟨hs, he⟩ := started_eq hn hk hnew
      exact ⟨es, e, [], rfl, hs.trans (congrArg (fun k => [k]) he)⟩
    · have hold := (step_move _ e).mem_heads (head_mem hk) (Nat.not_le.mp hnew)
      obtain ⟨k₀, hk₀, hid, hroot⟩ := mem_heads.mp hold
      obtain ⟨before, e', after, rfl, hs⟩ := ih hk₀
      refine ⟨before, e', after ++ [e], by simp, ?_⟩
      rw [hs, Task.key, Task.key, hid, hroot]

/-- What has been kept for a task is what has been asked for since it was started. -/
theorem mem_pending_iff_of_started (h : c.books.Exclusive) (hs : c.singleFlight = true)
    {before after : List Event} {phase : Phase}
    (hst : (c.run before).started e = [⟨k.id, k.key, phase⟩])
    (hk : k ∈ (c.run (before ++ e :: after)).tasks) :
    k.key ∈ (c.run (before ++ e :: after)).pending ↔
      ∃ e' ∈ after, c.request? e' = some k.key := by
  have hb := exclusive_run h hs before
  have hsb := (c.settings_run before).2.2.trans hs
  have hm := step_move (c.run before) e
  have he := exclusive_run h hs (before ++ e :: after)
  rw [run_append_cons] at hk he ⊢
  have hnew : (⟨k.id, k.key, phase⟩ : Task) ∈ (c.run before).started e :=
    hst ▸ List.mem_singleton.mpr rfl
  obtain ⟨hmem, hle⟩ := List.mem_filter.mp hnew
  have hp := hb.not_mem_pending_of_new hsb hm hmem (of_decide_eq_true hle) (Task.key_key k _ _)
  have hfirst := head_mem hmem
  have hlast := head_mem hk
  dsimp only at hfirst
  rw [← he.key_eq hk] at hlast
  rw [mem_pending_run (hb.step hsb hm) (hm.settings.2.2.trans hsb) hfirst hlast]
  simp only [hp, false_or, request?_congr (hm.settings.2.1.trans (c.settings_run before).2.1)]

/-- What single flight amounts to, after any events in any order. Of the sessions that have
not ended each is a task; a root has one task, which the books lead to, and requests are
kept for such roots only. A request starts a task if its root has none. When a coordinator
is told of the end of a task, one task more is started if its root has been asked for since
the task was started, and none otherwise. -/
theorem run_singleFlight {t : Toolchain} {roots : List Text} {ed : Editor} {x : Indices}
    {events : List Event} (hc : (fresh t roots true ed x).run events = c) :
    (∀ id < c.nextId, id ∉ c.finished.map Finish.task ↔
      ∃ k ∈ c.tasks, k.id = id ∧ k.ended = false) ∧
    (c.tasks.map Task.key).Nodup ∧
    (∀ key, c.inflight.get? key = (c.tasks.find? (·.key = key)).map Task.id) ∧
    c.pending ⊆ c.inflight.keys ∧
    (∀ e key, c.request? e = some key →
      c.started e = if key ∈ c.inflight.keys then [] else [⟨c.nextId, key, .scheduled⟩]) ∧
    ∀ k ∈ c.tasks,
      (∃ before e after, events = before ++ e :: after ∧
        ((fresh t roots true ed x).run before).started e = [⟨k.id, k.key, .scheduled⟩]) ∧
      ∀ before e after m, events = before ++ e :: after →
        ((fresh t roots true ed x).run before).started e = [⟨k.id, k.key, .scheduled⟩] →
        k.ended → c.started (.settle k.id m) =
          if m ∧ ∃ e' ∈ after, c.request? e' = some k.key then [⟨c.nextId, k.key, .scheduled⟩]
          else [] := by
  have hf := exclusive_fresh t roots true ed x
  have ha : c.Accounted := hc ▸ accounted_run (accounted_fresh t roots true ed x) events
  have hx : c.books.Exclusive := hc ▸ exclusive_run hf rfl events
  have hs : c.singleFlight = true := hc ▸ (settings_run (fresh t roots true ed x) events).2.2
  refine ⟨fun id hid => ?_, hx.nodup_keys, hx.inflight_eq, fun key hk => ?_,
    fun e key hr => hx.started_request hs hr, fun k hk => ⟨?_, ?_⟩⟩
  · rw [ha.mem_iff]
    simp [hid]
  · exact hx.mem_keys_inflight.mpr (hx.pending key hk)
  · subst hc
    exact exists_started hf.toNumbered rfl hk
  · rintro before e after m rfl hst hp
    subst hc
    simp only [hx.started_settle hk hp, mem_pending_iff_of_started hf rfl hst hk, request?_run]

end Coordinator

open Surroundings in
theorem Coordinator.run_singleFlight_of_two_requests :
    ∃ c, (fresh default [] true {} {}).run
        [.trigger [] true, .begin 0, .trigger [] true, .launch 0 (.error (.refused []))] = c ∧
      c.pending.length = 1 ∧ c.pending ⊆ c.inflight.keys ∧
      ∃ k ∈ c.tasks, k.ended ∧
        c.started (.settle k.id true) = [⟨c.nextId, k.key, .scheduled⟩] := by
  obtain ⟨-, -, -, hp, -, hk⟩ := run_singleFlight (c := (fresh default [] true {} {}).run
    [.trigger [] true, .begin 0, .trigger [] true, .launch 0 (.error (.refused []))]) rfl
  obtain ⟨-, hs⟩ := hk ⟨0, Path.rootKey [], .finished⟩ (List.mem_singleton.mpr rfl)
  refine ⟨_, rfl, by rfl, hp, _, List.mem_singleton.mpr rfl, rfl,
    (hs [] _ _ true rfl rfl rfl).trans (if_pos ⟨rfl, .trigger [] true, ?_, rfl⟩)⟩
  exact List.mem_cons_of_mem _ List.mem_cons_self

end Workbench
