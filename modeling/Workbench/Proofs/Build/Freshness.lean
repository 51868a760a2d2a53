import Workbench.Proofs.Build.SingleFlight
import Workbench.Proofs.Build.Snapshots

/-! # No request is lost

With single flight a request is kept, or a task for it waits, or a session that has begun
behind it runs, or such a session was the last of its root to end. When no task is left it
is the last of these, so what is shown is not older than the request.
-/

namespace Workbench

open Build

namespace Coordinator

variable {c c' : Coordinator} {e : Event} {k : Task} {key : Text} {b b' : Nat → Prop}

variable [Surroundings]

theorem mem_setPhase_of_ne (hn : c.books.Numbered) (hk : c.task? k.id = some k) {phase : Phase}
    {i : Task} (hi : i.key ≠ k.key) : i ∈ (c.setPhase k.id phase).tasks ↔ i ∈ c.tasks := by
  rw [mem_setPhase hk hn]
  refine ⟨fun h => h.elim ?_ And.left, fun h => .inr ⟨h, fun hid => hi ?_⟩⟩
  · rintro rfl
    exact absurd rfl hi
  · rw [hn.eq_of_id h (mem_of_task? hk) hid]

theorem mem_discard_of_ne (hn : c.books.Numbered) (hk : c.task? k.id = some k) {i : Task}
    (hi : i.key ≠ k.key) : i ∈ (c.discard k).tasks ↔ i ∈ c.tasks := by
  rw [mem_discard]
  refine ⟨And.left, fun h => ⟨h, fun hid => hi ?_⟩⟩
  rw [hn.eq_of_id h (mem_of_task? hk) hid]

theorem mem_start_of_ne (hk : Path.rootKey key = key) {i : Task} (hi : i.key ≠ key) :
    i ∈ (c.start key).tasks ↔ i ∈ c.tasks := by
  rw [mem_start]
  refine or_iff_left ?_
  rintro rfl
  exact hi hk

/-- How far the answer to a request is, by the tasks that have begun since. -/
inductive Answers (c : Coordinator) (key : Text) (b : Nat → Prop) : Prop where
  | kept (hp : key ∈ c.pending)
  | waiting {k : Task} (hk : k ∈ c.tasks) (hkey : k.key = key) (hp : k.phase = .scheduled)
  | building {k : Task} (hk : k ∈ c.tasks) (hkey : k.key = key) (hp : k.ended = false)
      (hb : b k.id)
  | built {f : Finish} {older newer : List Finish} (hf : c.finished = older ++ f :: newer)
      (hkey : f.key = key) (hb : b f.task) (hl : ∀ g ∈ newer, g.key ≠ key)
      (ht : ∀ k ∈ c.tasks, k.key = key → k.ended)

namespace Answers

theorem of_other (h : c.Answers key b) (hb : ∀ id, b id → b' id)
    (hp : key ∈ c.pending → key ∈ c'.pending)
    (ht : ∀ k, k.key = key → (k ∈ c'.tasks ↔ k ∈ c.tasks))
    (hf : ∃ newer, c'.finished = c.finished ++ newer ∧ ∀ g ∈ newer, g.key ≠ key) :
    c'.Answers key b' := by
  cases h with
  | kept h => exact .kept (hp h)
  | waiting hk hkey hs => exact .waiting ((ht _ hkey).mpr hk) hkey hs
  | building hk hkey he hbk => exact .building ((ht _ hkey).mpr hk) hkey he (hb _ hbk)
  | @built f older newer hl hkey hbf hn he =>
    obtain ⟨more, hf, hm⟩ := hf
    have hf' : c'.finished = older ++ f :: (newer ++ more) := by
      rw [hf, hl, List.append_assoc, List.cons_append]
    refine .built hf' hkey (hb _ hbf) (fun g hg => ?_) fun k hk hkey =>
      he k ((ht k hkey).mp hk) hkey
    exact (List.mem_append.mp hg).elim (hn g) (hm g)

theorem of_eq (h : c.Answers key b) (hb : ∀ id, b id → b' id)
    (hp : key ∈ c.pending → key ∈ c'.pending)
    (ht : ∀ k, k.key = key → (k ∈ c'.tasks ↔ k ∈ c.tasks)) (hf : c'.finished = c.finished) :
    c'.Answers key b' :=
  h.of_other hb hp ht ⟨[], by rw [hf, List.append_nil], nofun⟩

theorem congr (h : c.Answers key b) (hp : c'.pending = c.pending) (ht : c'.tasks = c.tasks)
    (hf : c'.finished = c.finished) : c'.Answers key b :=
  h.of_eq (fun _ => id) (fun hk => hp ▸ hk) (fun _ _ => by rw [ht]) hf

theorem of_task (h : c.Answers key b) (hx : c.books.Exclusive) (hk : k ∈ c.tasks)
    (hkey : k.key = key) :
    key ∈ c.pending ∨ k.phase = .scheduled ∨ k.ended = false ∧ b k.id ∨
      k.ended ∧ ∃ f older newer, c.finished = older ++ f :: newer ∧ f.key = key ∧ b f.task ∧
        ∀ g ∈ newer, g.key ≠ key := by
  cases h with
  | kept hp => exact .inl hp
  | waiting hk' hkey' hp =>
    rw [hx.eq_of_key hk' hk (hkey'.trans hkey.symm)] at hp
    exact .inr (.inl hp)
  | building hk' hkey' he hb =>
    rw [hx.eq_of_key hk' hk (hkey'.trans hkey.symm)] at he hb
    exact .inr (.inr (.inl ⟨he, hb⟩))
  | built hf hkey' hb hl ht =>
    exact .inr (.inr (.inr ⟨ht k hk hkey, _, _, _, hf, hkey', hb, hl⟩))

theorem setPhase (h : c.Answers key b) (hb : ∀ id, b id → b' id) (hx : c.books.Exclusive)
    (hk : c.task? k.id = some k) (hne : k.phase ≠ .scheduled) (he : k.ended = false)
    {phase : Phase} (he' : Task.ended { k with phase } = false) :
    (c.setPhase k.id phase).Answers key b' := by
  by_cases hkey : k.key = key
  · rcases h.of_task hx (mem_of_task? hk) hkey with hp | hp | ⟨-, hbk⟩ | ⟨hend, -⟩
    · exact .kept hp
    · exact absurd hp hne
    · exact .building ((mem_setPhase hk hx.toNumbered).mpr (.inl rfl)) hkey he' (hb _ hbk)
    · cases he.symm.trans hend
  · refine h.of_eq hb id (fun i hi => ?_) rfl
    exact mem_setPhase_of_ne hx.toNumbered hk (fun he => hkey (he.symm.trans hi))

theorem begin (h : c.Answers key b) (hb : ∀ id, b id → b' id) (hx : c.books.Exclusive)
    (hk : c.task? k.id = some k) (hbk : b' k.id) {s : Session} :
    (c.setPhase k.id (.spawning s)).Answers key b' := by
  by_cases hkey : k.key = key
  · exact .building ((mem_setPhase hk hx.toNumbered).mpr (.inl rfl)) hkey rfl hbk
  · refine h.of_eq hb id (fun i hi => ?_) rfl
    exact mem_setPhase_of_ne hx.toNumbered hk (fun he => hkey (he.symm.trans hi))

theorem finish (h : c.Answers key b) (hb : ∀ id, b id → b' id) (hx : c.books.Exclusive)
    (hk : c.task? k.id = some k) (hne : k.phase ≠ .scheduled) (he : k.ended = false)
    (o : Option (BuildResult × Findings)) : (c.finish k o).Answers key b' := by
  by_cases hkey : k.key = key
  · rcases h.of_task hx (mem_of_task? hk) hkey with hp | hp | ⟨-, hbk⟩ | ⟨hend, -⟩
    · exact .kept hp
    · exact absurd hp hne
    · refine .built rfl hkey (hb _ hbk) nofun fun i hi hik => ?_
      -- It was the only task of the root, so none of them is left that runs.
      rcases (mem_setPhase hk hx.toNumbered).mp hi with rfl | ⟨hi, hid⟩
      · rfl
      · rw [hx.eq_of_key hi (mem_of_task? hk) (hik.trans hkey.symm)] at hid
        exact absurd rfl hid
    · cases he.symm.trans hend
  · refine h.of_other hb id (fun i hi => ?_) ⟨_, rfl, fun g hg => ?_⟩
    · exact mem_setPhase_of_ne hx.toNumbered hk (fun he => hkey (he.symm.trans hi))
    · rw [List.mem_singleton.mp hg]
      exact hkey

theorem start {key' : Text} (h : key = key' ∨ c.Answers key b) (hb : ∀ id, b id → b' id)
    (hk : Path.rootKey key' = key') : (c.start key').Answers key b' := by
  by_cases hkey : key = key'
  · exact .waiting (mem_start.mpr (.inr rfl)) (hk.trans hkey.symm) rfl
  · refine (h.resolve_left hkey).of_eq hb id (fun i hi => ?_) rfl
    exact mem_start_of_ne hk (hi.trans_ne hkey)

theorem discard (h : c.Answers key b) (hb : ∀ id, b id → b' id) (hx : c.books.Exclusive)
    (hk : c.task? k.id = some k) (hp : k.phase = .finished) {ks : List Text}
    (hks : key ∈ c.pending → key ∈ ks) :
    { c.discard k with pending := ks }.Answers key b' := by
  by_cases hkey : k.key = key
  · rcases h.of_task hx (mem_of_task? hk) hkey with
      hpend | hs | ⟨he, -⟩ | ⟨-, f, older, newer, hf, hfk, hbf, hl⟩
    · exact .kept (hks hpend)
    · cases hp.symm.trans hs
    · cases he.symm.trans (Task.ended_iff.mpr hp)
    · refine .built hf hfk (hb _ hbf) hl fun i hi hik => ?_
      obtain ⟨hi, hid⟩ := mem_discard.mp hi
      rw [hx.eq_of_key hi (mem_of_task? hk) (hik.trans hkey.symm)] at hid
      exact absurd rfl hid
  · refine h.of_eq hb hks (fun i hi => ?_) rfl
    exact mem_discard_of_ne hx.toNumbered hk (fun he => hkey (he.symm.trans hi))

theorem step (h : c.Answers key b) (hb : ∀ id, b id → b' id)
    (hnew : ∀ k, c.task? k.id = some k → k.phase = .scheduled → e = .begin k.id → b' k.id)
    (hx : c.books.Exclusive) (hd : ∀ id, e ≠ .settle id false) (hm : Move c e c') :
    c'.Answers key b' := by
  cases hm with
  | idle => exact h.of_eq hb id (fun _ _ => Iff.rfl) rfl
  | coalesce => exact h.of_eq hb List.mem_insert_of_mem (fun _ _ => Iff.rfl) rfl
  | start hr => exact .start (.inr h) hb (rootKey_of_request? hr)
  | begin hk hp => exact h.begin hb hx hk (hnew _ hk hp rfl)
  | launch hk hp => exact h.setPhase hb hx hk (by simp [hp]) (by rw [Task.ended, hp]) rfl
  | output hk hp | drain hk hp =>
    apply Answers.setPhase
    · exact h.congr rfl rfl rfl
    · exact hb
    · exact hx
    · exact hk
    · simp [hp]
    · rw [Task.ended, hp]
    · rfl
  | refuse hk hp | crash hk hp | commit hk hp =>
    apply Answers.finish
    · exact h.congr rfl rfl rfl
    · exact hb
    · exact hx
    · exact hk
    · simp [hp]
    · rw [Task.ended, hp]
  | settle hk hp => exact h.discard hb hx hk hp id
  | drop => exact absurd rfl (hd _)
  | @follow k hk hp =>
    -- The request that was kept is gone now, but the task that follows is there for it.
    rw [hx.trigger_discard (mem_of_task? hk)]
    refine .start ?_ (fun _ => id) (Path.rootKey_rootKey _)
    by_cases hkey : key = k.key
    · exact .inl hkey
    · exact .inr (h.discard hb hx hk hp (List.mem_erase_of_ne hkey).mpr)

theorem first (hr : c.request? e = some key) : (c.step e).Answers key b := by
  have hm := step_move c e
  generalize c.step e = c' at hm
  cases hm with
  | idle hn => cases hn.symm.trans hr
  | coalesce hr' =>
    cases hr.symm.trans hr'
    exact .kept List.mem_insert_self
  | start hr' =>
    cases hr.symm.trans hr'
    exact .waiting (mem_start.mpr (.inr rfl)) (rootKey_of_request? hr) rfl
  | _ => cases hr

/-- When no task is left, a session that has begun since was the last of the root to end. -/
theorem last (h : c.Answers key b) (hx : c.books.Exclusive) (ht : c.tasks = []) :
    ∃ f older newer, c.finished = older ++ f :: newer ∧ f.key = key ∧ b f.task ∧
      ∀ g ∈ newer, g.key ≠ key := by
  have hno (k : Task) : k ∉ c.tasks := by simp [ht]
  cases h with
  | kept hp =>
    obtain ⟨p, hp, -⟩ := List.mem_map.mp (hx.pending key hp)
    obtain ⟨k, hk, -⟩ := mem_heads.mp hp
    exact absurd hk (hno k)
  | waiting hk | building hk => exact absurd hk (hno _)
  | built hf hkey hb hl => exact ⟨_, _, _, hf, hkey, hb, hl⟩

end Answers

/-- In these steps a task that was scheduled has begun, so it has tried to start its process. -/
def Begun (c : Coordinator) (events : List Event) (id : Nat) : Prop :=
  ∃ before after k, events = before ++ .begin id :: after ∧
    (c.run before).task? id = some k ∧ k.phase = .scheduled

theorem answers_run (hx : c.books.Exclusive) (hs : c.singleFlight = true)
    (h : c.Answers key (c.Begun [])) {events : List Event}
    (hd : ∀ id, .settle id false ∉ events) : (c.run events).Answers key (c.Begun events) := by
  induction events using List.reverseRecOn with
  | nil => exact h
  | append_singleton events e ih =>
    rw [run_concat]
    refine (ih fun id hm => hd id (List.mem_append_left _ hm)).step ?_ ?_
      (exclusive_run hx hs events) (fun id he => hd id (by simp [he])) (step_move _ e)
    · rintro id ⟨before, after, k, rfl, hk, hp⟩
      exact ⟨before, after ++ [e], k, by simp, hk, hp⟩
    · rintro k hk hp rfl
      exact ⟨events, [], k, rfl, hk, hp⟩

/-- With single flight, when no task is left after any events in any order in which no
manifest was gone, the session of a root that ended last has begun behind any request for
the root. If it had a result, the root shows its diagnostics, and its symbols too if the
status was zero. -/
theorem run_no_request_lost {t : Toolchain} {roots : List Text} {ed : Editor} {x : Indices}
    {before after : List Event} (hr : (fresh t roots true ed x).request? e = some key)
    (hd : ∀ id, .settle id false ∉ after)
    (hc : (fresh t roots true ed x).run (before ++ e :: after) = c) (ht : c.tasks = []) :
    ∃ f older newer, c.finished = older ++ f :: newer ∧ f.key = key ∧
      (∀ g ∈ newer, g.key ≠ key) ∧
      ((fresh t roots true ed x).run (before ++ [e])).Begun after f.task ∧
      (∃ start, (fresh t roots true ed x).Launched (before ++ e :: after) f.task start ∧
        f.Tells start) ∧
      ∀ r found root, f.outcome = some (r, found) → Path.rootKey root = key →
        c.indices.diagnostics.get root = found.diagnostics ∧
        (r.exitCode = some 0 → c.indices.symbols.forRoot root = found.symbols) := by
  have hx := exclusive_run (exclusive_fresh t roots true ed x) rfl
  have hs := (settings_run (fresh t roots true ed x) (before ++ [e])).2.2
  have h₁ : ((fresh t roots true ed x).run (before ++ [e])).Answers key
      (((fresh t roots true ed x).run (before ++ [e])).Begun []) := by
    rw [run_concat]
    exact .first ((request?_run _ before e).trans hr)
  have ha := answers_run (hx (before ++ [e])) hs h₁ hd
  have hl := ledger_run t roots true ed x (before ++ e :: after)
  rw [← run_append, List.append_assoc, List.singleton_append, hc] at ha
  rw [hc] at hl
  -- No session of the root has ended behind that one, so what it published is still there.
  obtain ⟨f, older, newer, hf, hkey, hb, hn⟩ := ha.last (hc ▸ hx _) ht
  have hm : f ∈ c.finished := hf ▸ List.mem_append_right _ List.mem_cons_self
  refine ⟨f, older, newer, hf, hkey, hn, hb, hl.tells f hm, fun r found root ho hroot => ?_⟩
  have hne (g : Finish) (hg : g ∈ newer) : g.key ≠ f.key :=
    (hn g hg).trans_eq hkey.symm
  rw [hl.indices, hf, DiagnosticIndex.get, SymbolIndex.forRoot, hroot, ← hkey]
  refine ⟨?_, fun h0 => ?_⟩
  · rw [OrderedMap.getD, diagnostics_last ho fun g hg he => absurd he (hne g hg)]
    rfl
  · rw [OrderedMap.getD, symbols_last ho h0 fun g hg he => absurd he (hne g hg)]
    rfl

end Coordinator

open Surroundings in
theorem Coordinator.run_no_request_lost_of_kept :
    ∃ (before after : List Event) (c : Coordinator) (f : Finish) (r : BuildResult)
      (found : Findings), (∀ id, .settle id false ∉ after) ∧
      (fresh default [] true {} {}).run (before ++ .trigger [] true :: after) = c ∧
      c.tasks = [] ∧ f ∈ c.finished ∧ f.task = 1 ∧
      ((fresh default [] true {} {}).run (before ++ [.trigger [] true])).Begun after f.task ∧
      f.outcome = some (r, found) ∧ found.diagnosticCount = 1 ∧
      c.indices.diagnostics.get [] = found.diagnostics := by
  obtain ⟨before, after, hd, h⟩ : ∃ before after, (∀ id, .settle id false ∉ after) ∧
      let c := (fresh default [] true {} {}).run (before ++ .trigger [] true :: after)
      c.tasks.length = 0 ∧
        c.finished.map (fun f => (f.task, f.key, f.outcome.map (·.2.diagnosticCount))) =
          [(0, Path.rootKey [], none), (1, Path.rootKey [], some 1)] := by
    refine ⟨[.trigger [] true, .begin 0], [.launch 0 (.error (.refused [])),
      .settle 0 true, .begin 1,
      .launch 1 (.ok { out := DiagnosticRecord.printed ⟨"a", default, "m"⟩, exit := .status 1 }),
      .output 1 200, .output 1 0, .drain 1 0, .exit 1, .settle 1 true], ?_, ?_⟩
    · simp
    · decide +kernel
  generalize hc : (fresh default [] true {} {}).run (before ++ .trigger [] true :: after) = c at h
  obtain ⟨ht, hf⟩ := h
  have ht := List.length_eq_zero_iff.mp ht
  obtain ⟨f, older, newer, hl, -, hn, hb, -, hs⟩ := run_no_request_lost rfl hd hc ht
  have hm : f ∈ c.finished := hl ▸ List.mem_append_right _ List.mem_cons_self
  rw [hl] at hf
  rcases older with _ | ⟨a, _ | ⟨b, older⟩⟩
  · obtain ⟨g, gs, rfl, hg, -⟩ := List.map_eq_cons_iff.mp (List.cons.inj hf).2
    obtain ⟨-, hg⟩ := Prod.mk.inj hg
    exact absurd (Prod.mk.inj hg).1 (hn g List.mem_cons_self)
  · obtain ⟨hf, -⟩ := List.cons.inj (List.cons.inj hf).2
    obtain ⟨h₁, hf⟩ := Prod.mk.inj hf
    obtain ⟨⟨r, found⟩, ho, hd'⟩ := Option.map_eq_some_iff.mp (Prod.mk.inj hf).2
    exact ⟨before, after, c, f, r, found, hd, hc, ht, hm, h₁, hb, ho, hd', (hs r found [] ho rfl).1⟩
  · simp at hf

end Workbench
