import Workbench.Proofs.Build.Reading
import Workbench.Proofs.Build.Steps

/-! # The indices hold ended builds

The indices change when a session ends with a result, all at once. So at any point they are
what the ends on record make of the indices at first, in the order of these ends, and a
root shows the build that ended last.
-/

namespace Workbench

open OrderedMap

section

variable [Surroundings]

theorem Indices.commit_congr {root root' : Text} (h : Path.rootKey root = Path.rootKey root')
    (x : Indices) (f : Findings) (code : Option Int) :
    x.commit root f code = x.commit root' f code := by
  simp only [commit, DiagnosticIndex.commit, SymbolIndex.commitFiles, h]

namespace Build

def Finish.key (f : Finish) : Text := Path.rootKey f.root

variable {f : Finish} {fs fs' : List Finish} {x : Indices} {root : Text} {r : BuildResult}
  {found : Findings}

namespace Finish

/-- What the indices are after the end of a task. -/
def publish (x : Indices) (f : Finish) : Indices :=
  match f.outcome with
  | some (r, found) => x.commit f.root found r.exitCode
  | none => x

/-- How a session ends is told by its process: if that could not be started, its output has
stopped the reading or the editor has not taken its error stream, there is no result; else the
result and the findings are those of the whole output and the status. -/
inductive Tells (f : Finish) : Start → Prop where
  | refused {fault : StartFault} (ho : f.outcome = none) : f.Tells (.error fault)
  | stopped {p : Script} {c : Crash} (hc : Session.Stops f.key (Stream.items p.out) c)
      (ho : f.outcome = none) : f.Tells (.ok p)
  | unheard {p : Script} (he : p.err ≠ []) (ho : f.outcome = none) : f.Tells (.ok p)
  | committed {p : Script} {ds : List Diagnostic} {ss : List Symbol} {r : BuildResult}
      (ha : (Stream.items p.out).2 = none) (hg : Gathered f.key (Stream.items p.out).1 ds ss)
      (hr : r.root = f.key) (hc : r.exitCode = p.exit.code)
      (ho : f.outcome = some (r, Findings.add {} ds ss)) : f.Tells (.ok p)

theorem publish_none (h : f.outcome = none) : publish x f = x := by
  rw [publish, h]

theorem publish_some (h : f.outcome = some (r, found)) :
    publish x f = x.commit f.root found r.exitCode := by
  rw [publish, h]

theorem diagnostics_publish_of_ne {key : Text} (h : f.key = key → f.outcome = none) :
    (publish x f).diagnostics.byRoot.get? key = x.diagnostics.byRoot.get? key := by
  cases ho : f.outcome with
  | none => rw [publish_none ho]
  | some o =>
    rw [publish_some ho, Indices.commit, DiagnosticIndex.get?_commit]
    refine if_neg fun hk => ?_
    cases ho.symm.trans (h hk)

theorem symbols_publish_of_ne {key : Text}
    (h : f.key = key → ∀ r found, f.outcome = some (r, found) → r.exitCode ≠ some 0) :
    (publish x f).symbols.byRoot.get? key = x.symbols.byRoot.get? key := by
  cases ho : f.outcome with
  | none => rw [publish_none ho]
  | some o =>
    rw [publish_some ho, Indices.commit]
    split_ifs with h0
    · rw [SymbolIndex.get?_byRoot_commitFiles]
      exact if_neg fun hk => h hk _ _ ho h0
    · rfl

end Finish

open Finish

theorem diagnostics_last (ho : f.outcome = some (r, found))
    (hl : ∀ g ∈ fs', g.key = f.key → g.outcome = none) :
    ((fs ++ f :: fs').foldl publish x).diagnostics.byRoot.get? f.key = some found.diagnostics := by
  induction fs' using List.reverseRecOn with
  | nil =>
    rw [List.foldl_append, List.foldl_cons, List.foldl_nil, publish_some ho, Indices.commit,
      DiagnosticIndex.get?_commit]
    exact if_pos rfl
  | append_singleton fs' g ih =>
    rw [← List.cons_append, ← List.append_assoc, List.foldl_append, List.foldl_cons,
      List.foldl_nil, diagnostics_publish_of_ne (hl g (by simp))]
    exact ih fun g hg => hl g (List.mem_append_left _ hg)

theorem symbols_last (ho : f.outcome = some (r, found)) (h0 : r.exitCode = some 0)
    (hl : ∀ g ∈ fs', g.key = f.key → ∀ r found, g.outcome = some (r, found) →
      r.exitCode ≠ some 0) :
    ((fs ++ f :: fs').foldl publish x).symbols.byRoot.get? f.key = some found.symbols := by
  induction fs' using List.reverseRecOn with
  | nil =>
    rw [List.foldl_append, List.foldl_cons, List.foldl_nil, publish_some ho, Indices.commit,
      if_pos h0, SymbolIndex.get?_byRoot_commitFiles]
    exact if_pos rfl
  | append_singleton fs' g ih =>
    rw [← List.cons_append, ← List.append_assoc, List.foldl_append, List.foldl_cons,
      List.foldl_nil, symbols_publish_of_ne (hl g (by simp))]
    exact ih fun g hg => hl g (List.mem_append_left _ hg)

inductive Task.Traced (l : Nat → Start → Prop) : Task → Prop where
  | scheduled {id : Nat} {root : Text} : Traced l ⟨id, root, .scheduled⟩
  | spawning {id : Nat} {root : Text} {t : Toolchain} :
      Traced l ⟨id, root, .spawning (Session.create root t)⟩
  | reading {id : Nat} {root : Text} {p : Script} {r : Reading} (hl : l id (.ok p))
      (hr : r.Reads root p) : Traced l ⟨id, root, .reading r⟩
  | finished {id : Nat} {root : Text} : Traced l ⟨id, root, .finished⟩

namespace Task.Traced

variable {k : Task} {l l' : Nat → Start → Prop}

theorem mono (h : Traced l k) (hl : ∀ id start, l id start → l' id start) : Traced l' k := by
  cases h with
  | scheduled => exact .scheduled
  | spawning => exact .spawning
  | reading hp hr => exact .reading (hl _ _ hp) hr
  | finished => exact .finished

theorem of_spawning (h : Traced l k) {s : Session} (hp : k.phase = .spawning s) :
    ∃ t, s = Session.create k.root t := by
  cases h <;> cases hp
  exact ⟨_, rfl⟩

theorem of_reading (h : Traced l k) {r : Reading} (hp : k.phase = .reading r) :
    ∃ p, l k.id (.ok p) ∧ r.Reads k.root p := by
  cases h <;> cases hp
  exact ⟨_, ‹_›, ‹_›⟩

end Task.Traced

end Build

open Build Finish

namespace Coordinator

variable {c c' : Coordinator} {e : Event} {k : Task} {x : Indices} {events : List Event}
  {l l' : Nat → Start → Prop}

/-- What is known of the ends on record and of the tasks by the starts that tasks have
learnt of. -/
structure Ledger (c : Coordinator) (x : Indices) (l : Nat → Start → Prop) : Prop
    extends c.Accounted where
  indices : c.indices = c.finished.foldl publish x
  traced : ∀ k ∈ c.tasks, Task.Traced l k
  tells : ∀ f ∈ c.finished, ∃ start, l f.task start ∧ f.Tells start

namespace Ledger

theorem step_of_eq (h : c.Ledger x l) (hl : ∀ id start, l id start → l' id start)
    (hm : Move c e c') (hi : c'.indices = c.indices) (hf : c'.finished = c.finished)
    (ht : ∀ k ∈ c'.tasks, k ∈ c.tasks ∨ Task.Traced l' k) : c'.Ledger x l' := by
  refine ⟨h.toAccounted.step hm, ?_, fun k hk => ?_, fun f hf' => ?_⟩
  · rw [hi, hf, h.indices]
  · exact (ht k hk).elim (fun hk => (h.traced k hk).mono hl) id
  · exact (h.tells f (hf ▸ hf')).imp fun start hs => ⟨hl _ _ hs.1, hs.2⟩

theorem step_of_finish (h : c.Ledger x l) (hl : ∀ id start, l id start → l' id start)
    (hm : Move c e c') {o : Option (BuildResult × Findings)}
    (hf : c'.finished = c.finished ++ [⟨k.id, k.root, o⟩])
    (ht : c'.tasks = (c.setPhase k.id .finished).tasks)
    (hi : c'.indices = publish c.indices ⟨k.id, k.root, o⟩) {start : Start}
    (hs : l' k.id start) (hr : Finish.Tells ⟨k.id, k.root, o⟩ start) : c'.Ledger x l' := by
  refine ⟨h.toAccounted.step hm, ?_, fun k' hk => ?_, fun f hf' => ?_⟩
  · rw [hi, hf, h.indices, List.foldl_append, List.foldl_cons, List.foldl_nil]
  · rw [ht] at hk
    obtain ⟨i, hi, rfl⟩ := List.mem_map.mp hk
    split_ifs
    · exact .finished
    · exact (h.traced i hi).mono hl
  · rw [hf] at hf'
    rcases List.mem_append.mp hf' with hf' | hf'
    · exact (h.tells f hf').imp fun start hs => ⟨hl _ _ hs.1, hs.2⟩
    · rw [List.mem_singleton.mp hf']
      exact ⟨start, hs, hr⟩

theorem step (h : c.Ledger x l) (hl : ∀ id start, l id start → l' id start)
    (hnew : ∀ k s start, c.task? k.id = some k → k.phase = .spawning s →
      e = .launch k.id start → l' k.id start) (hm : Move c e c') : c'.Ledger x l' := by
  have hset {k : Task} {phase : Phase} (hk : c.task? k.id = some k)
      (ht : Task.Traced l' { k with phase }) :
      ∀ i ∈ (c.setPhase k.id phase).tasks, i ∈ c.tasks ∨ Task.Traced l' i := by
    intro i hi
    rcases (mem_setPhase hk h.numbered).mp hi with rfl | ⟨hi, -⟩
    · exact .inr ht
    · exact .inl hi
  have hm' := hm
  cases hm with
  | idle | coalesce => exact h.step_of_eq hl hm' rfl rfl fun _ hk => .inl hk
  | start =>
    refine h.step_of_eq hl hm' rfl rfl fun _ hk => ?_
    rcases mem_start.mp hk with hk | rfl
    · exact .inl hk
    · exact .inr .scheduled
  | begin hk => exact h.step_of_eq hl hm' rfl rfl (hset hk .spawning)
  | @launch k _ p hk hp =>
    obtain ⟨t, rfl⟩ := (h.traced _ (mem_of_task? hk)).of_spawning hp
    exact h.step_of_eq hl hm' rfl rfl
      (hset hk (.reading (hnew k _ _ hk hp rfl) (.start k.root t p)))
  | refuse hk hp =>
    exact h.step_of_finish hl hm' rfl rfl rfl (hnew _ _ _ hk hp rfl) (.refused rfl)
  | output hk hp =>
    obtain ⟨p, hs, hr⟩ := (h.traced _ (mem_of_task? hk)).of_reading hp
    exact h.step_of_eq hl hm' rfl rfl (hset hk (.reading (hl _ _ hs) (hr.readOutput _ _)))
  | drain hk hp =>
    obtain ⟨p, hs, hr⟩ := (h.traced _ (mem_of_task? hk)).of_reading hp
    exact h.step_of_eq hl hm' rfl rfl (hset hk (.reading (hl _ _ hs) (hr.readErrors _ _)))
  | crash hk hp hc =>
    obtain ⟨p, hs, hr⟩ := (h.traced _ (mem_of_task? hk)).of_reading hp
    refine h.step_of_finish hl hm' rfl rfl rfl (hl _ _ hs) ?_
    rcases hr.cases_ended hc with hstop | he
    · rw [← Path.rootKey_eq_absolute] at hstop
      exact .stopped hstop rfl
    · exact .unheard he rfl
  | commit hk hp hc ho =>
    obtain ⟨p, hs, hr⟩ := (h.traced _ (mem_of_task? hk)).of_reading hp
    -- The reading is over without a crash, so it has gathered all that the output tells.
    obtain ⟨ha, -, ds, ss, hg, hf⟩ := hr.gathered_all (Reading.ended_eq_none_iff.mp hc).2 ho
    have hkey := hr.root_eq.trans (Path.rootKey_eq_absolute _).symm
    rw [← hr.root_eq, hkey] at hg
    refine h.step_of_finish hl hm' rfl rfl ?_ (hl _ _ hs)
      (.committed ha hg hkey (congrArg (·.exit.code) hr.script_eq) (by rw [hf]))
    exact Indices.commit_congr (by rw [hkey, Path.rootKey_rootKey]) _ _ _
  | settle | drop => exact h.step_of_eq hl hm' rfl rfl fun _ hk => .inl (mem_discard.mp hk).1
  | @follow k =>
    obtain ⟨hi, hf⟩ := trigger_ends { c.discard k with pending := c.pending.erase k.key } k.root
    refine h.step_of_eq hl hm' hi hf fun _ hk => ?_
    rcases mem_trigger hk with hk | rfl
    · exact .inl (mem_discard.mp hk).1
    · exact .inr .scheduled

end Ledger

/-- In these steps a task that was starting its process has learnt how that went. -/
def Launched (c : Coordinator) (events : List Event) (id : Nat) (start : Start) : Prop :=
  ∃ before after k s, events = before ++ .launch id start :: after ∧
    (c.run before).task? id = some k ∧ k.phase = .spawning s

theorem Launched.concat {id : Nat} {start : Start} (h : c.Launched events id start) (e : Event) :
    c.Launched (events ++ [e]) id start := by
  obtain ⟨before, after, k, s, rfl, hk, hp⟩ := h
  exact ⟨before, after ++ [e], k, s, by simp, hk, hp⟩

theorem Launched.last {s : Session} {start : Start} (hk : (c.run events).task? k.id = some k)
    (hp : k.phase = .spawning s) : c.Launched (events ++ [.launch k.id start]) k.id start :=
  ⟨events, [], k, s, rfl, hk, hp⟩

theorem ledger_run (t : Toolchain) (roots : List Text) (sf : Bool) (ed : Editor) (x : Indices)
    (events : List Event) : ((fresh t roots sf ed x).run events).Ledger x
      ((fresh t roots sf ed x).Launched events) := by
  induction events using List.reverseRecOn with
  | nil => exact ⟨accounted_fresh t roots sf ed x, rfl, fun _ hk => absurd hk List.not_mem_nil,
      fun _ hf => absurd hf List.not_mem_nil⟩
  | append_singleton events e ih =>
    rw [run_concat]
    refine ih.step ?_ ?_ (step_move _ e)
    · exact fun _ _ h => h.concat e
    · rintro k s start hk hp rfl
      exact .last hk hp

theorem Move.finished (hm : Move c e c') : c'.finished = c.finished ∨
    ∃ k ∈ c.tasks, k.ended = false ∧ ∃ o, c'.finished = c.finished ++ [⟨k.id, k.root, o⟩] := by
  cases hm with
  | refuse hk hp | crash hk hp | commit hk hp =>
    exact .inr ⟨_, mem_of_task? hk, by rw [Task.ended, hp], _, rfl⟩
  | follow => exact .inl (trigger_ends _ _).2
  | _ => exact .inl rfl

/-- With single flight or without it, after any events in any order, the indices are what
the ends on record make of the indices at first, one after the other. These are the ends of
just the sessions that have ended, in the order in which they did, and each is told by its
process. So a root shows the diagnostics of the session that ended last with a result,
whichever was started last. -/
theorem run_indices {t : Toolchain} {roots : List Text} {sf : Bool} {ed : Editor} {x : Indices}
    {events : List Event} (hc : (fresh t roots sf ed x).run events = c) :
    c.indices = c.finished.foldl publish x ∧
    (c.finished.map Finish.task).Nodup ∧
    (∀ id, id ∈ c.finished.map Finish.task ↔
      id < c.nextId ∧ ∀ k ∈ c.tasks, k.id = id → k.ended) ∧
    (∀ f ∈ c.finished, ∃ start, (fresh t roots sf ed x).Launched events f.task start ∧
      f.Tells start) ∧
    (∀ e, (c.step e).finished = c.finished ∨
      ∃ k ∈ c.tasks, k.ended = false ∧
        ∃ o, (c.step e).finished = c.finished ++ [⟨k.id, k.root, o⟩]) ∧
    ∀ before f after r found, c.finished = before ++ f :: after → f.outcome = some (r, found) →
      (∀ g ∈ after, g.key = f.key → g.outcome = none) →
      c.indices.diagnostics.get f.root = found.diagnostics := by
  have h := ledger_run t roots sf ed x events
  rw [hc] at h
  refine ⟨h.indices, h.nodup, h.mem_iff, h.tells, fun e => (step_move c e).finished, ?_⟩
  intro before f after r found hf ho hl
  rw [h.indices, hf]
  exact congrArg (·.getD {}) (diagnostics_last ho hl)

end Coordinator

end

open Build Surroundings in
theorem Coordinator.run_indices_of_older :
    ∃ (events : List Event) (c : Coordinator) (g f : Finish) (r : BuildResult) (found : Findings),
      (fresh default [] false {} {}).run events = c ∧ c.finished = [g, f] ∧ f.task < g.task ∧
      f.outcome = some (r, found) ∧ found.diagnosticCount = 1 ∧
      c.indices.diagnostics.get f.root = found.diagnostics := by
  obtain ⟨events, h⟩ : ∃ events, ((fresh default [] false {} {}).run events).finished.map
      (fun f => (f.task, f.outcome.map (·.2.diagnosticCount))) = [(1, some 0), (0, some 1)] := by
    refine ⟨[.trigger [] true, .trigger [] true, .begin 0, .begin 1,
      .launch 0 (.ok { out := DiagnosticRecord.printed ⟨"a", default, "m"⟩, exit := .status 1 }),
      .output 0 200, .launch 1 (.ok {}), .output 1 0, .drain 1 0, .exit 1, .output 0 0,
      .drain 0 0, .exit 0], ?_⟩
    decide +kernel
  generalize hc : (fresh default [] false {} {}).run events = c at h
  obtain ⟨-, -, -, -, -, hl⟩ := run_indices hc
  obtain ⟨g, fs, hf, hg, h⟩ := List.map_eq_cons_iff.mp h
  obtain ⟨f, fs, rfl, hf', h⟩ := List.map_eq_cons_iff.mp h
  obtain rfl := List.map_eq_nil_iff.mp h
  obtain ⟨h₁, -⟩ := Prod.mk.inj hg
  obtain ⟨h₀, ho⟩ := Prod.mk.inj hf'
  obtain ⟨⟨r, found⟩, ho, hd⟩ := Option.map_eq_some_iff.mp ho
  have hlt : f.task < g.task := by
    rw [h₀, h₁]
    exact Nat.zero_lt_one
  exact ⟨events, c, g, f, r, found, hc, hf, hlt, ho, hd,
    hl [g] f [] r found hf ho fun _ hm => absurd hm List.not_mem_nil⟩

end Workbench
