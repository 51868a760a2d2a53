import Mathlib.Data.List.Basic
import Workbench.Proofs.Build.Projection

/-! # Roots do not disturb one another

Roots share a coordinator, its books, both indices and the editor. A run of which all that is
about other roots has been left out goes on beside the whole run: for the root that is left,
it has the same sessions, keeps the same requests and shows the same builds.
-/

namespace Workbench

open OrderedMap

namespace Build

def Task.renumber (f : Nat → Nat) (k : Task) : Task := { k with id := f k.id }

def Finish.content (f : Finish) : Text × Option (BuildResult × Findings) := (f.root, f.outcome)

end Build

/-! ## What a root shows -/

def Indices.AgreeOn (key : Text) (x y : Indices) : Prop :=
  x.diagnostics.byRoot.get? key = y.diagnostics.byRoot.get? key ∧
    x.symbols.byRoot.get? key = y.symbols.byRoot.get? key

section

variable [Surroundings]

namespace Build.Finish

variable {x y : Indices} {key : Text} {fs fs' : List Finish}

theorem agreeOn_publish (h : x.AgreeOn key y) (f : Finish) :
    (publish x f).AgreeOn key (publish y f) := by
  cases ho : f.outcome with
  | none =>
    rw [publish_none ho, publish_none ho]
    exact h
  | some o =>
    rw [publish_some ho, publish_some ho]
    constructor
    · simp only [Indices.commit, DiagnosticIndex.get?_commit, h.1]
    · simp only [Indices.commit]
      split_ifs
      · simp only [SymbolIndex.get?_byRoot_commitFiles, h.2]
      · exact h.2

theorem agreeOn_filter (x : Indices) (key : Text) (fs : List Finish) :
    ((fs.filter (·.key = key)).foldl publish x).AgreeOn key (fs.foldl publish x) := by
  induction fs using List.reverseRecOn with
  | nil => exact ⟨rfl, rfl⟩
  | append_singleton fs f ih =>
    rw [List.filter_append, List.foldl_append, List.foldl_append]
    by_cases hk : f.key = key
    · simpa [hk] using agreeOn_publish ih f
    · have hd := diagnostics_publish_of_ne (x := fs.foldl publish x) fun h => absurd h hk
      have hs := symbols_publish_of_ne (x := fs.foldl publish x) fun h => absurd h hk
      simpa [hk] using ⟨ih.1.trans hd.symm, ih.2.trans hs.symm⟩

theorem foldl_publish_congr (h : fs'.map content = fs.map content) (x : Indices) :
    fs'.foldl publish x = fs.foldl publish x := by
  have hc (fs : List Finish) : fs.foldl publish x =
      (fs.map content).foldl (fun x p => publish x ⟨0, p.1, p.2⟩) x := by
    rw [List.foldl_map]
    rfl
  rw [hc, hc, h]

end Build.Finish

open Build Finish

namespace Coordinator

variable {c c' c₁ : Coordinator} {e : Event} {k : Task} {key : Text} {ids : List Nat}
  {answers : Editor.Entry → List Bool}

/-! ## Side by side -/

/-- One coordinator has just the sessions of a root that another has, under the numbers that
these have among themselves. -/
structure Mirrors (key : Text) (ids : List Nat) (c c' : Coordinator) : Prop where
  settings : c'.toolchain = c.toolchain ∧ c'.roots = c.roots ∧ c'.singleFlight = c.singleFlight
  tasks : c'.tasks = (c.tasks.filter (·.key = key)).map (Task.renumber ids.idxOf)
  nextId : c'.nextId = ids.length
  known : ∀ k ∈ c.tasks, k.key = key → k.id ∈ ids
  old : ∀ id ∈ ids, id < c.nextId
  inflight : c'.inflight.get? key = (c.inflight.get? key).map ids.idxOf
  inflight_known : ∀ id ∈ c.inflight.get? key, id ∈ ids
  pending : c'.pending.count key = c.pending.count key
  finished : c'.finished.map Finish.content =
    (c.finished.filter (·.key = key)).map Finish.content

namespace Mirrors

/-- A step that is not about the root leaves the coordinators as they are to each other. -/
theorem other (h : Mirrors key ids c c') (hn : c.books.Numbered) (hm : Move c e c₁)
    (ha : c.about? e ≠ some key) : Mirrors key ids c₁ c' := by
  have hu := hm.unseen hn ha
  obtain ⟨ht, hr, hs⟩ := hm.settings
  obtain ⟨ht', hr', hs'⟩ := h.settings
  refine ⟨⟨ht'.trans ht.symm, hr'.trans hr.symm, hs'.trans hs.symm⟩, ?_, h.nextId, ?_, ?_, ?_, ?_,
    h.pending.trans hu.pending.symm, ?_⟩
  · rw [hu.tasks, h.tasks]
  · intro k hk hkey
    have hmem : k ∈ c₁.tasks.filter (·.key = key) := List.mem_filter.mpr ⟨hk, by simpa using hkey⟩
    rw [hu.tasks] at hmem
    exact h.known k (List.mem_of_mem_filter hmem) hkey
  · exact fun id hid => Nat.lt_of_lt_of_le (h.old id hid) hm.nextId_le
  · rw [hu.inflight, h.inflight]
  · rw [hu.inflight]
    exact h.inflight_known
  · rw [hu.finished, h.finished]

theorem task? (h : Mirrors key ids c c') (hn : c'.books.Numbered) (hk : c.task? k.id = some k)
    (hkey : k.key = key) :
    c'.task? (ids.idxOf k.id) = some (k.renumber ids.idxOf) := by
  have hm : k.renumber ids.idxOf ∈ c'.tasks := by
    rw [h.tasks]
    exact List.mem_map_of_mem (List.mem_filter.mpr ⟨mem_of_task? hk, by simpa using hkey⟩)
  exact hn.task?_eq hm

theorem of_rest {ed ed' : Editor} {x x' : Indices} (h : Mirrors key ids c c') :
    Mirrors key ids { c with editor := ed, indices := x }
      { c' with editor := ed', indices := x' } :=
  ⟨h.settings, h.tasks, h.nextId, h.known, h.old, h.inflight, h.inflight_known, h.pending,
    h.finished⟩

theorem setPhase (h : Mirrors key ids c c') (id : Nat) (p : Phase) :
    Mirrors key ids (c.setPhase id p) (c'.setPhase (ids.idxOf id) p) := by
  refine { h with tasks := ?_, known := ?_ }
  · rw [filter_setPhase, List.map_map, Coordinator.setPhase, h.tasks, List.map_map]
    refine List.map_congr_left fun i hi => ?_
    obtain ⟨hi, hik⟩ := List.mem_filter.mp hi
    have hinj := List.idxOf_inj (y := id) (h.known i hi (by simpa using hik))
    simp only [Function.comp, Task.renumber, hinj]
    split_ifs <;> rfl
  · intro i hi hik
    obtain ⟨j, hj, rfl⟩ := List.mem_map.mp hi
    split_ifs at hik ⊢
    · exact h.known j hj hik
    · exact h.known j hj hik

theorem finish (h : Mirrors key ids c c') (hkey : k.key = key)
    (o : Option (BuildResult × Findings)) :
    Mirrors key ids (c.finish k o) (c'.finish (k.renumber ids.idxOf) o) := by
  refine { h.setPhase k.id .finished with finished := ?_ }
  have hf : Finish.key ⟨k.id, k.root, o⟩ = key := hkey
  rw [Coordinator.finish, Coordinator.finish, List.filter_append, List.map_append, List.map_append,
    h.finished]
  simp [hf, Finish.content, Task.renumber]

theorem start (h : Mirrors key ids c c') (hk : Path.rootKey key = key) :
    Mirrors key (ids ++ [c.nextId]) (c.start key) (c'.start key) := by
  have hnew : c.nextId ∉ ids := fun hm => Nat.lt_irrefl _ (h.old _ hm)
  have hidx : (ids ++ [c.nextId]).idxOf c.nextId = ids.length := by
    simp [List.idxOf_append_of_notMem hnew]
  constructor
  · exact h.settings
  · have hkey : Task.key ⟨c.nextId, key, .scheduled⟩ = key := hk
    simp only [Coordinator.start, h.tasks, List.filter_append, List.map_append]
    refine congrArg₂ (· ++ ·) ?_ ?_
    · refine List.map_congr_left fun i hi => ?_
      obtain ⟨hi, hik⟩ := List.mem_filter.mp hi
      rw [Task.renumber, Task.renumber,
        List.idxOf_append_of_mem (h.known i hi (by simpa using hik))]
    · simp [hkey, Task.renumber, hidx, h.nextId]
  · simp [Coordinator.start, h.nextId]
  · intro k hk hkey
    rw [List.mem_append, List.mem_singleton]
    rcases mem_start.mp hk with hk | rfl
    · exact .inl (h.known k hk hkey)
    · exact .inr rfl
  · intro id hid
    rcases List.mem_append.mp hid with hid | hid
    · exact Nat.lt_succ_of_lt (h.old id hid)
    · rw [List.mem_singleton.mp hid]
      exact Nat.lt_succ_self _
  · rw [Coordinator.start, Coordinator.start, get?_insert, get?_insert, hk, if_pos rfl, if_pos rfl,
      Option.map_some, hidx, h.nextId]
  · rw [Coordinator.start, get?_insert, hk, if_pos rfl]
    rintro _ ⟨⟩
    exact List.mem_append_right _ (List.mem_singleton.mpr rfl)
  · exact h.pending
  · exact h.finished

theorem insert (h : Mirrors key ids c c') :
    Mirrors key ids { c with pending := c.pending.insert key }
      { c' with pending := c'.pending.insert key } := by
  refine { h with pending := ?_ }
  rw [count_insert, count_insert, h.pending]

theorem erase (h : Mirrors key ids c c') :
    Mirrors key ids { c with pending := c.pending.erase key }
      { c' with pending := c'.pending.erase key } := by
  refine { h with pending := ?_ }
  rw [List.count_erase_self, List.count_erase_self, h.pending]

theorem discard (h : Mirrors key ids c c') (hkey : k.key = key) :
    Mirrors key ids (c.discard k) (c'.discard (k.renumber ids.idxOf)) := by
  have hinj (id : Nat) (hid : id ∈ ids) : ids.idxOf id = ids.idxOf k.id ↔ id = k.id :=
    List.idxOf_inj hid
  have hkey' : (k.renumber ids.idxOf).key = key := hkey
  have hc := get?_inflight_discard c k key
  have hc' := get?_inflight_discard c' (k.renumber ids.idxOf) key
  simp only [hkey, hkey', true_and] at hc hc'
  refine { h with tasks := ?_, known := ?_, inflight := ?_, inflight_known := ?_ }
  · change c'.tasks.filter (·.id != ids.idxOf k.id) =
      ((c.tasks.filter (·.id != k.id)).filter (·.key = key)).map _
    rw [h.tasks, List.filter_map, List.filter_comm (fun i : Task => decide (i.key = key))]
    refine congrArg (List.map _) (List.filter_congr fun i hi => ?_)
    obtain ⟨hi, hik⟩ := List.mem_filter.mp hi
    have hid := hinj i.id (h.known i hi (by simpa using hik))
    exact Bool.eq_iff_iff.mpr (by simpa [Task.renumber] using not_congr hid)
  · intro i hi
    exact h.known i (mem_discard.mp hi).1
  · rw [hc, hc', h.inflight]
    cases hi : c.inflight.get? key with
    | none => rfl
    | some id =>
      have hid := hinj id (h.inflight_known id hi)
      simp only [Option.map_some, Option.some.injEq, Task.renumber, hid]
      split_ifs <;> rfl
  · rw [hc]
    intro id hid
    split_ifs at hid
    · cases hid
    · exact h.inflight_known id hid

theorem same (h : Mirrors key ids c₁ c') (hn : c₁.nextId = c.nextId) :
    Mirrors key (ids ++ List.range' c.nextId (c₁.nextId - c.nextId)) c₁ c' := by
  rw [hn]
  simpa using h

theorem trigger (h : Mirrors key ids c c') {root : Text} (hk : Path.rootKey root = key) (m : Bool) :
    Mirrors key (ids ++ List.range' c.nextId ((c.trigger root m).1.nextId - c.nextId))
      (c.trigger root m).1 (c'.trigger root m).1 := by
  cases m with
  | false => exact h.same rfl
  | true =>
    have hi : c'.singleFlight = true ∧ (c'.inflight.get? key).isSome = true ↔
        c.singleFlight = true ∧ (c.inflight.get? key).isSome = true := by
      rw [h.inflight, Option.isSome_map, h.settings.2.2]
    rw [trigger_true, trigger_true, hk]
    simp only [hi]
    split_ifs
    · exact h.insert.same rfl
    · have hn : (c.start key).nextId - c.nextId = 1 := Nat.add_sub_cancel_left _ _
      rw [hn]
      exact h.start (hk ▸ Path.rootKey_rootKey root)

theorem settle (h : Mirrors key ids c c') (hn : c'.books.Numbered) (hk : c.task? k.id = some k)
    (hkey : k.key = key) (m : Bool) :
    Mirrors key (ids ++ List.range' c.nextId ((c.settle k.id m).1.nextId - c.nextId))
      (c.settle k.id m).1 (c'.settle (ids.idxOf k.id) m).1 := by
  have hk' := h.task? hn hk hkey
  obtain ⟨id, root, phase⟩ := k
  cases phase with
  | finished =>
    have hs := settle_eq hk rfl m
    have hs' := settle_eq (k := ⟨ids.idxOf id, root, .finished⟩) hk' rfl m
    have hmem : key ∈ c'.pending ↔ key ∈ c.pending := by
      rw [← List.count_pos_iff, h.pending, List.count_pos_iff]
    have hkey' : Task.key ⟨ids.idxOf id, root, .finished⟩ = key := hkey
    rw [hkey] at hs
    rw [hkey'] at hs'
    simp only [hmem] at hs'
    dsimp only at hs hs' ⊢
    rw [hs, hs']
    split_ifs
    · exact (h.discard hkey).erase.trigger hkey m
    · exact (h.discard hkey).same rfl
  | _ =>
    dsimp only [Task.renumber] at hk hk'
    simp only [Coordinator.settle, hk, hk']
    exact h.same rfl

theorem begin (h : Mirrors key ids c c') (hn : c'.books.Numbered) (hk : c.task? k.id = some k)
    (hkey : k.key = key) : Mirrors key ids (c.begin k.id) (c'.begin (ids.idxOf k.id)) := by
  have hk' := h.task? hn hk hkey
  obtain ⟨id, root, phase⟩ := k
  dsimp only [Task.renumber] at hk hk' ⊢
  unfold Coordinator.begin
  rw [hk, hk', h.settings.1]
  cases phase with
  | scheduled => exact h.setPhase id _
  | _ => exact h

theorem launch (h : Mirrors key ids c c') (hn : c'.books.Numbered) (hk : c.task? k.id = some k)
    (hkey : k.key = key) (start : Start) :
    Mirrors key ids (c.launch k.id start) (c'.launch (ids.idxOf k.id) start) := by
  have hk' := h.task? hn hk hkey
  obtain ⟨id, root, phase⟩ := k
  dsimp only [Task.renumber] at hk hk' ⊢
  unfold Coordinator.launch
  rw [hk, hk']
  cases phase with
  | spawning s =>
    cases start with
    | error reason => exact h.of_rest.finish (k := ⟨id, root, .finished⟩) hkey none
    | ok p => exact h.setPhase id _
  | _ => exact h

theorem read (h : Mirrors key ids c c') (hn : c'.books.Numbered) (hk : c.task? k.id = some k)
    (hkey : k.key = key) {f : Reading → Editor → Reading × Editor}
    (hr : ∀ r, k.phase = .reading r → (f r c'.editor).1 = (f r c.editor).1) :
    Mirrors key ids (c.read k.id f) (c'.read (ids.idxOf k.id) f) := by
  have hk' := h.task? hn hk hkey
  obtain ⟨id, root, phase⟩ := k
  dsimp only [Task.renumber] at hk hk' ⊢
  unfold Coordinator.read
  rw [hk, hk']
  cases phase with
  | reading r =>
    dsimp only
    rw [hr r rfl]
    exact h.of_rest.setPhase id _
  | _ => exact h

theorem exit (h : Mirrors key ids c c') (hn : c'.books.Numbered) (hk : c.task? k.id = some k)
    (hkey : k.key = key) : Mirrors key ids (c.exit k.id) (c'.exit (ids.idxOf k.id)) := by
  have hk' := h.task? hn hk hkey
  obtain ⟨id, root, phase⟩ := k
  dsimp only [Task.renumber] at hk hk' ⊢
  unfold Coordinator.exit
  rw [hk, hk']
  cases phase with
  | reading r =>
    obtain ⟨hr, hs⟩ : (r.leave c'.indices c'.editor).result = (r.leave c.indices c.editor).result ∧
        (r.leave c'.indices c'.editor).session = (r.leave c.indices c.editor).session :=
      r.session.leave_congr r.script r.ended _ _ _ _
    dsimp only
    rw [hr, hs]
    split_ifs
    · cases (r.leave c.indices c.editor).result with
      | ok result => exact h.of_rest.finish (k := ⟨id, root, .finished⟩) hkey _
      | error problem => exact h.of_rest.finish (k := ⟨id, root, .finished⟩) hkey _
    · exact h
  | _ => exact h

/-- A step that is about the root is made by both alike, if the streams are read alike. -/
theorem own (h : Mirrors key ids c c') (hn : c.books.Numbered) (hn' : c'.books.Numbered)
    (ha : c.about? e = some key)
    (hr : ∀ k r f, e.reads? = some (k.id, f) → c.task? k.id = some k → k.phase = .reading r →
      (f r c'.editor).1 = (f r c.editor).1) :
    Mirrors key (c.numbers key ids e) (c.step e) (c'.step (e.renumber ids.idxOf)) := by
  rw [numbers_own hn ha]
  have hm := step_move c e
  have task {id : Nat} (ha : (c.task? id).map Task.key = some key) :
      ∃ k, c.task? k.id = some k ∧ k.key = key ∧ k.id = id := by
    obtain ⟨k, hk, hkey⟩ := Option.map_eq_some_iff.mp ha
    obtain rfl := id_of_task? hk
    exact ⟨k, hk, hkey, rfl⟩
  cases e with
  | trigger root m => exact h.trigger (Option.some.inj ha) m
  | touch uri m =>
    have hroot : c'.rootOf uri = c.rootOf uri := by
      simp only [rootOf, owningRoot, h.settings.2.1]
    change Mirrors key (ids ++ List.range' c.nextId ((c.touch uri m).1.nextId - c.nextId))
      (c.touch uri m).1 (c'.touch uri m).1
    simp only [about?] at ha
    unfold touch
    rw [hroot]
    rcases hu : c.rootOf uri with f | _ | root
    · exact h.same rfl
    · exact h.same rfl
    · rw [hu] at ha
      exact h.trigger (Option.some.inj ha) m
  | settle id m =>
    obtain ⟨k, hk, hkey, rfl⟩ := task ha
    exact h.settle hn' hk hkey m
  | begin id =>
    obtain ⟨k, hk, hkey, rfl⟩ := task ha
    exact (h.begin hn' hk hkey).same (hm.nextId_eq rfl (by simp))
  | launch id start =>
    obtain ⟨k, hk, hkey, rfl⟩ := task ha
    exact (h.launch hn' hk hkey start).same (hm.nextId_eq rfl (by simp))
  | output id n =>
    obtain ⟨k, hk, hkey, rfl⟩ := task ha
    exact (h.read hn' hk hkey fun r hp => hr k r _ rfl hk hp).same (hm.nextId_eq rfl (by simp))
  | drain id n =>
    obtain ⟨k, hk, hkey, rfl⟩ := task ha
    exact (h.read hn' hk hkey fun r hp => hr k r _ rfl hk hp).same (hm.nextId_eq rfl (by simp))
  | exit id =>
    obtain ⟨k, hk, hkey, rfl⟩ := task ha
    exact (h.exit hn' hk hkey).same (hm.nextId_eq rfl (by simp))

theorem key_of_mem (h : Mirrors key ids c c') (hk : k ∈ c'.tasks) : k.key = key := by
  rw [h.tasks] at hk
  obtain ⟨i, hi, rfl⟩ := List.mem_map.mp hk
  exact of_decide_eq_true (List.mem_filter.mp hi).2

theorem attempt?_eq (h : Mirrors key ids c c') (hn' : c'.books.Numbered)
    (ha : c.about? e = some key) : c'.attempt? (e.renumber ids.idxOf) = c.attempt? e := by
  cases e with
  | begin id =>
    obtain ⟨k, hk, hkey⟩ := Option.map_eq_some_iff.mp ha
    obtain rfl := id_of_task? hk
    have hk' := h.task? hn' hk hkey
    simp only [attempt?, Event.renumber, hk, hk', h.settings.1]
    obtain ⟨id, root, _ | _ | _ | _⟩ := k <;> rfl
  | _ => rfl

theorem roots_started (h : Mirrors key ids c c') (hn : c.books.Numbered)
    (hn' : c'.books.Numbered) (ha : c.about? e = some key) {e' : Event}
    (hs : Mirrors key (c.numbers key ids e) (c.step e) (c'.step e')) :
    (c'.started e').map Task.root = (c.started e).map Task.root := by
  have hnext := hs.nextId
  rw [numbers, filter_started hn, if_pos ha] at hnext
  rcases started_cases hn e with ⟨-, ht⟩ | ⟨key₁, ha₁, -, ht, -⟩
  · rcases started_cases hn' e' with ⟨-, ht'⟩ | ⟨_, -, hid', -, -⟩
    · rw [ht, ht']
    · simp [ht, hid', h.nextId] at hnext
  · rcases started_cases hn' e' with ⟨hid', -⟩ | ⟨key₂, -, -, ht', hk₂⟩
    · simp [ht, hid', h.nextId] at hnext
    · have hm : (⟨c'.nextId, key₂, .scheduled⟩ : Task) ∈ c'.started e' := by
        rw [ht']
        exact List.mem_singleton.mpr rfl
      have hkey := hs.key_of_mem (List.mem_of_mem_filter hm)
      obtain rfl : key₂ = key := hk₂.symm.trans hkey
      obtain rfl : key₁ = key₂ := Option.some.inj (ha₁.symm.trans ha)
      rw [ht, ht']
      rfl

/-- Where the second editor gives the answers that the first has given in the step, the streams
are read alike, and the answers behind these are left. -/
theorem answered (h : Mirrors key ids c c') (hn' : c'.books.Numbered)
    (ha : c.about? e = some key) (hc : c'.editor.closed = c.editor.closed)
    (hl : ∀ t, c'.editor.next t = c.editor.answered (c.step e).editor t ++ answers t)
    (hend : ∀ t, (c.step e).editor.next t = [] → answers t = []) :
    (∀ k r f, e.reads? = some (k.id, f) → c.task? k.id = some k → k.phase = .reading r →
      (f r c'.editor).1 = (f r c.editor).1) ∧
    ∀ t, (c'.step (e.renumber ids.idxOf)).editor.next t = answers t := by
  have he' := Event.reads?_renumber ids.idxOf e
  cases he : e.reads? with
  | none =>
    rw [he] at he'
    constructor
    · rintro k r f ⟨⟩
    · intro t
      rw [(step_move c' (e.renumber ids.idxOf)).next he' t, hl,
        Editor.answered_of_eq ((step_move c e).next he t), List.nil_append]
  | some read =>
    obtain ⟨i, f⟩ := read
    rw [he] at he'
    obtain ⟨hs, hf⟩ := step_of_reads? he
    rw [(step_of_reads? he').1]
    rw [hs] at hl hend
    obtain ⟨k, hk, hkey⟩ := Option.map_eq_some_iff.mp ((about?_of_reads? he).symm.trans ha)
    obtain rfl := id_of_task? hk
    have hk' := h.task? hn' hk hkey
    obtain ⟨id, root, phase⟩ := k
    dsimp only [Task.renumber] at hk hk' hl hend ⊢
    unfold Coordinator.read at hl hend ⊢
    rw [hk] at hl hend
    rw [hk']
    cases phase with
    | reading r =>
      obtain ⟨hr, hleft⟩ := (hf r).answered hc hl hend
      refine ⟨?_, hleft⟩
      rintro k _ _ ⟨⟩ hk₁ hp
      rw [← Option.some.inj (hk.symm.trans hk₁)] at hp
      cases hp
      exact hr
    | _ =>
      refine ⟨?_, fun t => ?_⟩
      · rintro k _ _ ⟨⟩ hk₁ hp
        rw [← Option.some.inj (hk.symm.trans hk₁)] at hp
        cases hp
      · rw [hl, Editor.answered_of_eq rfl, List.nil_append]

/-- The steps that are about the root, made beside an editor that gives the same answers to
them, have the same outcome for the root. -/
theorem run (h : Mirrors key ids c c') (hn : c.books.Numbered) (hn' : c'.books.Numbered)
    (hc : c'.editor.closed = c.editor.closed) {before after : List Event}
    (hl : ∀ t, c'.editor.next t = c.answersTo key (before ++ after) t) :
    (∃ ids', Mirrors key ids' (c.run before) (c'.run (c.only key ids before))) ∧
    c'.attempts (c.only key ids before) =
      (c.attempts before).filter (·.directory = some key) ∧
    (c'.starts (c.only key ids before)).map Task.root =
      ((c.starts before).filter (·.key = key)).map Task.root := by
  induction before generalizing c c' ids with
  | nil => exact ⟨⟨ids, h⟩, rfl, rfl⟩
  | cons e es ih =>
    have hm := step_move c e
    have hdir : (c.attempt? e).toList.filter (·.directory = some key) =
        if c.about? e = some key then (c.attempt? e).toList else [] := by
      cases hs : c.attempt? e with
      | none => simp
      | some s => simp [← directory_of_attempt? e hs, List.filter_cons]
    simp only [List.cons_append, answersTo] at hl
    rw [only, attempts, starts, List.filter_append, List.filter_append, hdir, filter_started hn]
    by_cases ha : c.about? e = some key
    · simp only [if_pos ha] at hl ⊢
      have hend (t : Editor.Entry) (hnil : (c.step e).editor.next t = []) :=
        answersTo_of_nil hnil key (es ++ after)
      obtain ⟨hr, hleft⟩ := h.answered hn' ha hc hl hend
      have hs := h.own hn hn' ha hr
      have hm' := step_move c' (e.renumber ids.idxOf)
      obtain ⟨hrun, hatt, hst⟩ := ih hs (hn.step hm) (hn'.step hm')
        (hm'.later.closed.trans (hc.trans hm.later.closed.symm)) hleft
      refine ⟨hrun, ?_, ?_⟩
      · rw [List.singleton_append, attempts, hatt, h.attempt?_eq hn' ha]
      · rw [List.singleton_append, starts, List.map_append, List.map_append, hst,
          h.roots_started hn hn' ha hs]
    · simp only [if_neg ha, List.nil_append] at hl
      simp only [if_neg ha, List.nil_append, numbers_other hn ha]
      exact ih (h.other hn hm ha) (hn.step hm) hn' (hc.trans hm.later.closed.symm) hl

end Mirrors

theorem mirrors_fresh (t : Toolchain) (roots : List Text) (sf : Bool) (ed : Editor) (x : Indices)
    (key : Text) (answers : Editor.Entry → List Bool) : Mirrors key [] (fresh t roots sf ed x)
      (fresh t roots sf (ed.answering answers) x) where
  settings := ⟨rfl, rfl, rfl⟩
  tasks := rfl
  nextId := rfl
  known _ hk := absurd hk List.not_mem_nil
  old _ hid := absurd hid List.not_mem_nil
  inflight := rfl
  inflight_known := nofun
  pending := rfl
  finished := rfl

/-- Whatever is done about other roots, a root has the sessions, and shows the builds, that it
has and shows when only the steps that are about it are made, beside an editor that gives the
same answers to its sessions. So it is after any of the steps, in both modes. -/
theorem run_only {t : Toolchain} {roots : List Text} {sf : Bool} {ed : Editor} {x : Indices}
    {root key : Text} {before after events : List Event} {all alone c c' : Coordinator}
    (hkey : Path.rootKey root = key) (hall : fresh t roots sf ed x = all)
    (halone : fresh t roots sf (ed.answering (all.answersTo key (before ++ after))) x = alone)
    (he : all.only key [] before = events) (hc : all.run before = c)
    (hc' : alone.run events = c') :
    ((∀ k, ed.next k = []) → alone = all) ∧
    (alone.starts events).map Task.root =
      ((all.starts before).filter (·.key = key)).map Task.root ∧
    alone.attempts events = (all.attempts before).filter (·.directory = some key) ∧
    c'.tasks.map (fun k => (k.root, k.phase)) =
      (c.tasks.filter (·.key = key)).map (fun k => (k.root, k.phase)) ∧
    (key ∈ c'.pending ↔ key ∈ c.pending) ∧
    c'.finished.map Finish.content = (c.finished.filter (·.key = key)).map Finish.content ∧
    c'.indices.diagnostics.get root = c.indices.diagnostics.get root ∧
    c'.indices.symbols.forRoot root = c.indices.symbols.forRoot root := by
  have hn : all.books.Numbered := hall ▸ (accounted_fresh t roots sf ed x).numbered
  have hn' : alone.books.Numbered := halone ▸ (accounted_fresh t roots sf _ x).numbered
  have hfirst : Mirrors key [] all alone := by
    rw [← halone, ← hall]
    exact mirrors_fresh t roots sf ed x key _
  have hed : alone.editor = ed.answering (all.answersTo key (before ++ after)) := by
    rw [← halone]
    rfl
  have hed' : all.editor = ed := by
    rw [← hall]
    rfl
  obtain ⟨⟨ids, h⟩, hatt, hst⟩ := hfirst.run hn hn' (by rw [hed, hed']; rfl)
    fun t => by rw [hed, Editor.next_answering]
  rw [he] at h hatt hst
  rw [hc, hc'] at h
  have hx : c'.indices.AgreeOn key c.indices := by
    have hl := ledger_run t roots sf ed x before
    have hl' := ledger_run t roots sf (ed.answering (all.answersTo key (before ++ after))) x events
    rw [hall, hc] at hl
    rw [halone, hc'] at hl'
    rw [hl'.indices, hl.indices, foldl_publish_congr h.finished]
    exact agreeOn_filter x key c.finished
  refine ⟨fun hnil => ?_, hst, hatt, ?_, ?_, h.finished, ?_, ?_⟩
  · have hanswers : all.answersTo key (before ++ after) = ed.next :=
      funext fun k => (answersTo_of_nil (hed' ▸ hnil k) _ _).trans (hnil k).symm
    rw [← halone, hanswers]
    exact hall
  · rw [h.tasks, List.map_map]
    rfl
  · rw [← List.count_pos_iff, h.pending, List.count_pos_iff]
  · rw [DiagnosticIndex.get, DiagnosticIndex.get, OrderedMap.getD, OrderedMap.getD, hkey, hx.1]
  · rw [SymbolIndex.forRoot, SymbolIndex.forRoot, OrderedMap.getD, OrderedMap.getD, hkey, hx.2]

end Coordinator

end

open Build Surroundings in
/-- A root inside another one, whose process cannot be started, is asked for again while it is
built. -/
theorem Coordinator.run_only_of_nested :
    ∃ before events : List Event, ∃ c c' : Coordinator,
      (fresh default [] true {} {}).only "/a/b" [] before = events ∧
      before.length = 14 ∧ events.length = 10 ∧
      (fresh default [] true {} {}).run before = c ∧ (fresh default [] true {} {}).run events = c' ∧
      c.tasks.map Task.id = [2] ∧ c'.tasks.map Task.id = [1] ∧
      c.indices.diagnostics.count "/a/b" = 1 ∧
      c'.indices.diagnostics.get "/a/b" = c.indices.diagnostics.get "/a/b" := by
  obtain ⟨before, events, he, hb, hl, ht, ht', hd⟩ : ∃ before events,
      (fresh default [] true {} {}).only "/a/b" [] before = events ∧
      before.length = 14 ∧ events.length = 10 ∧
      ((fresh default [] true {} {}).run before).tasks.map Task.id = [2] ∧
      ((fresh default [] true {} {}).run events).tasks.map Task.id = [1] ∧
      ((fresh default [] true {} {}).run before).indices.diagnostics.count "/a/b" = 1 := by
    refine ⟨[.trigger "/a" true, .trigger "/a/b" true, .begin 0, .begin 1,
      .launch 0 (.error (.refused "gone")), .trigger "/a/./b" true,
      .launch 1 (.ok { out := DiagnosticRecord.printed ⟨"a", default, "m"⟩, exit := .status 1 }),
      .output 1 200, .settle 0 true, .output 1 0, .drain 1 0, .exit 1, .settle 1 true,
      .begin 2], _, rfl, ?_⟩
    decide +kernel
  have halone : fresh default [] true (({} : Editor).answering
      ((fresh default [] true {} {}).answersTo "/a/b" (before ++ []))) {} =
      fresh default [] true {} {} := by
    have hanswers : (fresh default [] true {} {}).answersTo "/a/b" (before ++ []) = fun _ => [] :=
      funext fun k => answersTo_of_nil (by cases k <;> rfl) _ _
    exact congrArg (fun answers => fresh default [] true (Editor.answering {} answers) {}) hanswers
  have hkey : Path.rootKey "/a/b" = Text.ofString "/a/b" := by decide +kernel
  obtain ⟨-, -, -, -, -, -, hx, -⟩ := run_only hkey rfl halone he rfl rfl
  exact ⟨before, events, _, _, he, hb, hl, rfl, rfl, ht, ht', hd, hx⟩

end Workbench
