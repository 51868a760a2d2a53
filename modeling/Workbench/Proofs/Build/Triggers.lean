import Workbench.Proofs.Build.Due
import Workbench.Proofs.Path.Within

/-! # Which files are built where

A file that is saved or opened asks for a build if it is a source and the first of the roots that
hold it has a manifest. The request is answered by a new task for that root, or with single flight
by the task that is in flight for it, and a process is started in the root. Any other file leaves
everything as it is. What holds a file is told from its path once it is decoded and resolved.
-/

namespace Workbench

open Build OrderedMap Workbench.Path

/-! ## Files that ask for builds -/

/-- The last component of the path is something and, behind it, the suffix of sources. -/
def IsSource (path : Text) : Prop :=
  ∃ stem, stem ≠ [] ∧ (PathName.ofText path).name = stem ++ Coordinator.sourceSuffix

theorem isSource_iff {path : Text} :
    IsSource path ↔ (PathName.ofText path).suffix = Coordinator.sourceSuffix :=
  (@PathName.suffix_eq_iff _ (Text.ofString "reproto") (by decide) (by decide)).symm

instance (path : Text) : Decidable (IsSource path) := decidable_of_iff _ isSource_iff.symm

section

variable [Surroundings]

def FirstHolding (roots : List Text) (path root : Text) : Prop :=
  Holds root path ∧ ∃ before after, roots = before ++ root :: after ∧ ∀ r ∈ before, ¬ Holds r path

def World.HoldsManifest (w : World) (root : Text) : Prop :=
  render (leading root) (components root ++ [Coordinator.manifestName]) ∈ w.files.keys

/-- The file of a URI asks for a build of one of the roots that are configured. -/
structure Asks (roots : List Text) (w : World) (uri path root : Text) : Prop where
  leads : Uri.toPath uri = .ok path
  source : IsSource path
  first : FirstHolding (roots.map absolute) path root
  manifest : w.HoldsManifest root

theorem FirstHolding.absolute_eq {roots : List Text} {path root : Text}
    (h : FirstHolding (roots.map absolute) path root) : absolute root = root := by
  obtain ⟨-, before, after, hr, -⟩ := h
  have hm : root ∈ roots.map absolute := hr ▸ List.mem_append_right before List.mem_cons_self
  obtain ⟨r, -, rfl⟩ := List.mem_map.mp hm
  exact absolute_absolute r

/-! ## The root of a file -/

namespace Coordinator

variable {c : Coordinator} {uri path root : Text}

theorem owningRoot_eq_some_iff :
    c.owningRoot path = some root ↔ FirstHolding c.roots path root := by
  rw [owningRoot, List.find?_eq_some_iff_append, FirstHolding, holds_iff_isWithin]
  simp only [Bool.not_eq_true', ← Bool.not_eq_true, ← holds_iff_isWithin]

theorem rootOf_of_toPath (h : Uri.toPath uri = .ok path) :
    c.rootOf uri = .ok (if IsSource path then c.owningRoot path else none) := by
  rw [rootOf, h]
  simp only [isSource_iff]

/-- The root of a file is the first that holds it, if the file is a source. -/
theorem rootOf_eq_some_iff : c.rootOf uri = .ok (some root) ↔
    ∃ path, Uri.toPath uri = .ok path ∧ IsSource path ∧ FirstHolding c.roots path root := by
  cases hp : Uri.toPath uri with
  | error f => simp [rootOf, hp]
  | ok path =>
    rw [rootOf_of_toPath hp]
    by_cases hs : IsSource path
    · simp [hs, owningRoot_eq_some_iff]
    · simp [hs]

end Coordinator

/-! ## The answer to a request -/

namespace Scheduler

open Coordinator

variable {s s' s'' : Scheduler} {c₀ : Coordinator} {e : Event} {uri root : Text} {id : Nat}

theorem hasManifest_iff (hr : absolute root = root) :
    s.hasManifest root ↔ s.world.HoldsManifest root := by
  have hn : components manifestName = [manifestName] := by decide
  have ha : ¬ isAbsolute manifestName := by decide
  have hne : join root manifestName ≠ [] := join_ne_nil (by decide)
  rw [hasManifest, hr, manifestPath, World.isFile, World.HoldsManifest,
    absolute_join_name hr hn ha (by decide), Bool.and_eq_true, contains_iff]
  simp [hne]

theorem apply_of_nextId (h : (s.coordinator.step e).nextId = s.coordinator.nextId) :
    s.apply e = { s with coordinator := s.coordinator.step e } := by
  simp [apply, newJobs, enqueue, h]

theorem apply_of_start (h : s.coordinator.step e = s.coordinator.start root) :
    s.apply e = { s with coordinator := s.coordinator.start root }.enqueue
      [.begin s.coordinator.nextId] := by
  simp [apply, newJobs, h, start]

/-- A request for a root is answered by a new task, or with single flight by the one in flight. -/
inductive Answered (s : Scheduler) (root : Text) : Scheduler → Nat → Prop where
  | started (hf : s.coordinator.singleFlight = false ∨ s.coordinator.inflight.get? root = none) :
      Answered s root ({ s with coordinator := s.coordinator.start root }.enqueue
        [.begin s.coordinator.nextId]) s.coordinator.nextId
  | kept {id : Nat} (hs : s.coordinator.singleFlight = true)
      (hi : s.coordinator.inflight.get? root = some id) :
      Answered s root { s with coordinator := { s.coordinator with
        pending := s.coordinator.pending.insert root } } id

theorem rebuild_of_manifest (h : s.coordinator.rootOf uri = .ok (some root))
    (hr : absolute root = root) (hm : s.hasManifest root) :
    ∃ s' id, s.rebuild uri = .ok (s', some id) ∧ s.Answered root s' id := by
  have hkey : rootKey root = root := (rootKey_eq_absolute root).trans hr
  have htouch : s.coordinator.touch uri true = s.coordinator.trigger root true := by
    rw [touch, h]
  have hreb : s.rebuild uri =
      .ok (s.apply (.touch uri true), (s.coordinator.touch uri true).2) := by
    rw [rebuild, h, ← hm]
    rfl
  have hstep : s.coordinator.step (.touch uri true) = (s.coordinator.trigger root true).1 :=
    congrArg Prod.fst htouch
  rw [htouch] at hreb
  have hstart (hf : s.coordinator.singleFlight = false ∨ s.coordinator.inflight.get? root = none)
      (ht : s.coordinator.trigger root true =
        (s.coordinator.start root, some s.coordinator.nextId)) :
      ∃ s' id, s.rebuild uri = .ok (s', some id) ∧ s.Answered root s' id := by
    rw [ht] at hstep hreb
    rw [apply_of_start hstep] at hreb
    exact ⟨_, _, hreb, .started hf⟩
  cases hs : s.coordinator.singleFlight with
  | false =>
    refine hstart (.inl hs) ?_
    simp [trigger, hr, hs]
  | true =>
    cases hi : s.coordinator.inflight.get? root with
    | none =>
      refine hstart (.inr hi) ?_
      simp [trigger, hr, hkey, hi]
    | some id =>
      have ht : s.coordinator.trigger root true =
          ({ s.coordinator with pending := s.coordinator.pending.insert root }, some id) := by
        simp [trigger, hr, hkey, hs, hi]
      rw [ht] at hstep hreb
      have happly := apply_of_nextId (s := s) (e := .touch uri true) (by rw [hstep])
      rw [hstep] at happly
      rw [happly] at hreb
      exact ⟨_, _, hreb, .kept hs hi⟩

theorem rebuild_of_no_manifest
    (h : ∀ root, s.coordinator.rootOf uri = .ok (some root) → ¬ s.hasManifest root) :
    s.rebuild uri = .ok (s, none) ∨
      ∃ f, Uri.toPath uri = .error f ∧ s.rebuild uri = .error (.reference f) := by
  rcases hu : Uri.toPath uri with f | path
  · refine .inr ⟨f, rfl, ?_⟩
    rw [rebuild, rootOf, hu]
    rfl
  refine .inl ?_
  rcases hr : s.coordinator.rootOf uri with cr | _ | root
  · rw [rootOf_of_toPath hu] at hr
    cases hr
  · rw [rebuild, hr]
    rfl
  · have hm : s.hasManifest root = false := Bool.eq_false_iff.mpr (h root hr)
    have htouch : s.coordinator.touch uri false = (s.coordinator, none) := by
      rw [touch, hr]
      rfl
    have hstep : s.coordinator.step (.touch uri false) = s.coordinator :=
      congrArg Prod.fst htouch
    have happly : s.apply (.touch uri false) = s := by
      rw [apply_of_nextId (congrArg Coordinator.nextId hstep), hstep]
    have hreb : s.rebuild uri =
        .ok (s.apply (.touch uri false), (s.coordinator.touch uri false).2) := by
      rw [rebuild, hr, ← hm]
      rfl
    rw [hreb, happly, htouch]

namespace Answered

theorem mem_heads (h : s.Answered root s' id) (hl : s.coordinator.Led) :
    (id, root) ∈ s'.coordinator.books.heads := by
  cases h with
  | started =>
    change (s.coordinator.nextId, root) ∈ (s.coordinator.start root).books.heads
    rw [books_start]
    exact List.mem_append_right _ List.mem_cons_self
  | kept hs hi => exact hl.inflight root id hi

theorem world_eq (h : s.Answered root s' id) : s'.world = s.world := by
  cases h with
  | started | kept => rfl

theorem due (h : s.Answered root s' id) (hl : s.coordinator.Led)
    (hc : ∃ es, s'.coordinator = c₀.run es) (hm : s.hasManifest root) :
    s'.Due c₀ root s.world.spawned := by
  refine ⟨hc, ?_, [], ?_, .inr ?_⟩
  · rw [hasManifest_congr (congrArg World.files h.world_eq), hm]
  · rw [h.world_eq, List.append_nil]
  · have hh := h.mem_heads hl
    cases h with
    | started => exact .scheduled (mem_start.mpr (.inr rfl))
    | kept => exact .kept hh (List.mem_insert_self)

theorem spawned_begin (h : s.Answered root s' id) (hl : s.coordinator.Led)
    (ha : s'.coordinator.Accounted) (hr : s'.Reaches s'') {k : Task}
    (hk : s''.coordinator.task? id = some k) : k.root = root ∧
      (s''.begin id).world.spawned =
        s''.world.spawned ++ [s.coordinator.toolchain.buildIn root] := by
  have hn := (accounted_of_reaches ha hr).numbered
  obtain ⟨es, hes⟩ := hr
  have htool : s''.coordinator.toolchain = s.coordinator.toolchain := by
    rw [hes, (settings_run _ es).1]
    cases h with
    | started | kept => rfl
  have hroot : k.root = root := root_of_run ha.numbered (h.mem_heads hl) (hes ▸ hk)
  rw [Scheduler.spawned_begin hn hk, htool, hroot]
  exact ⟨rfl, rfl⟩

end Answered

theorem exists_asks_iff {roots : List Text} (hr : s.coordinator.roots = roots.map absolute) :
    (∃ path, Asks roots s.world uri path root) ↔
      s.coordinator.rootOf uri = .ok (some root) ∧ s.hasManifest root := by
  rw [rootOf_eq_some_iff, hr]
  constructor
  · rintro ⟨path, hu, hs, hf, hm⟩
    exact ⟨⟨path, hu, hs, hf⟩, (hasManifest_iff hf.absolute_eq).mpr hm⟩
  · rintro ⟨⟨path, hu, hs, hf⟩, hm⟩
    exact ⟨path, hu, hs, hf, (hasManifest_iff hf.absolute_eq).mp hm⟩

/-- Whatever has been done, a file that is saved or opened has a build started, or kept behind
the one in flight, just when it asks for one. The task that answers builds the first root that
holds the file and has started a process in that root when all is done. Any other file leaves
everything as it is. That root ends at a slash of the path, once `..` is resolved. -/
theorem rebuild_builds_owner {t : Toolchain} {roots : List Text} {sf : Bool} {ed : Editor}
    {x : Indices} {w : World} {acts : List Act} (hs : (fresh t roots sf ed x w).after acts = s)
    (uri : Text) :
    (∀ path root, Asks roots s.world uri path root →
      ∃ s' id, s.rebuild uri = .ok (s', some id) ∧ s.Answered root s' id ∧
        (∀ s'' k, s'.Reaches s'' → s''.coordinator.task? id = some k → k.root = root ∧
          (s''.begin id).world.spawned = s''.world.spawned ++ [t.buildIn root]) ∧
        ∃ later, s'.finish.world.spawned = s.world.spawned ++ later ∧ t.buildIn root ∈ later) ∧
    ((∀ path root, ¬ Asks roots s.world uri path root) → s.rebuild uri = .ok (s, none) ∨
      ∃ f, Uri.toPath uri = .error f ∧ s.rebuild uri = .error (.reference f)) ∧
    ((∃ s' id, s.rebuild uri = .ok (s', some id)) ↔
      ∃ path root, Asks roots s.world uri path root) ∧
    ∀ path root, Asks roots s.world uri path root → dotDot ∉ components (absolute path) ∧
      (absolute path = root ∨ components root = [] ∨ root ++ [slash] <+: absolute path) := by
  have htended : s.Tended := hs ▸ (tended_fresh t roots sf ed x w).after acts
  -- What has been done is a run of the coordinator, so its settings and books are known.
  obtain ⟨es, hes⟩ : (fresh t roots sf ed x w).Reaches s := hs ▸ reaches_after _ acts
  change s.coordinator = (Coordinator.fresh t roots sf ed x).run es at hes
  have hled : s.coordinator.Led := hes ▸ run_induction (led_fresh t roots sf ed x) Led.step es
  obtain ⟨htool, hroots, -⟩ := settings_run (Coordinator.fresh t roots sf ed x) es
  rw [← hes] at htool hroots
  change s.coordinator.toolchain = t at htool
  have hasks (path root : Text) (h : Asks roots s.world uri path root) :=
    (exists_asks_iff hroots).mp ⟨path, h⟩
  have hnone (h : ∀ path root, ¬ Asks roots s.world uri path root) :
      s.rebuild uri = .ok (s, none) ∨
        ∃ f, Uri.toPath uri = .error f ∧ s.rebuild uri = .error (.reference f) := by
    refine rebuild_of_no_manifest fun root hr hm => ?_
    obtain ⟨path, ha⟩ := (exists_asks_iff hroots).mpr ⟨hr, hm⟩
    exact h path root ha
  refine ⟨fun path root h => ?_, hnone, ⟨?_, ?_⟩, fun path root h => ?_⟩
  · obtain ⟨hr, hm⟩ := hasks path root h
    obtain ⟨s', id, hreb, hans⟩ := rebuild_of_manifest hr h.first.absolute_eq hm
    have hact : s.act (.rebuild uri) = s' := by
      rw [act, hreb]
    have htended' : s'.Tended := hact ▸ htended.act (.rebuild uri)
    have hreach : ∃ es, s'.coordinator = (Coordinator.fresh t roots sf ed x).run es := by
      obtain ⟨es', hes'⟩ := reaches_rebuild hreb
      exact ⟨es ++ es', by rw [hes', hes, run_append]⟩
    -- The request is answered, so a build is due, and it is made before the last task has ended.
    have hdue := hans.due hled hreach hm
    refine ⟨s', id, hreb, hans, fun s'' k hs'' hk => ?_, ?_⟩
    · exact htool ▸ hans.spawned_begin hled htended'.accounted hs'' hk
    · exact hdue.spawned_finish (sound_run t roots sf ed x) htended'.tasks_finish
  · rintro ⟨s', id, hreb⟩
    by_contra hno
    rcases hnone fun path root h => hno ⟨path, root, h⟩ with h | ⟨f, -, h⟩
    · rw [h] at hreb
      cases hreb
    · rw [h] at hreb
      cases hreb
  · rintro ⟨path, root, h⟩
    obtain ⟨hr, hm⟩ := hasks path root h
    obtain ⟨s', id, hreb, -⟩ := rebuild_of_manifest hr h.first.absolute_eq hm
    exact ⟨s', id, hreb⟩
  · exact ⟨dotDot_not_mem_absolute path, h.first.1.text h.first.absolute_eq⟩

/-- A world with a manifest in each of two directories, the name of one beginning the other. -/
def neighbours : World := { files := ⟨[("/ws/reproto.toml", ""), ("/ws2/reproto.toml", "")]⟩ }

end Scheduler

end

open Surroundings in
theorem Scheduler.rebuild_builds_owner_of_escaped_dots :
    ∃ s, (fresh default ["/ws", "/ws2"] true {} {} neighbours).after [] = s ∧
      Asks ["/ws", "/ws2"] s.world "file:///ws/%2e%2e/ws2/x.reproto" "/ws/../ws2/x.reproto"
        "/ws2" ∧
      (∀ path, ¬ Asks ["/ws", "/ws2"] s.world "file:///ws/%2e%2e/ws2/x.reproto" path "/ws") ∧
      ∃ s' id, s.rebuild "file:///ws/%2e%2e/ws2/x.reproto" = .ok (s', some id) ∧
        Toolchain.buildIn default "/ws2" ∈ s'.finish.world.spawned := by
  have hs : (fresh default ["/ws", "/ws2"] true {} {} neighbours).after [] =
      fresh default ["/ws", "/ws2"] true {} {} neighbours := rfl
  have hu : Uri.toPath "file:///ws/%2e%2e/ws2/x.reproto" = .ok "/ws/../ws2/x.reproto" := by
    decide +kernel
  have hasks : Asks ["/ws", "/ws2"] neighbours "file:///ws/%2e%2e/ws2/x.reproto"
      "/ws/../ws2/x.reproto" "/ws2" := by
    refine ⟨hu, by decide +kernel, ⟨by decide +kernel, ["/ws"], [], by decide +kernel, ?_⟩, ?_⟩
    · decide +kernel
    · unfold World.HoldsManifest
      decide +kernel
  obtain ⟨hbuild, -⟩ := rebuild_builds_owner hs "file:///ws/%2e%2e/ws2/x.reproto"
  obtain ⟨s', id, hreb, -, -, later, hspawned, hlater⟩ := hbuild _ _ hasks
  refine ⟨_, hs, hasks, ?_, s', id, hreb, ?_⟩
  · intro path h
    obtain rfl := Except.ok.inj (hu.symm.trans h.leads)
    exact absurd h.first.1 (by decide +kernel)
  · rw [hspawned]
    exact List.mem_append_right _ hlater

end Workbench
