import Workbench.Command.Run
import Workbench.Proofs.Build.Order
import Workbench.Proofs.Discovery.Locate

/-! # The status of a build command

A build command starts a session for each root that has a manifest. Its status tells of the
sessions that have a result: whether there are any, and whether all their processes have
succeeded. Of a session without a result it tells only where no other has one. In which order the
sessions take their steps does not matter.
-/

namespace Workbench

open Build

/-! ## Sessions of a request -/

section

variable [Surroundings]

def World.buildable (w : World) (roots : List Text) : List Text :=
  (roots.map Path.absolute).filter fun root => w.isFile (Coordinator.manifestPath root)

/-- The sessions that builds of roots start, by the root and the attempt to start the process. -/
def World.sessions (w : World) (roots : List Text) : List (Text × Start) :=
  (w.buildable roots).zipIdx.map fun p => (p.1, w.startAt p.2)

def World.requests (w : World) (roots : List Text) : List Event :=
  roots.map fun root => .trigger root (w.isFile (Coordinator.manifestPath (Path.absolute root)))

theorem World.buildable_absolute (w : World) (roots : List Text) :
    w.buildable (roots.map Path.absolute) = w.buildable roots := by
  simp only [buildable, List.map_map, Function.comp_def, Path.absolute_absolute]

namespace Scheduler

variable {s : Scheduler}

theorem build_eq (hsf : s.coordinator.singleFlight = false) (root : Text) :
    ((s.build root).1.coordinator, (s.build root).2) =
      if s.hasManifest root then
        (s.coordinator.start (Path.absolute root), some s.coordinator.nextId)
      else (s.coordinator, none) := by
  rw [build]
  simp only [apply, enqueue, Coordinator.step]
  cases s.hasManifest root with
  | false => rfl
  | true => simp [Coordinator.trigger, hsf]

theorem coordinator_buildEach (s : Scheduler) (roots : List Text) :
    (s.buildEach roots).1.coordinator = s.coordinator.run (s.world.requests roots) := by
  induction roots generalizing s with
  | nil => rfl
  | cons root roots ih => exact ih (s.build root).1

theorem buildEach_eq (hsf : s.coordinator.singleFlight = false) (roots : List Text) :
    (s.buildEach roots).1.coordinator.books.heads = s.coordinator.books.heads ++
        ((s.world.buildable roots).zipIdx s.coordinator.nextId).map Prod.swap ∧
      (s.buildEach roots).1.coordinator.nextId =
        s.coordinator.nextId + (s.world.buildable roots).length ∧
      (s.buildEach roots).1.coordinator.finished = s.coordinator.finished ∧
      (s.buildEach roots).2 =
        ((s.world.buildable roots).zipIdx s.coordinator.nextId).map Prod.snd := by
  induction roots generalizing s with
  | nil => simp [buildEach, World.buildable]
  | cons root roots ih =>
    have hb := build_eq hsf root
    have hw : (s.build root).1.world = s.world := rfl
    obtain ⟨hh, hn, hf, ht⟩ := ih (s := (s.build root).1)
      ((Coordinator.step_move s.coordinator (.trigger root _)).settings.2.2.trans hsf)
    rw [hw] at hh hn ht
    by_cases hm : s.hasManifest root
    · rw [if_pos hm] at hb
      obtain ⟨hc, ho⟩ := Prod.mk.inj hb
      have hroots : s.world.buildable (root :: roots) =
          Path.absolute root :: s.world.buildable roots :=
        List.filter_cons_of_pos hm
      rw [hc] at hh hn hf ht
      rw [hroots, List.zipIdx_cons]
      refine ⟨?_, ?_, hf, ?_⟩
      · rw [buildEach, hh, Coordinator.books_start, List.append_assoc]
        rfl
      · rw [buildEach, hn, List.length_cons]
        change s.coordinator.nextId + 1 + _ = _
        omega
      · rw [buildEach, ho, ht]
        rfl
    · rw [if_neg hm] at hb
      obtain ⟨hc, ho⟩ := Prod.mk.inj hb
      have hroots : s.world.buildable (root :: roots) = s.world.buildable roots :=
        List.filter_cons_of_neg hm
      rw [hc] at hh hn hf ht
      rw [hroots]
      refine ⟨hh, hn, hf, ?_⟩
      rw [buildEach, ho, ht]
      rfl

end Scheduler

/-! ## Searches -/

namespace Search

variable {s : Search} {e : Editor}

theorem open_attempt (h : e.Open) (w : World) : (s.attempt e w).2.1.Open := by
  have hr : (foldUntil Editor.appendLine e s.reportLines).1.Open :=
    (foldUntil_keeps (P := Editor.Open) (Q := fun _ => True)
      (fun e t h => ⟨(h.add .line t).1, fun _ _ => trivial⟩) h _).1
  unfold attempt
  split
  · exact h
  · unfold reportFailure
    rcases hf : foldUntil Editor.appendLine e s.reportLines with ⟨e', _ | c⟩ <;> rw [hf] at hr
    · exact (hr.call _).call _
    · exact hr

theorem open_again (h : e.Open) (w : World) : (s.again e w).2.1.Open := by
  obtain ⟨hopen, hnone⟩ := h.add .line "reactivating extension"
  unfold again
  rw [Editor.appendLine]
  rcases ha : e.add .line "reactivating extension" with ⟨e', _ | c⟩ <;> rw [ha] at hopen hnone
  · exact open_attempt hopen w
  · cases hnone

theorem open_locate {installer : Option Installer}
    (hi : ∀ install ∈ installer, ∀ e w, e.Open → (install e w).2.1.Open) (h : e.Open) (w : World) :
    (s.locate installer e w).2.1.Open := by
  have ha := s.open_attempt h w
  have hinstall {install : Installer} {e' e'' : Editor} {w' w'' : World} (hm : install ∈ installer)
      (hn : s.attempt e w = (.ok none, e', w'))
      (hs : (install e'.confirmInstall w').2 = (e'', w'')) : e''.Open := by
    rw [hn] at ha
    have hopen := hi install hm e'.confirmInstall w' (ha.call _)
    rw [hs] at hopen
    exact hopen
  have hending := s.ending_locate installer e w
  generalize s.locate installer e w = r at hending
  cases hending with
  | attempted => exact ha
  | declined hn =>
    rw [hn] at ha
    exact ha.call _
  | failed hn hm hs => exact hinstall hm hn hs
  | repeated hn hm hs => exact open_again (hinstall hm hn hs) _

end Search

namespace Command

/-! ## Builds of a command -/

variable {t : Toolchain} {roots : List Text} {e : Editor} {w : World}

/-- How the sessions of builds of roots end, each made on its own. -/
def endings (t : Toolchain) (roots : List Text) (w : World) : List (Except Problem BuildResult) :=
  (w.sessions roots).map fun s => aloneEnd t s.1 s.2

/-- What builds of roots may have come to, in any order of steps: each session that was asked for
has ended, and a session has learnt of the process that the world has for its number. -/
structure Built.Follows (b : Built) (t : Toolchain) (roots : List Text) (e : Editor) (w : World) :
    Prop where
  steps : ∃ events, b.coordinator = (Coordinator.fresh t roots false e {}).run
      (w.requests (roots.map Path.absolute) ++ events) ∧
    ∀ id start, (Coordinator.fresh t roots false e {}).Launched
      (w.requests (roots.map Path.absolute) ++ events) id start → start = w.startAt id
  tasks : b.tasks = (w.buildable roots).zipIdx.map Prod.snd
  ended : ∀ id ∈ b.tasks, id ∈ b.coordinator.finished.map Finish.task

theorem not_launched_requests {c : Coordinator} {id : Nat} {start : Start} (w : World)
    (roots : List Text) : ¬ c.Launched (w.requests roots) id start := by
  rintro ⟨before, after, k, s, he, -⟩
  have hm : Event.launch id start ∈ w.requests roots := by
    rw [he]
    exact List.mem_append_right _ List.mem_cons_self
  obtain ⟨root, -, hroot⟩ := List.mem_map.mp hm
  cases hroot

theorem run_requests (t : Toolchain) (roots : List Text) (e : Editor) (w : World) {c : Coordinator}
    (hc : (Coordinator.fresh t roots false e {}).run (w.requests (roots.map Path.absolute)) = c) :
    c.books.heads = (w.buildable roots).zipIdx.map Prod.swap ∧
      c.nextId = (w.buildable roots).length ∧ c.finished = [] := by
  obtain ⟨hh, hn, hf, -⟩ :=
    Scheduler.buildEach_eq (s := Scheduler.fresh t roots false e {} w) rfl (roots.map Path.absolute)
  rw [Scheduler.coordinator_buildEach] at hh hn hf
  subst hc
  refine ⟨hh.trans ?_, hn.trans ?_, hf⟩
  · rw [← w.buildable_absolute]
    rfl
  · rw [← w.buildable_absolute]
    exact Nat.zero_add _

/-- The order in which a command takes the steps is one of all. -/
theorem follows_buildWith (t : Toolchain) (roots : List Text) (e : Editor) (w : World) :
    (buildWith t roots e w).Follows t roots e w := by
  let asked := ((Scheduler.fresh t roots false e {} w).buildEach (roots.map Path.absolute)).1
  have hasked : asked.coordinator = (Coordinator.fresh t roots false e {}).run
      (w.requests (roots.map Path.absolute)) := Scheduler.coordinator_buildEach _ _
  have horderly := (Scheduler.orderly_fresh t roots false e {} w).buildEach
    (roots.map Path.absolute)
  obtain ⟨-, hnext, -, htasks⟩ :=
    Scheduler.buildEach_eq (s := Scheduler.fresh t roots false e {} w) rfl (roots.map Path.absolute)
  have htasks : (buildWith t roots e w).tasks = (w.buildable roots).zipIdx.map Prod.snd := by
    rw [← w.buildable_absolute]
    exact htasks
  obtain ⟨m, hfinish⟩ := horderly.restart.finish
  obtain ⟨events, hc, hstarts⟩ := hfinish.launched
  refine ⟨⟨events, ?_, fun id start hl => ?_⟩, htasks, fun id hid => ?_⟩
  · rw [Coordinator.run_append, ← hasked]
    exact hc
  · rcases hl.of_append with hl | hl
    · exact absurd hl (not_launched_requests w _)
    · exact hstarts id start (hasked ▸ hl)
  · have htended := (Scheduler.tended_fresh t roots false e {} w).buildEach
      (roots.map Path.absolute)
    have hle := asked.coordinator.nextId_le_run events
    rw [htasks] at hid
    obtain ⟨⟨root, id⟩, hp, rfl⟩ := List.mem_map.mp hid
    obtain ⟨hlt, -⟩ := List.getElem?_eq_some_iff.mp (List.mk_mem_zipIdx_iff_getElem?.mp hp)
    refine (hfinish.accounted.mem_iff id).mpr ⟨?_, by simp [htended.tasks_finish]⟩
    rw [hasked, (run_requests t roots e w rfl).2.1, ← hasked, ← hc] at hle
    exact hlt.trans_le hle

namespace Built.Follows

variable {b : Built}

theorem result? (h : b.Follows t roots e w) (he : e.Open) {root : Text} {id : Nat}
    (hp : (root, id) ∈ (w.buildable roots).zipIdx) :
    (b.result? id).map (·.exitCode) =
      (aloneEnd t root (w.startAt id)).toOption.map (·.exitCode) := by
  obtain ⟨events, hc, hstarts⟩ := h.steps
  obtain ⟨hheads, hnext, hnone⟩ := run_requests t roots e w rfl
  have hown := Coordinator.head_of_end hnone events
  rw [← Coordinator.run_append, ← hc, hheads, hnext] at hown
  have hroot := List.mk_mem_zipIdx_iff_getElem?.mp hp
  obtain ⟨hlt, -⟩ := List.getElem?_eq_some_iff.mp hroot
  obtain ⟨g, hg, hgid⟩ := List.mem_map.mp <|
    h.ended id (h.tasks ▸ List.mem_map_of_mem (f := Prod.snd) hp)
  rw [Built.result?]
  cases hf : List.find? _ _ with
  | none => exact absurd hgid (by simpa using List.find?_eq_none.mp hf g hg)
  | some f =>
    have hmem := List.mem_of_find?_eq_some hf
    obtain rfl : f.task = id := by simpa using List.find?_some hf
    -- The root of a task is that of its number, so the end is that of the session asked for.
    obtain ⟨⟨root', id⟩, hp', hswap⟩ := List.mem_map.mp (hown f hmem hlt)
    obtain ⟨rfl, rfl⟩ := Prod.mk.inj hswap
    obtain rfl := Option.some.inj (hroot.symm.trans (List.mk_mem_zipIdx_iff_getElem?.mp hp'))
    obtain ⟨start, hl, ho⟩ := Coordinator.outcome_alone he (hc ▸ hmem)
    rw [← hstarts _ _ hl, ← ho]
    simp [Option.map_map, Function.comp_def]

/-- The results are those of the sessions made on their own, without those that have none. -/
theorem results (h : b.Follows t roots e w) (he : e.Open) : b.results.map (·.exitCode) =
    (endings t roots w).filterMap fun r => r.toOption.map (·.exitCode) := by
  rw [Built.results, List.map_filterMap, h.tasks, endings, World.sessions, List.map_map,
    List.filterMap_map, List.filterMap_map]
  exact List.filterMap_congr fun ⟨root, id⟩ hp => h.result? he hp

end Built.Follows

omit [Surroundings] in
theorem mem_codes {ends : List (Except Problem BuildResult)} {code : Option Int} :
    code ∈ ends.filterMap (fun r => r.toOption.map (·.exitCode)) ↔
      ∃ r, .ok r ∈ ends ∧ r.exitCode = code := by
  rw [List.mem_filterMap]
  constructor
  · rintro ⟨f | r, hr, hc⟩
    · cases hc
    · exact ⟨r, hr, Option.some.inj hc⟩
  · rintro ⟨r, hr, rfl⟩
    exact ⟨_, hr, rfl⟩

theorem Built.Follows.succeeded {b : Built} (h : b.Follows t roots e w) (he : e.Open) :
    b.succeeded ↔ (∃ r, .ok r ∈ endings t roots w) ∧
      ∀ r, .ok r ∈ endings t roots w → r.exitCode = some 0 := by
  have hmem (code : Option Int) : code ∈ b.results.map (·.exitCode) ↔
      ∃ r, .ok r ∈ endings t roots w ∧ r.exitCode = code := by
    rw [h.results he]
    exact mem_codes
  have hs : b.succeeded ↔ (∃ code, code ∈ b.results.map (·.exitCode)) ∧
      ∀ code ∈ b.results.map (·.exitCode), code = some 0 := by
    simp [Built.succeeded, BuildResult.succeeded, List.eq_nil_iff_forall_not_mem]
  rw [hs]
  simp only [hmem]
  constructor
  · rintro ⟨⟨_, r, hr, -⟩, hall⟩
    exact ⟨⟨r, hr⟩, fun r hr => hall _ ⟨r, hr, rfl⟩⟩
  · rintro ⟨⟨r, hr⟩, hall⟩
    refine ⟨⟨_, r, hr, rfl⟩, ?_⟩
    rintro _ ⟨r, hr, rfl⟩
    exact hall r hr

def Context.locate (c : Context) (roots : List Text) (e : Editor) (w : World) :
    Told (Option Toolchain) :=
  (c.search w ((roots.map Path.absolute).headD [])).locate
    (if e.confirms then c.installer else none)
    e w

theorem Context.open_locate {c : Context} {roots : List Text} {e : Editor}
    (hi : ∀ install ∈ c.installer, ∀ e w, e.Open → (install e w).2.1.Open) (he : e.Open)
    (w : World) : (c.locate roots e w).2.1.Open := by
  refine Search.open_locate ?_ he w
  split_ifs
  · exact hi
  · exact nofun

theorem build_of_locate {c : Context} {e' : Editor} {w' : World}
    (hl : c.locate roots e w = (.ok (some t), e', w')) :
    ∃ e'' w'', build c roots e w =
      (.ok (some (buildWith t (roots.map Path.absolute) e' w')), e'', w'') := by
  rw [Context.locate] at hl
  rw [build, hl]
  exact ⟨_, _, rfl⟩

theorem endings_absolute (t : Toolchain) (roots : List Text) (w : World) :
    endings t (roots.map Path.absolute) w = endings t roots w := by
  rw [endings, endings, World.sessions, World.sessions, w.buildable_absolute]

theorem run_of_locate {argv : List Text} {installer : Option Installer} {i : Invocation}
    {s : Settings} {w' : World} (hp : parse argv = .ok i) (ht : i.task = .build roots)
    (hs : Settings.read [] w.env = .ok s)
    (hl : Context.locate ⟨i.over s, installer⟩ roots { confirms := i.install } w =
      (.ok (some t), e, w')) :
    ∃ w'', run argv installer w =
      .ok ⟨statusOf (buildWith t (roots.map Path.absolute) e w').succeeded,
        (buildWith t (roots.map Path.absolute) e w').report.indented ++ "\n", none, w''⟩ := by
  obtain ⟨e', w'', hb⟩ := build_of_locate hl
  refine ⟨w'', ?_⟩
  unfold run runInvocation
  rw [hp, hs]
  dsimp only
  rw [ht, runTask, withBuilds, hb]
  rfl

/-- Where a toolchain is found, a build command ends with status zero just if some session has
a result and all that have one come from processes that ended with status zero. Any order of the
steps that its sessions take comes to the same status. -/
theorem run_build {argv : List Text} {installer : Option Installer} {i : Invocation}
    {s : Settings} {w' : World} (hp : parse argv = .ok i) (ht : i.task = .build roots)
    (hs : Settings.read [] w.env = .ok s)
    (hi : ∀ install ∈ installer, ∀ e w, e.Open → (install e w).2.1.Open)
    (hl : Context.locate ⟨i.over s, installer⟩ roots { confirms := i.install } w =
      (.ok (some t), e, w')) :
    ∃ out, run argv installer w = .ok out ∧ (out.status = 0 ∨ out.status = 1) ∧
      (out.status = 0 ↔ (∃ r, .ok r ∈ endings t roots w') ∧
        ∀ r, .ok r ∈ endings t roots w' → r.exitCode = some 0) ∧
      ∀ b : Built, b.Follows t (roots.map Path.absolute) e w' →
        statusOf b.succeeded = out.status := by
  have hopen : e.Open := by
    have h : (Context.locate ⟨i.over s, installer⟩ roots { confirms := i.install } w).2.1.Open :=
      Context.open_locate hi (Editor.open_fresh i.install) w
    rw [hl] at h
    exact h
  obtain ⟨w'', hrun⟩ := run_of_locate hp ht hs hl
  have hsucc {b : Built} (h : b.Follows t (roots.map Path.absolute) e w') :
      b.succeeded ↔ (∃ r, .ok r ∈ endings t roots w') ∧
        ∀ r, .ok r ∈ endings t roots w' → r.exitCode = some 0 :=
    endings_absolute t roots w' ▸ h.succeeded hopen
  have hfirst := hsucc (follows_buildWith t (roots.map Path.absolute) e w')
  refine ⟨_, hrun, ?_, ?_, fun b hb => ?_⟩
  · cases (buildWith t (roots.map Path.absolute) e w').succeeded with
    | true => exact .inl rfl
    | false => exact .inr rfl
  · rw [← hfirst]
    cases (buildWith t (roots.map Path.absolute) e w').succeeded with
    | true => exact iff_of_true rfl rfl
    | false => exact iff_of_false nofun nofun
  · exact congrArg statusOf (Bool.eq_iff_iff.mpr ((hsucc hb).trans hfirst.symm))

end Command

end

open Surroundings in
/-- A build whose process ends with status three, and no other, is told of by the status. -/
theorem Command.run_build_of_status :
    ∃ (w : World) (out : Outcome), w.starts = [.ok { exit := .status 3 }] ∧
      run ["build", "/a"] none w = .ok out ∧ out.status = 1 := by
  obtain ⟨w, s, hstarts, hs, hl, hends⟩ : ∃ (w : World) (s : Settings),
      w.starts = [.ok { exit := .status 3 }] ∧ Settings.read [] w.env = .ok s ∧
      Context.locate ⟨Invocation.over ⟨none, none, false, .build ["/a"]⟩ s, none⟩ ["/a"] {} w =
        (.ok (some ⟨"/opt/reproto", some "/a"⟩), {}, w) ∧
      some 3 ∈ (endings ⟨"/opt/reproto", some "/a"⟩ ["/a"] w).filterMap
        fun r => r.toOption.map (·.exitCode) := by
    refine ⟨{ files := .ofList [("/a/reproto.toml", [])]
              env := [("REPROTO_EXECUTABLE", "/opt/reproto")]
              starts := [.ok { exit := .status 3 }] }, _, rfl, rfl, rfl, ?_⟩
    decide +kernel
  have hp : parse ["build", "/a"] = .ok ⟨none, none, false, .build ["/a"]⟩ := by decide +kernel
  obtain ⟨out, ho, hstatus, hzero, -⟩ :=
    run_build hp rfl hs (fun _ h => absurd h (Option.not_mem_none _)) hl
  obtain ⟨r, hr, hc⟩ := mem_codes.mp hends
  refine ⟨w, out, hstarts, ho, hstatus.resolve_left fun h => ?_⟩
  cases hc.symm.trans ((hzero.mp h).2 r hr)

open Surroundings in
/-- Where one process could not be started and the other has succeeded, the status is zero. -/
theorem Command.run_build_hides_failure :
    ∃ (i : Invocation) (s : Settings) (t : Toolchain) (e : Editor) (w : World) (out : Outcome),
      parse ["build", "/a", "/b"] = .ok i ∧ i.task = .build ["/a", "/b"] ∧
      Settings.read [] w.env = .ok s ∧
      Context.locate ⟨i.over s, none⟩ ["/a", "/b"] { confirms := i.install } w =
        (.ok (some t), e, w) ∧
      run ["build", "/a", "/b"] none w = .ok out ∧
      ¬ (out.status = 0 ↔ endings t ["/a", "/b"] w ≠ [] ∧
        ∀ x ∈ endings t ["/a", "/b"] w, ∃ r, x = .ok r ∧ r.exitCode = some 0) := by
  obtain ⟨w, s, hs, hl, ⟨out, ho, h0⟩, hends⟩ : ∃ (w : World) (s : Settings),
      Settings.read [] w.env = .ok s ∧
      Context.locate ⟨Invocation.over ⟨none, none, false, .build ["/a", "/b"]⟩ s, none⟩
        ["/a", "/b"] {} w = (.ok (some ⟨"/opt/reproto", some "/a"⟩), {}, w) ∧
      (∃ out, run ["build", "/a", "/b"] none w = .ok out ∧ out.status = 0) ∧
      none ∈ (endings ⟨"/opt/reproto", some "/a"⟩ ["/a", "/b"] w).map Except.toOption := by
    refine ⟨{ files := .ofList [("/a/reproto.toml", []), ("/b/reproto.toml", [])]
              env := [("REPROTO_EXECUTABLE", "/opt/reproto")]
              starts := [.error (.refused "Permission denied"), .ok {}] }, _, rfl, rfl,
    ⟨_, rfl, ?_⟩, ?_⟩
    · decide +kernel
    · decide +kernel
  refine ⟨_, s, _, {}, w, out, by decide +kernel, rfl, hs, hl, ho, fun h => ?_⟩
  obtain ⟨x, hx, hnone⟩ := List.mem_map.mp hends
  obtain ⟨r, rfl, -⟩ := (h.mp h0).2 x hx
  cases hnone

end Workbench
