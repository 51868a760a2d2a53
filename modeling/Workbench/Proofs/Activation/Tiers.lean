import Workbench.Activation
import Workbench.Proofs.Build.Failures
import Workbench.Proofs.Build.Spawns
import Workbench.Proofs.Discovery.Locate
import Workbench.Proofs.Language.Conversation

/-! # What an activation starts

A search starts no process. A toolchain that was located is asked for its version in the
first root, and the version decides, where the settings do not, who works from then on. Builds
start one process for each root that has a manifest. Beside a server nothing is ever built,
and a server that cannot be started or greeted leaves nothing but an error.
-/

namespace Workbench

open Workbench.Language

/-! ## Processes of a toolchain -/

section

variable [Surroundings]

namespace Toolchain

omit [Surroundings] in
theorem spawned_detect (t : Toolchain) (tool : Text) (w : World) :
    (t.detect tool w).2.spawned = w.spawned ++ [⟨t.command versionArgs, t.root⟩] :=
  w.spawned_spawn (t.command versionArgs) t.root

omit [Surroundings] in
theorem files_detect (t : Toolchain) (tool : Text) (w : World) :
    (t.detect tool w).2.files = w.files :=
  w.files_spawn (t.command versionArgs) t.root

theorem spawned_runInitCommand (t : Toolchain) (e : Editor) (w : World) :
    ∃ n, (t.runInitCommand e w).2.2.spawned =
      w.spawned ++ List.replicate n ⟨t.command initArgs, t.root⟩ := by
  have hspawned :
      (t.initProject (e.appendLine "Command: Initializing new project").1 w).2.2.spawned =
      w.spawned ++ [⟨t.command initArgs, t.root⟩] := by
    have h := w.spawned_spawn (t.command initArgs) t.root
    unfold initProject
    dsimp only
    split <;> exact h
  unfold runInitCommand
  split
  · exact ⟨0, (List.append_nil _).symm⟩
  · next e' ha =>
    rw [ha] at hspawned
    refine ⟨1, ?_⟩
    split <;> next h => rw [h] at hspawned; exact hspawned

end Toolchain

/-! ## Starts of a server -/

namespace LanguageClient

omit [Surroundings] in
theorem editor_start (c : LanguageClient) (s : Language.Script) :
    (c.start s).1.editor = c.editor := by
  unfold start
  dsimp only
  split
  · rfl
  · rfl
  · unfold greet
    dsimp only
    split
    · next h =>
      split at h <;> cases h
      rfl
    · next h =>
      split at h <;> cases h
      rfl

end LanguageClient

omit [Surroundings] in
theorem Settings.tier_eq (s : Settings) (version : Option Version) :
    s.tier version = s.type.getD (version.elim s.defaultType fun v =>
      let threshold := s.thresholdVersion
      if threshold.major ≤ v.major ∧ threshold.minor ≤ v.minor ∧ threshold.patch ≤ v.patch
      then .languageClient else .simple) := by
  unfold tier Tier.select
  cases s.type with
  | some tier => rfl
  | none =>
    cases version with
    | none => rfl
    | some v => simp [Version.meets, and_assoc]

namespace Activation

/-! ## Working -/

inductive Action where
  | save (uri : Text)
  | openDocument (uri : Text) (content : Option Text)
  | beginProject
  | close (server : Language.Script)

def act (a : Activation) : Action → Activation
  | .save uri => (a.save uri).toOption.getD a
  | .openDocument uri content => (a.openDocument uri content).toOption.getD a
  | .beginProject => a.beginProject.2
  | .close server => a.close server

def actAll (a : Activation) (actions : List Action) : Activation := actions.foldl act a

/-- The activation works for a toolchain with a server, and the processes that were started
since were to begin projects. -/
structure Serves (t : Toolchain) (before : List Spawn) (a : Activation) : Prop where
  toolchain : a.toolchain = t
  engine : ∃ c w n, a.engine = .server c w ∧
    w.spawned = before ++ List.replicate n ⟨t.command Toolchain.initArgs, t.root⟩

namespace Serves

variable {t : Toolchain} {before : List Spawn} {a : Activation}

theorem act (h : a.Serves t before) (action : Action) : (a.act action).Serves t before := by
  obtain ⟨ht, c, w, n, he, hs⟩ := h
  cases action with
  | save uri =>
    rw [Activation.act, Activation.save, he]
    exact ⟨ht, _, _, n, rfl, hs⟩
  | openDocument uri content =>
    have hnew (text : Text) : Serves t before { a with engine := .server (c.didOpen uri text) w } :=
      ⟨ht, _, _, n, rfl, hs⟩
    rw [Activation.act, Activation.openDocument, he]
    cases content with
    | some text => exact hnew text
    | none =>
      cases hf : fileText w uri with
      | error cr =>
        dsimp only
        rw [hf]
        exact ⟨ht, c, w, n, he, hs⟩
      | ok text =>
        dsimp only
        rw [hf]
        exact hnew text
  | beginProject =>
    obtain ⟨k, hk⟩ := a.toolchain.spawned_runInitCommand c.editor w
    have hb : (a.act .beginProject).engine =
        (Engine.server c w).withEditor (a.toolchain.runInitCommand c.editor w).2.1
          (a.toolchain.runInitCommand c.editor w).2.2 := by
      rw [Activation.act, Activation.beginProject, he]
      rfl
    refine ⟨ht, _, _, n + k, hb, ?_⟩
    rw [hk, hs, List.append_assoc, ht, List.replicate_append_replicate]
  | close server =>
    rw [Activation.act, Activation.close, he]
    exact ⟨ht, _, _, n, rfl, hs⟩

theorem actAll (h : a.Serves t before) (actions : List Action) :
    (a.actAll actions).Serves t before := by
  induction actions generalizing a with
  | nil => exact h
  | cons action actions ih => exact ih (h.act action)

end Serves

/-! ## Starting a server -/

variable {r : Request} {t : Toolchain} {version : Option Version} {e : Editor} {w : World}

/-- What has become of the server of a client that tried one, and whether it is in use. -/
inductive Tried (r : Request) (t : Toolchain) (errors : List Text) (c : LanguageClient) :
    Bool → Prop where
  /-- The server has been greeted. -/
  | served {s : Language.Script} {folders : List Folder} (hl : r.server = .ok s)
      (hs : s.succeeds = true) (he : c.editor.shown = errors) (hn : c.servers = 1)
      (hc : c.current = some 0) (hf : foldersOf r.rootPaths = .ok folders)
      (hh : c.heard 0 = [.start (t.command r.settings.languageServerArgs) t.root,
        .greet (folders.head?.map (·.uri)) folders, .greeted]) : Tried r t errors c true
  /-- The server could not be started. -/
  | unstarted {s : Language.Script} {message : Text} (hl : r.server = .ok s)
      (hs : s.startError.isSome) (he : c.editor.shown = errors ++ [message])
      (hn : c.servers = 1) (hc : c.current = none)
      (hh : c.heard 0 = [.start (t.command r.settings.languageServerArgs) t.root]) :
      Tried r t errors c false
  /-- The server did not answer well, and was stopped. -/
  | stopped {s : Language.Script} {folders : List Folder} {message : Text} (hl : r.server = .ok s)
      (hs : s.startError = none) (hr : s.handshake.isReady = false)
      (he : c.editor.shown = errors ++ [message]) (hn : c.servers = 1) (hc : c.current = none)
      (hf : foldersOf r.rootPaths = .ok folders)
      (hh : c.heard 0 = [.start (t.command r.settings.languageServerArgs) t.root,
        .greet (folders.head?.map (·.uri)) folders, .stop]) : Tried r t errors c false

theorem tried_startServer {c : LanguageClient} {b : Bool} (h : startServer r t e = (c, .ok b)) :
    Tried r t e.shown c b := by
  obtain ⟨s, hl⟩ : ∃ s, r.server = .ok s := by
    cases hl : r.server with
    | ok s => exact ⟨s, rfl⟩
    | error m =>
      rw [startServer, hl] at h
      cases h
  have heditor := (LanguageClient.create t r.settings r.rootPaths e).editor_start s
  have hroots : (LanguageClient.create t r.settings r.rootPaths e).roots = r.rootPaths := by
    simp [LanguageClient.create, Request.rootPaths, Path.absolute_absolute]
  rw [startServer, hl, LanguageClient.launch] at h
  cases hse : s.startError with
  | some reason =>
    rw [LanguageClient.start_of_error hse] at h
    cases h
    exact .unstarted hl (Option.isSome_of_eq_some hse) (e.shown_showError _) rfl rfl rfl
  | none =>
    cases hf : foldersOf r.rootPaths with
    | error u =>
      rw [LanguageClient.start_of_unencodable hse (hroots ▸ hf)] at h
      cases h
    | ok folders =>
      have hstarted := LanguageClient.started (hroots ▸ hf) s
      generalize LanguageClient.start _ _ = p at heditor hstarted h
      cases hstarted with
      | unspawned hs => cases hse.symm.trans hs
      | @refused c' command reason _ hready _ hn hc hh =>
        cases h
        have hshown : (c'.editor.showError (Failure.transport command reason).message).shown =
            e.shown ++ [(Failure.transport command reason).message] := by
          rw [Editor.shown_showError, heditor]
          rfl
        exact .stopped hl hse hready hshown hn hc hf (hh 0)
      | ready hs _ hn hc hh =>
        cases h
        exact .served hl hs (congrArg Editor.shown heditor) hn hc hf (hh 0)

/-! ## Starting a tier -/

/-- What has become of an activation in each tier, behind the errors and in the world so far. -/
inductive Ran (r : Request) (t : Toolchain) (version : Option Version) (errors : List Text)
    (w : World) (out : Outcome) : Tier → Prop where
  /-- The roots that have a manifest are built, and no server was tried. -/
  | builds {s : Scheduler} (hr : out.result = .ok (some ⟨t, version, .builds s⟩))
      (ht : out.tried = some (.builds s)) (he : out.editor.shown = errors)
      (hs : r.settings.singleFlight = false → s.finish.coordinator.tasks = [] ∧
        s.run.world.spawned = w.spawned ++ (w.buildable r.roots).map t.buildIn ∧
        s.finish.world.spawned = w.spawned ++ (w.buildable r.roots).map t.buildIn) :
      Ran r t version errors w out .simple
  /-- A server is in use, and whatever is asked for nothing is built beside it. -/
  | serves {c : LanguageClient} (hc : Tried r t errors c true)
      (hr : out.result = .ok (some ⟨t, version, .server c w⟩))
      (ht : out.tried = some (.server c w)) (he : out.editor = c.editor) (hw : out.world = w)
      (ha : ∀ actions, ((⟨t, version, .server c w⟩ : Activation).actAll actions).Serves t
        w.spawned) :
      Ran r t version errors w out .languageClient
  /-- A server was tried, and nothing is in use. -/
  | nothing {c : LanguageClient} (hc : Tried r t errors c false) (hr : out.result = .ok none)
      (ht : out.tried = some (.server c w)) (he : out.editor = c.editor) (hw : out.world = w) :
      Ran r t version errors w out .languageClient

theorem spawned_startBuilds (hsf : r.settings.singleFlight = false) {s : Scheduler}
    (hs : startBuilds r t e w = s) : s.finish.coordinator.tasks = [] ∧
      s.run.world.spawned = w.spawned ++ (w.buildable r.roots).map t.buildIn ∧
      s.finish.world.spawned = w.spawned ++ (w.buildable r.roots).map t.buildIn := by
  have hb : ((Scheduler.fresh t r.rootPaths false e {} w).buildEach
      (r.rootPaths.map Path.absolute)).1 = s := by
    rw [← hs, startBuilds, hsf]
    rfl
  have hroots : w.buildable (r.rootPaths.map Path.absolute) = w.buildable r.roots :=
    (w.buildable_absolute _).trans (w.buildable_absolute _)
  have ht := (Scheduler.tended_fresh t r.rootPaths false e {} w).buildEach
    (r.rootPaths.map Path.absolute)
  obtain ⟨hrun, hfinish⟩ := Scheduler.spawned_buildEach t r.rootPaths e {} w _ hb
  rw [hroots] at hrun hfinish
  rw [hb] at ht
  exact ⟨ht.tasks_finish, hrun, hfinish⟩

theorem ran_startTier {o : Option Activation} (h : (startTier r t version e w).result = .ok o) :
    Ran r t version e.shown w (startTier r t version e w) (r.settings.tier version) := by
  have hshown (tier : Tier) : (e.setStatus (statusText version tier)).shown = e.shown :=
    (e.shown_call _).trans (List.append_nil _)
  unfold startTier at h ⊢
  generalize r.settings.tier version = tier at h ⊢
  cases tier with
  | simple => exact .builds rfl rfl (hshown _) fun hsf => spawned_startBuilds hsf rfl
  | languageClient =>
    dsimp only at h ⊢
    rcases hs : startServer r t (e.setStatus (statusText version .languageClient)) with
      ⟨c, cr | _ | _⟩ <;> rw [hs] at h
    · cases h
    · exact .nothing (hshown _ ▸ tried_startServer hs) rfl rfl rfl rfl
    · exact .serves (hshown _ ▸ tried_startServer hs) rfl rfl rfl rfl
        (Serves.actAll ⟨rfl, c, w, 0, rfl, (List.append_nil _).symm⟩)

theorem ran_use {o : Option Activation} (h : (use r t e w).result = .ok o) :
    ∃ version w', t.detect Host.toolName w = (.ok version, w') ∧
      Ran r t version e.shown w' (use r t e w) (r.settings.tier version) := by
  unfold use at h ⊢
  rcases hd : t.detect Host.toolName w with ⟨cr | version, w'⟩
  · rw [hd] at h
    cases h
  · rw [hd] at h
    refine ⟨version, w', rfl, ?_⟩
    have hshown : (e.appendLine ("using reproto from `" ++ t.binary ++ "`")).1.shown = e.shown :=
      e.shown_add .line _
    dsimp only at h ⊢
    split at h
    · cases h
    · next e' he =>
      rw [he] at hshown
      exact hshown ▸ ran_startTier h

/-- Whatever the settings, the environment, the files, the roots and all processes and servers
are, an activation that returns has found its toolchain without starting a process, or has
done nothing. Then it has asked the toolchain for its version in the first root, and works in
the tier that was forced, or else in that of the version, or else in the default one. -/
theorem start_runs_one_tier {out : Outcome} {o : Option Activation}
    (hi : ∀ install ∈ r.installer, ∀ e w, (install e w).2.2.spawned = w.spawned)
    (ho : start r e w = out) (hr : out.result = .ok o) :
    ∃ (found : Option Toolchain) (e' : Editor) (w' : World),
      r.search.locate r.installer e w = (.ok found, e', w') ∧
      (found = none → o = none ∧ out.tried = none ∧ out.world.spawned = w.spawned) ∧
      ∀ t ∈ found, ∃ version w'', t.detect Host.toolName w' = (.ok version, w'') ∧
        w''.spawned =
          w.spawned ++ [⟨t.command Toolchain.versionArgs, (r.roots.map Path.absolute).head?⟩] ∧
        w''.files = w'.files ∧
        Ran r t version e'.shown w'' out (r.settings.type.getD (version.elim r.settings.defaultType
          fun v =>
            let threshold := r.settings.thresholdVersion
            if threshold.major ≤ v.major ∧ threshold.minor ≤ v.minor ∧ threshold.patch ≤ v.patch
            then .languageClient else .simple)) := by
  have hspawned := Search.spawned_locate (s := r.search) hi e w
  subst ho
  unfold start at hr ⊢
  rcases hl : r.search.locate r.installer e w with ⟨cr | _ | t, e', w'⟩ <;>
    rw [hl] at hr hspawned
  · cases hr
  · cases hr
    exact ⟨none, e', w', rfl, fun _ => ⟨rfl, rfl, hspawned⟩, nofun⟩
  · refine ⟨some t, e', w', rfl, nofun, ?_⟩
    rintro _ ⟨⟩
    have hroot : t.root = (r.roots.map Path.absolute).head? :=
      Search.root_of_locate (congrArg Prod.fst hl)
    have hprobe := t.spawned_detect Host.toolName w'
    have hfiles := t.files_detect Host.toolName w'
    obtain ⟨version, w'', hd, hran⟩ := ran_use hr
    rw [hd] at hprobe hfiles
    rw [hspawned, hroot] at hprobe
    rw [Settings.tier_eq] at hran
    exact ⟨version, w'', hd, hprobe, hfiles, hran⟩

end Activation

end

open Surroundings in
/-- A toolchain that is installed on the way, of a version below the threshold, builds two of
three roots; the other has no manifest. -/
theorem Activation.start_runs_one_tier_of_installed :
    ∃ (r : Request) (w : World) (out : Outcome) (s : Scheduler),
      r.roots = ["/b", "/c", "/a"] ∧ start r { confirms := true } w = out ∧
      out.tried = some (.builds s) ∧ s.finish.world.spawned =
        [⟨["/h/.local/bin/reproto", "--version"], some "/b"⟩,
          ⟨["/h/.local/bin/reproto", "--output-format", "json", "build"], some "/b"⟩,
          ⟨["/h/.local/bin/reproto", "--output-format", "json", "build"], some "/a"⟩] := by
  obtain ⟨r, t, w, w', hroots, hi, hfound, hworld, hversion, htier, ho, hsf, hspawns⟩ :
      ∃ (r : Request) (t : Toolchain) (w w' : World), r.roots = ["/b", "/c", "/a"] ∧
        (∀ install ∈ r.installer, ∀ e w, (install e w).2.2.spawned = w.spawned) ∧
        (r.search.locate r.installer { confirms := true } w).1 = .ok (some t) ∧
        (r.search.locate r.installer { confirms := true } w).2.2 = w' ∧
        (t.detect Host.toolName w').1 = .ok (some ⟨0, 3, 34⟩) ∧
        r.settings.tier (some ⟨0, 3, 34⟩) = .simple ∧
        (∃ o, (start r { confirms := true } w).result = .ok o) ∧
        r.settings.singleFlight = false ∧
        w.spawned ++ [⟨t.command Toolchain.versionArgs, (r.roots.map Path.absolute).head?⟩] ++
            (w'.buildable r.roots).map t.buildIn =
          [⟨["/h/.local/bin/reproto", "--version"], some "/b"⟩,
            ⟨["/h/.local/bin/reproto", "--output-format", "json", "build"], some "/b"⟩,
            ⟨["/h/.local/bin/reproto", "--output-format", "json", "build"], some "/a"⟩] := by
    refine ⟨{ settings := {}, env := [("HOME", "/h")], roots := ["/b", "/c", "/a"]
              installer := some fun e w => (.ok true, (e.appendLine "install: done!").1,
                w.write "/h/.local/bin/reproto" []) },
      ⟨"/h/.local/bin/reproto", some "/b"⟩,
      { files := .ofList [("/a/reproto.toml", []), ("/b/reproto.toml", [])]
        starts := [.ok { out := Utf8.encode "reproto 0.3.34" }] },
      _, rfl, ?_, rfl, rfl, rfl, ?_, ⟨_, rfl⟩, rfl, ?_⟩
    · rintro _ ⟨⟩ e w
      rfl
    · decide +kernel
    · decide +kernel
  obtain ⟨o, ho⟩ := ho
  obtain ⟨found, e', _, hl, -, hruns⟩ := start_runs_one_tier hi rfl ho
  rw [hl] at hfound hworld
  obtain rfl := Except.ok.inj hfound
  obtain rfl := hworld
  obtain ⟨version, w'', hd, hspawned, hfiles, hran⟩ := hruns t rfl
  rw [hd] at hversion
  obtain rfl := Except.ok.inj hversion
  rw [← Settings.tier_eq, htier] at hran
  cases hran with
  | builds hr ht he hs =>
    refine ⟨r, w, _, _, hroots, rfl, ht, ?_⟩
    rw [(hs hsf).2.2, hspawned, World.buildable_congr hfiles]
    exact hspawns

end Workbench
