import Workbench.Proofs.Build.Solo
import Workbench.Proofs.Index.History
import Workbench.Tools.Context

/-! # Answers tell of the builds until now

Tools are called one after another, and a call waits for the build that it asks for. So a
context answers out of its files, the processes to come and what the builds until now have
published. A call that has brought about a mistake leaves nothing but a process used up.
-/

namespace Workbench

open Build OrderedMap

open Json (Value)

/-! ## What builds leave -/

section

variable [Surroundings]

namespace Build.Finish

variable {fs : List Finish} {f : Finish}

def commit? (f : Finish) : Option SymbolIndex.Commit :=
  match f.outcome with
  | some (r, found) =>
    if r.exitCode = some 0 then some ⟨f.root, found.symbols, none, nofun⟩ else none
  | none => none

def diagnostics? (key : Text) (f : Finish) : Option DiagnosticsByPath :=
  if f.key = key then f.outcome.map (·.2.diagnostics) else none

def lastDiagnostics (fs : List Finish) (root : Text) : DiagnosticsByPath :=
  (fs.reverse.findSome? (diagnostics? (Path.rootKey root))).getD {}

theorem get?_diagnostics_publish (x : Indices) (f : Finish) (key : Text) :
    (publish x f).diagnostics.byRoot.get? key =
      (f.diagnostics? key).or (x.diagnostics.byRoot.get? key) := by
  rw [diagnostics?]
  split_ifs with hk
  · cases ho : f.outcome with
    | none => rw [publish_none ho, Option.map_none, Option.none_or]
    | some o =>
      rw [publish_some ho, Indices.commit, DiagnosticIndex.get?_commit]
      exact if_pos hk
  · rw [diagnostics_publish_of_ne fun h => absurd h hk, Option.none_or]

theorem get_foldl_publish (fs : List Finish) (root : Text) :
    (fs.foldl publish {}).diagnostics.get root = lastDiagnostics fs root := by
  suffices (fs.foldl publish {}).diagnostics.byRoot.get? (Path.rootKey root) =
      fs.reverse.findSome? (diagnostics? (Path.rootKey root)) by
    rw [DiagnosticIndex.get, getD, this, lastDiagnostics]
  induction fs using List.reverseRecOn with
  | nil => rfl
  | append_singleton fs f ih =>
    rw [List.foldl_append, List.foldl_cons, List.foldl_nil, get?_diagnostics_publish, ih,
      List.reverse_concat, List.findSome?_cons]
    cases f.diagnostics? (Path.rootKey root) <;> rfl

theorem publish_congr {x : Indices} {g : Finish} (hk : f.key = g.key) (ho : f.outcome = g.outcome) :
    publish x f = publish x g := by
  rw [publish, publish, ho]
  cases g.outcome with
  | none => rfl
  | some o => exact Indices.commit_congr hk _ _ _

theorem symbols_publish (x : Indices) {start : Start} (h : f.Tells start) :
    (publish x f).symbols = f.commit?.elim x.symbols x.symbols.apply := by
  rw [commit?]
  cases h with
  | refused ho | stopped _ ho | unheard _ ho => rw [publish_none ho, ho, Option.elim_none]
  | committed _ _ _ _ ho =>
    rw [publish_some ho, ho, Indices.commit]
    dsimp only
    split_ifs
    · rfl
    · rfl

theorem symbols_foldl_publish (h : ∀ f ∈ fs, ∃ start, f.Tells start) :
    (fs.foldl publish {}).symbols = SymbolIndex.history (fs.filterMap commit?) := by
  induction fs using List.reverseRecOn with
  | nil => rfl
  | append_singleton fs f ih =>
    obtain ⟨start, hf⟩ := h f (by simp)
    rw [List.foldl_append, List.foldl_cons, List.foldl_nil, symbols_publish _ hf,
      ih fun g hg => h g (List.mem_append_left _ hg), List.filterMap_append]
    cases hc : f.commit? with
    | none => simp [hc]
    | some c => simp [hc, SymbolIndex.history_concat]

end Build.Finish

open Finish

/-! ## Calls -/

namespace Tool

structure Call where
  name : Text
  args : Field.Members

def isMistake : Except Crash Value → Bool
  | .ok (.obj ms) => (Field.lookup ms "error").isSome
  | .ok _ => false
  | .error _ => true

def reported : Reply → Except Crash Value
  | .ok v => .ok v
  | .error (.failure f) => .ok (.obj f.report)
  | .error (.crash p) => .error p

omit [Surroundings] in
theorem ofName?_name (t : Tool) : ofName? t.name = some t := by
  cases t <;> decide +kernel

omit [Surroundings] in
theorem ofName?_eq_some_iff {name : Text} {t : Tool} : ofName? name = some t ↔ t.name = name := by
  constructor
  · intro h
    simpa using List.find?_some h
  · rintro rfl
    exact ofName?_name t

end Tool

open Tool ToolContext

def World.rebuildRoot? (w : World) (k : Call) : Option Text :=
  if k.name = Tool.rebuild.name then
    (require k.args "root").toOption.filter fun root =>
      w.isFile (Coordinator.manifestPath (Path.absolute root))
  else none

def World.rebuilds (w : World) (ks : List Call) : List Finish :=
  (ks.filterMap w.rebuildRoot?).zipIdx.map fun p => ⟨p.2, p.1, outcome p.1 (w.startAt p.2)⟩

namespace ToolContext

def reply (c : ToolContext) (k : Call) : Except Crash Value := (c.dispatch k.name k.args).1

def next (c : ToolContext) (k : Call) : ToolContext := (c.dispatch k.name k.args).2

def after (c : ToolContext) (ks : List Call) : ToolContext := ks.foldl next c

def replies (c : ToolContext) : List Call → List (Except Crash Value)
  | [] => []
  | k :: ks => c.reply k :: (c.next k).replies ks

def withStarts (c : ToolContext) (starts : List Start) : ToolContext :=
  match c.stage with
  | .searching e w => { c with stage := .searching e { w with starts } }
  | .ready s => { c with stage := .ready { s with world := { s.world with starts } } }

def buildAnswer (root : Text) : Option (BuildResult × Findings) → Value
  | some o => Report.buildResult o.1
  | none => mistake ("build of " ++ root ++ " could not run")

end ToolContext

/-! ## What answers depend on -/

/-- The world and the indices are all of a context that its answers tell of. -/
structure Tool.Basis where
  world : World
  indices : Indices := {}

namespace Tool.Basis

variable {b : Basis} {k : Call} {w : World} {root : Text}

def rebuild (root : Text) (b : Basis) : Reply × Basis :=
  if b.world.isFile (Coordinator.manifestPath (Path.absolute root)) then
    let o := outcome root (b.world.startAt 0)
    (.ok (buildAnswer root o), ⟨b.world.afterStarts 1, publish b.indices ⟨0, root, o⟩⟩)
  else (.ok (mistake ("not a reproto project (no reproto.toml): " ++ root)), b)

def getDiagnostics (root : Text) (b : Basis) : Reply × Basis :=
  (.ok (.obj [("root", .str (Path.absolute root)),
    ("diagnostics", Report.diagnostics (b.indices.diagnostics.get root))]), b)

def documentSymbols (uri : Text) (b : Basis) : Reply × Basis :=
  (.ok (.obj [("uri", .str uri),
    ("symbols", .arr ((b.indices.symbols.forFile uri).map Report.shownSymbol))]), b)

def workspaceSymbols (query : Value) (b : Basis) : Reply × Basis :=
  match query with
  | .str q => (.ok (Report.found q (b.indices.symbols.search q)), b)
  | v =>
    (.error (.crash (.wrongType
      ("'" ++ typeWord v ++ "' object has no attribute 'lower'"))), b)

def withArgument (args : Field.Members) (t : Tool) (go : Text → Basis → Reply × Basis)
    (b : Basis) : Reply × Basis :=
  match require args t.parameter.name with
  | .ok v => go v b
  | .error f => (.error (.failure f), b)

def callTool (t : Tool) (args : Field.Members) : Basis → Reply × Basis :=
  match t with
  | .rebuild => withArgument args t rebuild
  | .getDiagnostics => withArgument args t getDiagnostics
  | .documentSymbols => withArgument args t documentSymbols
  | .workspaceSymbols => workspaceSymbols ((Field.lookup args t.parameter.name).getD (.str []))

def dispatch (k : Call) (b : Basis) : Except Crash Value × Basis :=
  match ofName? k.name with
  | none => (.ok (mistake ("Unknown tool: " ++ k.name)), b)
  | some t => (reported (callTool t k.args b).1, (callTool t k.args b).2)

def replies (b : Basis) : List Call → List (Except Crash Value)
  | [] => []
  | k :: ks => (b.dispatch k).1 :: (b.dispatch k).2.replies ks

def after (b : Basis) (ks : List Call) : Basis := ks.foldl (fun b k => (b.dispatch k).2) b

theorem dispatch_tool {t : Tool} (h : k.name = t.name) (b : Basis) : b.dispatch k =
    (reported (callTool t k.args b).1, (callTool t k.args b).2) := by
  rw [dispatch, ofName?_eq_some_iff.mpr h.symm]

omit [Surroundings] in
theorem withArgument_ok {args : Field.Members} {t : Tool} {v : Text}
    (h : require args t.parameter.name = .ok v) (go : Text → Basis → Reply × Basis) (b : Basis) :
    withArgument args t go b = go v b := by
  rw [withArgument, h]

theorem dispatch_rebuild (h : b.world.rebuildRoot? k = some root) :
    b.dispatch k = (.ok (buildAnswer root (outcome root (b.world.startAt 0))),
      ⟨b.world.afterStarts 1, publish b.indices ⟨0, root, outcome root (b.world.startAt 0)⟩⟩) := by
  unfold World.rebuildRoot? at h
  split_ifs at h with hn
  obtain ⟨hr, hm⟩ := Option.filter_eq_some_iff.mp h
  have hr' : require k.args Tool.rebuild.parameter.name = .ok root := by
    change require k.args "root" = _
    cases hq : require k.args "root" with
    | error f => simp [hq, Except.toOption] at hr
    | ok v => simpa [hq, Except.toOption] using hr
  rw [dispatch_tool hn, callTool, withArgument_ok hr', rebuild, if_pos hm]
  rfl

theorem after_concat (b : Basis) (ks : List Call) (k : Call) :
    b.after (ks ++ [k]) = ((b.after ks).dispatch k).2 := by
  simp [after]

theorem dispatch_other (h : b.world.rebuildRoot? k = none) : (b.dispatch k).2 = b := by
  have harg (t : Tool) (go : Text → Basis → Reply × Basis)
      (hgo : ∀ v, require k.args t.parameter.name = .ok v → (go v b).2 = b) :
      (withArgument k.args t go b).2 = b := by
    unfold withArgument
    split
    · next v hv => exact hgo v hv
    · rfl
  cases ht : ofName? k.name with
  | none => rw [dispatch, ht]
  | some t =>
    have hn := (ofName?_eq_some_iff.mp ht).symm
    rw [dispatch_tool hn]
    cases t with
    | rebuild =>
      refine harg _ _ fun root hr => ?_
      rw [World.rebuildRoot?, if_pos hn, show require k.args "root" = .ok root from hr] at h
      rw [rebuild, if_neg]
      simpa [Except.toOption] using h
    | getDiagnostics => exact harg _ _ fun _ _ => rfl
    | documentSymbols => exact harg _ _ fun _ _ => rfl
    | workspaceSymbols =>
      change (workspaceSymbols _ b).2 = b
      unfold workspaceSymbols
      split <;> rfl

/-- A call that is answered with a mistake has used up a process at most. -/
theorem dispatch_of_mistake (h : isMistake (b.dispatch k).1) :
    (b.dispatch k).2 = ⟨{ b.world with starts := (b.dispatch k).2.world.starts }, b.indices⟩ := by
  cases hk : b.world.rebuildRoot? k with
  | none => rw [dispatch_other hk]
  | some root =>
    rw [dispatch_rebuild hk] at h ⊢
    cases ho : outcome root (b.world.startAt 0) with
    | none => rfl
    | some o =>
      rw [ho] at h
      cases h

end Tool.Basis

namespace World

variable {w : World} {ks : List Call} {k : Call}

theorem rebuilds_concat (w : World) (ks : List Call) (k : Call) : w.rebuilds (ks ++ [k]) =
    w.rebuilds ks ++ ((w.rebuildRoot? k).map fun root =>
      ⟨(w.rebuilds ks).length, root, outcome root (w.startAt (w.rebuilds ks).length)⟩).toList := by
  rw [rebuilds, rebuilds, List.filterMap_append, List.zipIdx_append, List.map_append]
  cases h : w.rebuildRoot? k <;> simp [h]

theorem tells_rebuilds {f : Finish} (h : f ∈ w.rebuilds ks) : f.Tells (w.startAt f.task) := by
  obtain ⟨⟨root, n⟩, -, rfl⟩ := List.mem_map.mp h
  exact outcome_tells n root _

theorem isFile_afterStarts (w : World) (n : Nat) (path : Text) :
    (w.afterStarts n).isFile path = w.isFile path := rfl

omit [Surroundings] in
theorem startAt_afterStarts (w : World) (n m : Nat) :
    (w.afterStarts n).startAt m = w.startAt (n + m) := by
  simp [startAt, afterStarts]

omit [Surroundings] in
theorem afterStarts_afterStarts (w : World) (n m : Nat) :
    (w.afterStarts n).afterStarts m = w.afterStarts (n + m) := by
  simp [afterStarts]

end World

theorem Tool.Basis.after_eq (w : World) (ks : List Call) : after ⟨w, {}⟩ ks =
    ⟨w.afterStarts (w.rebuilds ks).length, (w.rebuilds ks).foldl publish {}⟩ := by
  induction ks using List.reverseRecOn with
  | nil => rfl
  | append_singleton ks k ih =>
    have hroot (x : Indices) :
        (Basis.mk (w.afterStarts (w.rebuilds ks).length) x).world.rebuildRoot? k =
          w.rebuildRoot? k := rfl
    rw [after_concat, ih, w.rebuilds_concat]
    cases hk : w.rebuildRoot? k with
    | none =>
      rw [dispatch_other ((hroot _).trans hk), Option.map_none, Option.toList_none, List.append_nil]
    | some root =>
      rw [dispatch_rebuild ((hroot _).trans hk), World.startAt_afterStarts,
        World.afterStarts_afterStarts, Option.map_some, Option.toList_some, List.length_append,
        List.foldl_append]
      rfl

/-! ## Contexts answer out of their bases -/

namespace Scheduler

variable {s : Scheduler} {b : Basis} {root : Text}

/-- The scheduler is idle and has what a basis has. -/
structure RestsOn (s : Scheduler) (b : Basis) : Prop extends s.Settled where
  world : b.world.Same s.world
  indices : s.coordinator.indices = b.indices

def Serves (go : Scheduler → Reply × Scheduler) (f : Basis → Reply × Basis) : Prop :=
  ∀ s b, s.RestsOn b → (go s).1 = (f b).1 ∧ (go s).2.RestsOn (f b).2

theorem RestsOn.addRoot (h : s.RestsOn b) (root : Text) : (addRoot s root).RestsOn b := by
  unfold ToolContext.addRoot
  dsimp only
  split_ifs
  · exact h
  · exact ⟨h.toSettled.of_rest _ s.world, h.world, h.indices⟩

theorem serves_getDiagnostics (root : Text) :
    Serves (ToolContext.getDiagnostics root) (Basis.getDiagnostics root) := by
  intro s b h
  rw [ToolContext.getDiagnostics, h.indices]
  exact ⟨rfl, h⟩

omit [Surroundings] in
theorem serves_documentSymbols (uri : Text) :
    Serves (ToolContext.documentSymbols uri) (Basis.documentSymbols uri) := by
  intro s b h
  rw [ToolContext.documentSymbols, h.indices]
  exact ⟨rfl, h⟩

omit [Surroundings] in
theorem serves_workspaceSymbols (query : Value) :
    Serves (ToolContext.workspaceSymbols query) (Basis.workspaceSymbols query) := by
  intro s b h
  cases query with
  | str q =>
    rw [ToolContext.workspaceSymbols, h.indices]
    exact ⟨rfl, h⟩
  | _ => exact ⟨rfl, h⟩

theorem buildReply_built {c : Coordinator} (h : ∀ f ∈ c.finished, f.task < c.nextId)
    (root key : Text) (o : Option (BuildResult × Findings)) (ed : Editor) :
    buildReply root (c.built key o ed) c.nextId = buildAnswer root o := by
  have hfind : (c.built key o ed).finished.find? (·.task == c.nextId) =
      some ⟨c.nextId, key, o⟩ := by
    rw [Coordinator.built, List.find?_append, List.find?_eq_none.mpr fun f hf => ?_, Option.none_or]
    · simp
    · simpa using (h f hf).ne
  rw [buildReply, hfind]
  cases o <;> rfl

theorem serves_rebuild (root : Text) : Serves (ToolContext.rebuild root) (Basis.rebuild root) := by
  intro s b h
  have hm : s.hasManifest root = b.world.isFile _ := h.world.isFile_eq _
  unfold ToolContext.rebuild Basis.rebuild
  rw [← hm]
  cases hb : s.hasManifest root with
  | false =>
    rw [build_of_not_manifest hb]
    exact ⟨rfl, h⟩
  | true =>
    obtain ⟨htask, ed, w, hf, hw⟩ := finish_build h.toSettled hb
    have hsettled := h.toSettled.finish_build hb
    rcases hbuild : s.build root with ⟨s', task⟩
    rw [hbuild] at htask hf hsettled
    obtain rfl : task = some s.coordinator.nextId := htask
    dsimp only at hf hsettled ⊢
    rw [if_pos rfl, ← h.world.startAt_eq]
    refine ⟨?_, hsettled, ?_, ?_⟩
    · rw [hf]
      exact congrArg Except.ok (buildReply_built h.old root _ _ ed)
    · rw [hf]
      exact (h.world.afterStarts 1).trans hw
    · rw [hf, ← h.indices]
      exact publish_congr (Path.rootKey_absolute root) rfl

end Scheduler

namespace ToolContext

/-- The context answers out of a basis. Until a toolchain is needed there is one to be found. -/
inductive RestsOn : ToolContext → Basis → Prop
  | searching {settings : Settings} {e : Editor} {w v : World} (he : e.Open) (hw : v.Same w)
      (ht : (Search.find? ⟨settings, w.env, "linux", none⟩ w).isSome) :
      RestsOn ⟨settings, .searching e w⟩ ⟨v, {}⟩
  | ready {settings : Settings} {s : Scheduler} {b : Basis} (hs : s.RestsOn b) :
      RestsOn ⟨settings, .ready s⟩ b

variable {c : ToolContext} {b : Basis}

theorem isSome_find? (s : Search) (root : Option Text) (w : World) :
    ({ s with root }.find? w).isSome = (s.find? w).isSome := by
  unfold Search.find? Candidates.select Search.candidates
  cases Discovery.defined (Discovery.resolve s.settings s.env s.system).explicit with
  | some path => rfl
  | none => simp

theorem RestsOn.exists_scheduler (h : c.RestsOn b) (root : Option Text) :
    ∃ s : Scheduler, s.RestsOn b ∧ c.scheduler root = (.ok s, ⟨c.settings, .ready s⟩) := by
  cases h with
  | ready hs => exact ⟨_, hs, rfl⟩
  | @searching settings e w v he hw ht =>
    rw [← isSome_find? _ root] at ht
    obtain ⟨t, ht⟩ := Option.isSome_iff_exists.mp ht
    have hl : Search.locate ⟨settings, w.env, "linux", root⟩ none e w = (.ok (some t), e, w) := by
      simp only [Search.locate, Search.attempt, ht]
    refine ⟨schedulerFor ⟨settings, .searching e w⟩ t e w,
      ⟨⟨rfl, rfl, fun _ => rfl, nofun, rfl, rfl, he⟩, hw, rfl⟩, ?_⟩
    simp only [scheduler, hl]

theorem RestsOn.withScheduler (h : c.RestsOn b) (root : Option Text)
    {go : Scheduler → Reply × Scheduler} {f : Basis → Reply × Basis} (hf : Scheduler.Serves go f) :
    (c.withScheduler root go).1 = (f b).1 ∧ (c.withScheduler root go).2.RestsOn (f b).2 := by
  obtain ⟨s, hs, hc⟩ := h.exists_scheduler root
  have hs' : (root.elim s (addRoot s)).RestsOn b := by
    cases root with
    | none => exact hs
    | some root => exact hs.addRoot root
  obtain ⟨hr, hb⟩ := hf _ _ hs'
  rw [ToolContext.withScheduler, hc]
  exact ⟨hr, .ready hb⟩

theorem RestsOn.callTool (h : c.RestsOn b) (t : Tool) (args : Field.Members) :
    (c.callTool t args).1 = (b.callTool t args).1 ∧
      (c.callTool t args).2.RestsOn (b.callTool t args).2 := by
  have harg {go : Text → Reply × ToolContext} {f : Text → Basis → Reply × Basis}
      (hgo : ∀ v, (go v).1 = (f v b).1 ∧ (go v).2.RestsOn (f v b).2) :
      (c.withArgument args t go).1 = (b.withArgument args t f).1 ∧
        (c.withArgument args t go).2.RestsOn (b.withArgument args t f).2 := by
    unfold ToolContext.withArgument Basis.withArgument
    cases require args t.parameter.name with
    | error f => exact ⟨rfl, h⟩
    | ok v => exact hgo v
  cases t with
  | rebuild => exact harg fun root => h.withScheduler (some root) (Scheduler.serves_rebuild root)
  | getDiagnostics =>
    exact harg fun root => h.withScheduler (some root) (Scheduler.serves_getDiagnostics root)
  | documentSymbols =>
    exact harg fun uri => h.withScheduler none (Scheduler.serves_documentSymbols uri)
  | workspaceSymbols => exact h.withScheduler none (Scheduler.serves_workspaceSymbols _)

theorem RestsOn.dispatch (h : c.RestsOn b) (k : Call) :
    c.reply k = (b.dispatch k).1 ∧ (c.next k).RestsOn (b.dispatch k).2 := by
  unfold reply next ToolContext.dispatch Basis.dispatch
  cases ofName? k.name with
  | none => exact ⟨rfl, h⟩
  | some t =>
    obtain ⟨hr, hb⟩ := h.callTool t k.args
    dsimp only
    rw [← hr]
    generalize c.callTool t k.args = r at hb ⊢
    rcases r with ⟨(f | p) | v, c'⟩
    · exact ⟨rfl, hb⟩
    · exact ⟨rfl, hb⟩
    · exact ⟨rfl, hb⟩

theorem RestsOn.replies (h : c.RestsOn b) (ks : List Call) : c.replies ks = b.replies ks := by
  induction ks generalizing c b with
  | nil => rfl
  | cons k ks ih =>
    obtain ⟨hr, hb⟩ := h.dispatch k
    rw [ToolContext.replies, Basis.replies, hr, ih hb]

theorem RestsOn.world (h : c.RestsOn b) : b.world.Same c.world := by
  cases h with
  | searching _ hw => exact hw
  | ready hs => exact hs.world

theorem RestsOn.withStarts (h : c.RestsOn b) (starts : List Start) :
    (c.withStarts starts).RestsOn ⟨{ b.world with starts }, b.indices⟩ := by
  cases h with
  | searching he hw ht => exact .searching he ⟨hw.1, hw.2.1, rfl⟩ ht
  | ready hs =>
    exact .ready ⟨hs.toSettled.of_rest _ _, ⟨hs.world.1, hs.world.2.1, rfl⟩, hs.indices⟩

theorem RestsOn.after (h : c.RestsOn b) (ks : List Call) : (c.after ks).RestsOn (b.after ks) := by
  induction ks generalizing c b with
  | nil => exact h
  | cons k ks ih => exact ih (h.dispatch k).2

/-- A context answers as one without the call that was answered with a mistake, when the same
processes are to come. -/
theorem RestsOn.replies_of_mistake (h : c.RestsOn b) {k : Call} (hk : isMistake (c.reply k))
    (ks : List Call) :
    (c.next k).replies ks = (c.withStarts (c.next k).world.starts).replies ks := by
  obtain ⟨hr, hb⟩ := h.dispatch k
  rw [hr] at hk
  have hw := h.withStarts (c.next k).world.starts
  rw [hb.world.2.2, ← Basis.dispatch_of_mistake hk] at hw
  rw [hb.replies ks, hb.world.2.2, hw.replies ks]

/-- Whatever has been called for, the diagnostics of a root are those of its last build that
had a result, and symbols come from the builds with status zero alone. A call that is answered
with a mistake changes no answer but by the process that it has used up. -/
theorem answers_after {settings : Settings} {w : World} {ks : List Call} {fs : List Finish}
    {c : ToolContext} (ht : (Search.find? ⟨settings, w.env, "linux", none⟩ w).isSome)
    (hc : (create settings w).after ks = c) (hfs : w.rebuilds ks = fs) :
    (∀ f ∈ fs, f.Tells (w.startAt f.task)) ∧ c.world.starts = w.starts.drop fs.length ∧
    (∀ args root, require args "root" = .ok root →
      c.reply ⟨"reproto_rebuild", args⟩ = .ok (
        if w.isFile (Coordinator.manifestPath (Path.absolute root)) then
          buildAnswer root (outcome root (w.startAt fs.length))
        else mistake ("not a reproto project (no reproto.toml): " ++ root)) ∧
      c.reply ⟨"reproto_get_diagnostics", args⟩ = .ok (.obj [("root", .str (Path.absolute root)),
        ("diagnostics", Report.diagnostics (lastDiagnostics fs root))])) ∧
    (∀ args uri, require args "uri" = .ok uri →
      c.reply ⟨"reproto_document_symbols", args⟩ = .ok (.obj [("uri", .str uri),
        ("symbols", .arr (((SymbolIndex.history (fs.filterMap commit?)).forFile uri).map
          Report.shownSymbol))])) ∧
    (∀ args query, (Field.lookup args "query").getD (.str []) = .str query →
      c.reply ⟨"reproto_workspace_symbols", args⟩ = .ok (Report.found query
        ((SymbolIndex.history (fs.filterMap commit?)).search query))) ∧
    ∀ k, isMistake (c.reply k) → ∀ ks',
      (c.next k).replies ks' = (c.withStarts (c.next k).world.starts).replies ks' := by
  subst hfs hc
  have htells : ∀ f ∈ w.rebuilds ks, f.Tells (w.startAt f.task) := fun _ => World.tells_rebuilds
  have hsymbols := symbols_foldl_publish fun f hf => ⟨_, htells f hf⟩
  have hstart : (create settings w).RestsOn ⟨w, {}⟩ :=
    .searching (Editor.open_fresh false) ⟨rfl, rfl, rfl⟩ ht
  have hrests := hstart.after ks
  rw [Basis.after_eq] at hrests
  have hreply (t : Tool) (args : Field.Members) :
      ((ToolContext.create settings w).after ks).reply ⟨t.name, args⟩ =
        reported (Basis.callTool t args
        ⟨w.afterStarts (w.rebuilds ks).length, (w.rebuilds ks).foldl publish {}⟩).1 := by
    rw [(hrests.dispatch ⟨t.name, args⟩).1, Basis.dispatch_tool (t := t) rfl]
  refine ⟨htells, hrests.world.2.2, fun args root hr => ⟨?_, ?_⟩, fun args uri hu => ?_,
    fun args query hq => ?_, fun k hk => hrests.replies_of_mistake hk⟩
  · refine (hreply .rebuild args).trans ?_
    rw [Basis.callTool, Basis.withArgument_ok hr, Basis.rebuild, World.startAt_afterStarts,
      World.isFile_afterStarts]
    split_ifs
    · rfl
    · rfl
  · refine (hreply .getDiagnostics args).trans ?_
    rw [Basis.callTool, Basis.withArgument_ok hr, Basis.getDiagnostics, get_foldl_publish]
    rfl
  · refine (hreply .documentSymbols args).trans ?_
    rw [Basis.callTool, Basis.withArgument_ok hu, Basis.documentSymbols, hsymbols]
    rfl
  · refine (hreply .workspaceSymbols args).trans ?_
    have hquery : Tool.workspaceSymbols.parameter.name = "query" := rfl
    rw [Basis.callTool, hquery, hq, Basis.workspaceSymbols, hsymbols]
    rfl

end ToolContext

end

open Tool Surroundings in
/-- A build that has ended with another status than zero is told of by another spelling of its
root, also when the next build could not be started. -/
theorem ToolContext.answers_after_of_failed_start :
    ∃ (settings : Settings) (w : World) (ks : List Call) (found : DiagnosticsByPath),
      (w.rebuilds ks).map (·.outcome.map (·.1.exitCode)) = [some (some 3), none] ∧
      found.keys = [Text.ofString "a"] ∧
      ((ToolContext.create settings w).after ks).reply
          ⟨"reproto_get_diagnostics", [("root", .str "/r/../r")]⟩ =
        .ok (.obj [("root", .str "/r"), ("diagnostics", Report.diagnostics found)]) := by
  obtain ⟨settings, w, ks, ht, hcodes, hkeys⟩ :
      ∃ (settings : Settings) (w : World) (ks : List Call),
      (Search.find? ⟨settings, w.env, "linux", none⟩ w).isSome ∧
      (w.rebuilds ks).map (·.outcome.map (·.1.exitCode)) = [some (some 3), none] ∧
      (Build.Finish.lastDiagnostics (w.rebuilds ks) "/r/../r").keys = [Text.ofString "a"] := by
    refine ⟨{ executable := some "/opt/reproto" },
      { files := .ofList [("/r/reproto.toml", [])]
        starts := [
          .ok { out := DiagnosticRecord.printed ⟨"a", default, "m"⟩, exit := .status 3 },
          .error (.refused "Permission denied")] },
      [⟨"reproto_rebuild", [("root", .str "/r")]⟩, ⟨"reproto_rebuild", [("root", .str "/r/.")]⟩],
      ?_⟩
    decide +kernel
  have hroot : require [("root", .str "/r/../r")] "root" = .ok "/r/../r" := rfl
  obtain ⟨-, -, hread, -⟩ := answers_after ht rfl rfl
  refine ⟨settings, w, ks, _, hcodes, hkeys, (hread _ _ hroot).2.trans ?_⟩
  have habs : Path.absolute "/r/../r" = "/r" := by decide +kernel
  rw [habs]

end Workbench
