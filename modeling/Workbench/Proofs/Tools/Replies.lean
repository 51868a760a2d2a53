import Workbench.Proofs.Build.Plain
import Workbench.Proofs.Discovery.Locate
import Workbench.Proofs.Json.Display
import Workbench.Proofs.Tools.History

/-! # Replies are read back

Of plain processes, whatever has been called for and in whatever order their builds have taken
steps, each reply is read back from the text that answers the call. A crash is answered with an
object that tells of an error and of nothing else.
-/

namespace Workbench

open Build Tool ToolContext

open Json (Value)

variable {depth : ℕ} {root : Text}

/-! ## Failures -/

namespace Failure

variable {f : Failure}

theorem plain_texts {ts : List Text} (h : ∀ t ∈ ts, t.Scalar) : (texts ts).Plain (depth + 1) := by
  refine .arr ?_
  rw [List.forall_mem_map]
  exact fun t ht => .str (h t ht)

theorem plain_report (hm : f.message.Scalar) (hk : ∀ m ∈ f.detail, m.1.Scalar)
    (h : ∀ m ∈ f.detail, m.2.Plain depth) : (Value.obj f.report).Plain (depth + 1) := by
  have hkind : f.kind.Scalar := by cases f <;> exact Text.scalar_ofString _
  have hmem : ∀ m ∈ Field.member "error" (.str f.kind) ++ Field.member "message" (.str f.message) ++
      f.detail, m.1.Scalar ∧ m.2.Plain depth := by
    simp only [Field.member, List.cons_append, List.nil_append, List.forall_mem_cons]
    exact ⟨⟨Text.scalar_ofString _, .str hkind⟩, ⟨Text.scalar_ofString _, .str hm⟩,
      fun m hd => ⟨hk m hd, h m hd⟩⟩
  exact .obj (OrderedMap.nodup_keys_ofList _) (fun m hr => (hmem m (OrderedMap.mem_ofList hr)).1)
    fun m hr => (hmem m (OrderedMap.mem_ofList hr)).2

end Failure

namespace Discovery

theorem HomeRule.scalar_description {r : HomeRule} (hv : r.variableName.Scalar)
    (hs : ∀ t ∈ r.segments, t.Scalar) (exe : Text) (env : Environment) :
    (r.resolve exe env).1.description.Scalar := by
  unfold HomeRule.resolve
  split
  · refine Text.scalar_append.mpr ⟨Text.scalar_ofString _,
      Text.scalar_join (Text.scalar_ofString _) ?_⟩
    simp only [List.cons_append, List.forall_mem_cons, List.forall_mem_append]
    exact ⟨hv, hs, Text.scalar_ofString _, nofun⟩
  · simp [undefined, hv]

theorem scalar_descriptions (s : Settings) (env : Environment) (system : Text) :
    ∀ t ∈ (resolve s env system).descriptions, t.Scalar := by
  have hexplicit : (resolveExplicit s).1.description.Scalar := by
    unfold resolveExplicit
    split <;> simp [explicitSource]
  have hpath (exe : Text) : (resolveSearchPath exe env).1.description.Scalar := by
    unfold resolveSearchPath
    split <;> simp [undefined]
  have hhome (exe : Text) : ∀ r ∈ homeRules, (r.resolve exe env).1.description.Scalar := by
    simp only [homeRules, List.forall_mem_cons]
    refine ⟨?_, ?_, ?_, nofun⟩ <;> exact HomeRule.scalar_description (by simp) (by simp) exe env
  simp only [Candidates.descriptions, resolve, List.map_append, List.map_cons, List.map_nil,
    List.forall_mem_append, List.forall_mem_singleton, List.forall_mem_map]
  exact ⟨⟨hexplicit, hhome _⟩, hpath _⟩

end Discovery

theorem Search.plain_report (s : Search) : (Value.obj s.failure.report).Plain (depth + 2) := by
  refine Failure.plain_report ?_ ?_ ?_
  · exact Text.scalar_ofString _
  · simp [failure, Failure.detail]
  · simp only [failure, Failure.detail, List.forall_mem_singleton]
    exact Failure.plain_texts (Discovery.scalar_descriptions s.settings s.env s.system)

/-! ## Tools -/

/-- What the reply tells of can be written and read back. -/
def Tool.PlainReply (r : Reply) : Prop := ∀ v, reported r = .ok v → v.Plain 5

theorem Tool.plainReply_ok {v : Value} (h : v.Plain 5) : PlainReply (.ok v) := by
  rintro _ ⟨⟩
  exact h

theorem Tool.plainReply_failure {f : Failure} (h : (Value.obj f.report).Plain 5) :
    PlainReply (.error (.failure f)) := by
  rintro _ ⟨⟩
  exact h

theorem ToolContext.plain_mistake {message : Text} (h : message.Scalar) :
    (mistake message).Plain (depth + 1) := by
  refine .obj (by simp) ?_ ?_
  · simp
  · simpa using Value.Plain.str h

section

variable [Surroundings]

theorem Coordinator.Plain.buildReply {c : Coordinator} (h : c.Plain) (hr : root.Scalar)
    (task : ℕ) : (buildReply root c task).Plain 5 := by
  unfold ToolContext.buildReply
  split
  · next o ho =>
    obtain ⟨f, hf, ho⟩ := Option.bind_eq_some_iff.mp ho
    exact Report.plain_buildResult (h.results f (List.mem_of_find?_eq_some hf) o ho)
  · exact plain_mistake (by simp [hr])

namespace Scheduler

variable {s : Scheduler}

/-- From a plain scheduler comes a plain reply, and a plain scheduler is left. -/
def Keeps (go : Scheduler → Reply × Scheduler) : Prop :=
  ∀ s : Scheduler, s.Plain → PlainReply (go s).1 ∧ (go s).2.Plain

theorem keeps_rebuild (hs : Surroundings.Plain) (hr : root.Scalar) :
    Keeps (ToolContext.rebuild root) := by
  intro s h
  have hb := h.build hs hr
  unfold ToolContext.rebuild
  split
  · next s' heq =>
    rw [heq] at hb
    exact ⟨plainReply_ok (plain_mistake (by simp [hr])), hb⟩
  · next s' task heq =>
    rw [heq] at hb
    exact ⟨plainReply_ok ((hb.finish hs).coordinator.buildReply hr task), hb.finish hs⟩

theorem keeps_getDiagnostics (hs : Surroundings.Plain) (hr : root.Scalar) :
    Keeps (ToolContext.getDiagnostics root) := by
  intro s h
  have hn : (["root", "diagnostics"] : List Text).Nodup := by decide
  refine ⟨plainReply_ok (.obj hn (by simp) ?_), h⟩
  simp only [List.forall_mem_cons]
  exact ⟨.str (Path.scalar_absolute hs.directory hr),
    Report.plain_diagnostics (h.coordinator.published.get root), nofun⟩

theorem keeps_documentSymbols {uri : Text} (hu : uri.Scalar) :
    Keeps (ToolContext.documentSymbols uri) := by
  intro s h
  have hn : (["uri", "symbols"] : List Text).Nodup := by decide
  refine ⟨plainReply_ok (.obj hn (by simp) ?_), h⟩
  simp only [List.forall_mem_cons]
  exact ⟨.str hu, Report.plain_shownSymbols (h.coordinator.published.forFile uri), nofun⟩

theorem keeps_workspaceSymbols {query : Value} (hq : query.Scalar) :
    Keeps (ToolContext.workspaceSymbols query) := by
  intro s h
  cases hq with
  | str hq =>
    exact ⟨plainReply_ok (Report.plain_found hq (h.coordinator.published.search _)), h⟩
  | _ => exact ⟨nofun, h⟩

end Scheduler

/-! ## Contexts -/

inductive Tool.Stage.Plain : Stage → Prop
  | searching {e : Editor} {w : World} (hw : ∀ start ∈ w.starts, Start.Plain start) :
      Plain (.searching e w)
  | ready {s : Scheduler} (hs : s.Plain) : Plain (.ready s)

structure Tool.Call.Scalar (k : Call) : Prop where
  name : k.name.Scalar
  args : ∀ m ∈ k.args, m.2.Scalar

theorem Coordinator.plain_fresh (t : Toolchain) (singleFlight : Bool) (e : Editor) :
    (fresh t [] singleFlight e {}).Plain := by
  have hledger : (fresh t [] singleFlight e {}).Ledger {} (fun _ => Start.Plain) :=
    ⟨accounted_fresh t [] singleFlight e {}, rfl, fun _ hk => absurd hk List.not_mem_nil,
      fun _ hf => absurd hf List.not_mem_nil⟩
  have hindices : ({} : Indices).Plain := ⟨nofun, nofun, nofun⟩
  exact { hledger with
    roots := fun _ hr => absurd hr List.not_mem_nil
    heads := fun _ hp => absurd hp List.not_mem_nil
    published := hindices
    results := fun _ hf => absurd hf List.not_mem_nil }

theorem Scheduler.Plain.addRoot (hs : Surroundings.Plain) {s : Scheduler} (h : s.Plain)
    (hr : root.Scalar) : (addRoot s root).Plain := by
  unfold ToolContext.addRoot
  dsimp only
  split_ifs
  · exact h
  · refine ⟨{ h.coordinator with roots := ?_ }, h.starts⟩
    simp only [List.forall_mem_append, List.forall_mem_singleton]
    exact ⟨h.coordinator.roots, Path.scalar_absolute hs.directory hr⟩

namespace ToolContext

variable {c : ToolContext} {k : Call}

omit [Surroundings] in
theorem scalar_of_lookup {args : Field.Members} (ha : ∀ m ∈ args, m.2.Scalar) {name : Text}
    {v : Value} (h : Field.lookup args name = some v) : v.Scalar :=
  ha _ (OrderedMap.mem_of_get? h)

theorem scheduler_plain (h : c.stage.Plain) (root : Option Text) :
    (∀ s, (c.scheduler root).1 = .ok s → s.Plain) ∧
    (∀ p, (c.scheduler root).1 = .error p → PlainReply (.error p)) ∧
      (c.scheduler root).2.stage.Plain := by
  obtain ⟨settings, stage⟩ := c
  cases h with
  | ready hs =>
    refine ⟨?_, ?_, .ready hs⟩
    · rintro _ ⟨⟩
      exact hs
    · rintro _ ⟨⟩
  | @searching e w hw =>
    -- A search leaves the world as it is, and so the processes to come.
    have hworld := Search.world_attempt ⟨settings, w.env, "linux", root⟩ e w
    simp only [scheduler, Search.locate_none]
    generalize Search.attempt ⟨settings, w.env, "linux", root⟩ e w = told at hworld ⊢
    obtain ⟨r, e', w'⟩ := told
    obtain rfl : w' = w := hworld
    rcases r with p | _ | t
    · refine ⟨?_, ?_, .searching hw⟩
      · rintro _ ⟨⟩
      · rintro _ ⟨⟩ _ ⟨⟩
    · refine ⟨?_, ?_, .searching hw⟩
      · rintro _ ⟨⟩
      · rintro _ ⟨⟩
        exact plainReply_failure (Search.plain_report _)
    · have hs : (schedulerFor ⟨settings, .searching e w'⟩ t e' w').Plain :=
        ⟨Coordinator.plain_fresh t _ e', hw⟩
      refine ⟨?_, ?_, .ready hs⟩
      · rintro _ ⟨⟩
        exact hs
      · rintro _ ⟨⟩

theorem withScheduler_plain (hs : Surroundings.Plain) (h : c.stage.Plain) {root : Option Text}
    (hr : ∀ r ∈ root, r.Scalar) {go : Scheduler → Reply × Scheduler} (hgo : Scheduler.Keeps go) :
    PlainReply (c.withScheduler root go).1 ∧ (c.withScheduler root go).2.stage.Plain := by
  obtain ⟨hok, herror, hstage⟩ := scheduler_plain h root
  unfold withScheduler
  split
  · next p c' he =>
    rw [he] at herror hstage
    exact ⟨herror p rfl, hstage⟩
  · next s c' he =>
    rw [he] at hok
    have hs' : (root.elim s (addRoot s)).Plain := by
      cases root with
      | none => exact hok s rfl
      | some root => exact (hok s rfl).addRoot hs (hr root rfl)
    obtain ⟨hreply, hleft⟩ := hgo _ hs'
    exact ⟨hreply, .ready hleft⟩

theorem withArgument_plain (h : c.stage.Plain) {args : Field.Members}
    (ha : ∀ m ∈ args, m.2.Scalar) (t : Tool) {go : Text → Reply × ToolContext}
    (hgo : ∀ v, v.Scalar → PlainReply (go v).1 ∧ (go v).2.stage.Plain) :
    PlainReply (c.withArgument args t go).1 ∧ (c.withArgument args t go).2.stage.Plain := by
  unfold withArgument require
  cases hl : (Field.lookup args t.parameter.name).filter (·.isGiven) with
  | none =>
    have hname : t.parameter.name.Scalar := by cases t <;> exact Text.scalar_ofString _
    refine ⟨plainReply_failure (Failure.plain_report ?_ nofun nofun), h⟩
    simp [Failure.message, hname]
  | some v =>
    exact hgo _ (scalar_of_lookup ha (Option.eq_some_of_filter_eq_some hl)).shown

theorem callTool_plain (hs : Surroundings.Plain) (h : c.stage.Plain) (t : Tool)
    {args : Field.Members} (ha : ∀ m ∈ args, m.2.Scalar) :
    PlainReply (c.callTool t args).1 ∧ (c.callTool t args).2.stage.Plain := by
  cases t with
  | rebuild =>
    exact withArgument_plain h ha _ fun root hr =>
      withScheduler_plain hs h (by simpa using hr) (Scheduler.keeps_rebuild hs hr)
  | getDiagnostics =>
    exact withArgument_plain h ha _ fun root hr =>
      withScheduler_plain hs h (by simpa using hr) (Scheduler.keeps_getDiagnostics hs hr)
  | documentSymbols =>
    exact withArgument_plain h ha _ fun uri hu =>
      withScheduler_plain hs h (by simp) (Scheduler.keeps_documentSymbols hu)
  | workspaceSymbols =>
    refine withScheduler_plain hs h (by simp) (Scheduler.keeps_workspaceSymbols ?_)
    cases hl : Field.lookup args Tool.workspaceSymbols.parameter.name with
    | none => exact .str Text.scalar_nil
    | some v => exact scalar_of_lookup ha hl

theorem dispatch_plain (hs : Surroundings.Plain) (h : c.stage.Plain) (hk : k.Scalar) :
    (∀ v, c.reply k = .ok v → v.Plain 5) ∧ (c.next k).stage.Plain := by
  unfold reply next dispatch
  split
  · refine ⟨?_, h⟩
    rintro _ ⟨⟩
    exact plain_mistake (by simp [hk.name])
  · next t ht =>
    obtain ⟨hreply, hstage⟩ := callTool_plain hs h t hk.args
    generalize c.callTool t k.args = r at hreply hstage
    rcases r with ⟨(f | p) | v, c'⟩
    · exact ⟨hreply, hstage⟩
    · exact ⟨nofun, hstage⟩
    · exact ⟨hreply, hstage⟩

/-- The contexts that plain processes lead to. A toolchain is looked for, roots are named, the
coordinator takes steps while the world changes, and calls are served, in any order. -/
inductive Reached : ToolContext → Prop
  | searching (settings : Settings) (e : Editor) {w : World}
      (hw : ∀ start ∈ w.starts, Start.Plain start) : Reached ⟨settings, .searching e w⟩
  | found {c : ToolContext} (h : Reached c) (root : Option Text) : Reached (c.scheduler root).2
  | named {settings : Settings} {s : Scheduler} {root : Text} (h : Reached ⟨settings, .ready s⟩)
      (hr : root.Scalar) : Reached ⟨settings, .ready (addRoot s root)⟩
  | stepped {settings : Settings} {s s' : Scheduler} {e : Event}
      (h : Reached ⟨settings, .ready s⟩) (he : e.Plain)
      (hs : s'.coordinator = s.coordinator.step e)
      (hw : ∀ start ∈ s'.world.starts, Start.Plain start) : Reached ⟨settings, .ready s'⟩
  | called {c : ToolContext} {k : Call} (h : Reached c) (hk : k.Scalar) : Reached (c.next k)

theorem Reached.plain (hs : Surroundings.Plain) (h : c.Reached) : c.stage.Plain := by
  induction h with
  | searching _ _ hw => exact .searching hw
  | found _ root ih => exact (scheduler_plain ih root).2.2
  | named _ hr ih =>
    cases ih with
    | ready h => exact .ready (h.addRoot hs hr)
  | stepped _ he hstep hw ih =>
    cases ih with
    | ready h => exact .ready ⟨hstep ▸ h.coordinator.step hs he, hw⟩
  | called _ hk ih => exact (dispatch_plain hs ih hk).2

/-- A call is answered with one text that can be sent. Its result is read back from it, with its
members in their order; of a crash it has an object that tells of an error alone. So has the
text for a build that is awaited while other steps are taken. -/
theorem call_read_back (hs : Surroundings.Plain) (hc : c.Reached) (hk : k.Scalar) :
    (c.call k.name k.args).1.Scalar ∧
    (∀ v, c.reply k = .ok v → Json.read (c.call k.name k.args).1 = .ok v) ∧
    (∀ p, c.reply k = .error p →
      ∃ m, Json.read (c.call k.name k.args).1 = .ok (.obj [("error", .str m)])) ∧
    ∀ s root task, c.stage = .ready s → root.Scalar →
      Json.read (replyText (.ok (buildReply root s.coordinator task))) =
        .ok (buildReply root s.coordinator task) := by
  have hcall : (c.call k.name k.args).1 = replyText (c.reply k) := rfl
  rw [hcall]
  refine ⟨?_, fun v hv => ?_, fun p hp => ?_, fun s root task hstage hr => ?_⟩
  · cases c.reply k with
    | ok v => exact Json.scalar_write .lines 0 v
    | error p => exact Json.scalar_write .oneLine 0 (mistake p.message)
  · rw [hv]
    exact Json.read_write (((dispatch_plain hs (hc.plain hs) hk).1 v hv).mono hs.nesting) .lines
  · rw [hp]
    have hd : 0 < Json.depthLimit := Nat.lt_of_lt_of_le (by decide) hs.nesting
    exact Json.exists_read_write hd (Text.scalar_ofString _) p.message .oneLine
  · have h := hc.plain hs
    rw [hstage] at h
    cases h with
    | ready h =>
      exact Json.read_write ((h.coordinator.buildReply hr task).mono hs.nesting) .lines

end ToolContext

end

namespace ToolContext

open Surroundings

theorem plain_usual : Surroundings.Plain where
  directory := Text.scalar_ofString "/"
  integers := Field.laxIntegers_usual
  nesting := by decide

/-- A process that prints a diagnostic for a path outside ASCII, with a coordinate of many
digits. -/
def farProcess : Script :=
  { out := DiagnosticRecord.printed ⟨"é\u0007😀", ⟨0, 0, 100000000000000000000, 1⟩, "m"⟩ }

theorem plain_farProcess : farProcess.Plain := by
  obtain ⟨hdiagnostics, hsymbols, hlength⟩ :
      (Stream.items farProcess.out).1.filterMap Stream.diagnosticRecord? =
        [⟨"é\u0007😀", ⟨0, 0, 100000000000000000000, 1⟩, "m"⟩] ∧
      (Stream.items farProcess.out).1.filterMap Stream.symbolRecord? = [] ∧
      farProcess.out.length < 10 ^ 3 := by decide +kernel
  refine ⟨fun r hr => ?_, hlength.trans_le (Nat.pow_le_pow_right (by decide) (by decide)), ?_⟩
  · cases r with
    | diagnostic r =>
      have hr := Stream.mem_diagnosticRecords.mpr hr
      rw [hdiagnostics] at hr
      cases List.mem_singleton.mp hr
      exact ⟨Text.scalar_ofString _, Text.scalar_ofString _⟩
    | symbol r =>
      have hr := Stream.mem_symbolRecords.mpr hr
      rw [hsymbols] at hr
      cases hr
    | log | unknown => trivial
  · rintro _ ⟨⟩
    exact Nat.pow_pos (by decide)

def farAnswer : Text :=
  Text.ofString "\x7b\"root\": \"/r\", \"diagnostics\": " ++
    Text.ofString "\x7b\"\\u00e9\\u0007\\ud83d\\ude00\": [" ++
    Text.ofString "\x7b\"path\": \"\\u00e9\\u0007\\ud83d\\ude00\", " ++
    Text.ofString "\"uri\": \"file:///r/%C3%A9%07%F0%9F%98%80\", " ++
    Text.ofString "\"range\": \x7b\"line_start\": 0, \"col_start\": 0, " ++
    Text.ofString "\"line_end\": 100000000000000000000, \"col_end\": 1\x7d, " ++
    Text.ofString "\"message\": \"m\", \"severity\": \"error\"\x7d]\x7d\x7d"

/-- The diagnostics of such a process are read back. A query that is a number is a crash. -/
theorem call_read_back_of_farProcess :
    ∃ (c : ToolContext) (k k' : Call) (v : Value) (m : Text), v.compact = farAnswer ∧
      Json.read (c.call k.name k.args).1 = .ok v ∧
      Json.read (c.call k'.name k'.args).1 = .ok (.obj [("error", .str m)]) := by
  let w : World := { files := .ofList [("/r/reproto.toml", [])], starts := [.ok farProcess] }
  let root : Field.Members := [("root", .str "/r")]
  let c := (create { executable := some "/opt/reproto" } w).next ⟨"reproto_rebuild", root⟩
  let k : Call := ⟨"reproto_get_diagnostics", root⟩
  let k' : Call := ⟨"reproto_workspace_symbols", [("query", .int 5)]⟩
  have hw : ∀ start ∈ w.starts, Start.Plain start := by
    simp only [w, List.forall_mem_singleton]
    rintro _ ⟨⟩
    exact plain_farProcess
  have hroot : ∀ m ∈ root, m.2.Scalar :=
    List.forall_mem_singleton.mpr (.str (Text.scalar_ofString _))
  have hc : c.Reached := .called (.searching _ {} hw) ⟨Text.scalar_ofString _, hroot⟩
  have hk : k.Scalar := ⟨Text.scalar_ofString _, hroot⟩
  have hk' : k'.Scalar := ⟨Text.scalar_ofString _, List.forall_mem_singleton.mpr (.int 5)⟩
  obtain ⟨hreply, hcrash⟩ : (c.reply k).toOption.map Value.compact = some farAnswer ∧
      (c.reply k').toOption.isNone := by
    rw [farAnswer]
    repeat rw [Text.ofString_eq_map rfl]
    decide +kernel
  cases hv : c.reply k with
  | error p =>
    rw [hv] at hreply
    cases hreply
  | ok v =>
    cases hp : c.reply k' with
    | ok v' =>
      rw [hp] at hcrash
      cases hcrash
    | error p =>
      rw [hv] at hreply
      obtain ⟨m, hm⟩ := (call_read_back plain_usual hc hk').2.2.1 p hp
      exact ⟨c, k, k', v, m, Option.some.inj hreply,
        (call_read_back plain_usual hc hk).2.1 v hv, hm⟩

end ToolContext

end Workbench
