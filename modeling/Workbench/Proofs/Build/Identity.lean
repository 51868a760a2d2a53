import Workbench.Proofs.Build.Resilience
import Workbench.Proofs.Build.Snapshots
import Workbench.Proofs.Path.Keys

/-! # One root, one identity

What a coordinator, its sessions and the indices keep of a root they keep under the identity of
the root, however the root was spelt. Spellings with one identity do the same everywhere, and
spellings with two are two roots.
-/

namespace Workbench

open Build OrderedMap

/-! ## Indices -/

section

variable [Surroundings]

namespace Indices

variable {x : Indices} {p q root : Text} {f : Findings} {code : Option Int}

theorem get_commit (h : Path.rootKey root = Path.rootKey p) :
    (x.commit root f code).diagnostics.get p = f.diagnostics := by
  rw [commit, DiagnosticIndex.get, getD, DiagnosticIndex.get?_commit, if_pos h]
  rfl

theorem forRoot_commit (h : Path.rootKey root = Path.rootKey p) (h0 : code = some 0) :
    (x.commit root f code).symbols.forRoot p = f.symbols := by
  rw [commit, if_pos h0, SymbolIndex.forRoot, getD, SymbolIndex.get?_byRoot_commitFiles, if_pos h]
  rfl

theorem commit_of_ne (h : Path.rootKey p ≠ Path.rootKey q) :
    (x.commit p f code).diagnostics.get q = x.diagnostics.get q ∧
      (x.commit p f code).symbols.forRoot q = x.symbols.forRoot q := by
  constructor
  · rw [commit, DiagnosticIndex.get, getD, DiagnosticIndex.get?_commit, if_neg h]
    rfl
  · rw [commit]
    split_ifs
    · rw [SymbolIndex.forRoot, getD, SymbolIndex.get?_byRoot_commitFiles, if_neg h]
      rfl
    · rfl

end Indices

namespace Coordinator

variable {c : Coordinator} {k : Task} {p q key : Text}

/-! ## Kept under the identity -/

/-- What is kept of a root under a key. -/
structure KeptUnder (c : Coordinator) (p key : Text) : Prop where
  session : ∀ t, (Session.create p t).root = key
  /-- A task of the root has the key for its root, and so has its session. -/
  task : ∀ k ∈ c.tasks, k.key = key → k.root = key ∧
    (∀ s, k.phase = .spawning s → s.root = key) ∧
    ∀ r, k.phase = .reading r → r.session.root = key
  inflight : ∀ id, c.inflight.get? key = some id → ∃ k ∈ c.tasks, k.id = id ∧ k.root = key
  /-- The task that answers a request is the one in flight. -/
  answered : ∀ m id, (c.trigger p m).2 = some id →
    (c.trigger p m).1.inflight.get? key = some id ∧
      ∃ k ∈ (c.trigger p m).1.tasks, k.id = id ∧ k.root = key
  /-- The end of the task in flight takes it out. -/
  discarded : ∀ k ∈ c.tasks, c.inflight.get? key = some k.id →
    (c.discard k).inflight.get? key = none
  ended : ∀ f ∈ c.finished, f.key = key → f.root = key ∧
    ∀ r found, f.outcome = some (r, found) → r.root = key
  /-- A session commits the entries that are shown for the root. -/
  committed : ∀ (x : Indices) t f code,
    (x.commit (Session.create p t).root f code).diagnostics.get p = f.diagnostics ∧
      (code = some 0 → (x.commit (Session.create p t).root f code).symbols.forRoot p = f.symbols)
  shown : ∀ x : Indices, x.diagnostics.get p = x.diagnostics.byRoot.getD key {} ∧
    x.symbols.forRoot p = x.symbols.byRoot.getD key []

theorem root_create (p : Text) (t : Toolchain) : (Session.create p t).root = Path.rootKey p :=
  (Path.rootKey_eq_absolute p).symm

theorem rootKey_root_create (p : Text) (t : Toolchain) :
    Path.rootKey (Session.create p t).root = Path.rootKey p := by
  rw [root_create, Path.rootKey_rootKey]

theorem get?_inflight_start (c : Coordinator) (h : Path.rootKey key = key) :
    (c.start key).inflight.get? key = some c.nextId := by
  rw [start, h, get?_insert, if_pos rfl]

theorem get?_inflight_trigger (c : Coordinator) (root : Text) :
    (c.trigger root true).1.inflight.get? (Path.rootKey root) = (c.trigger root true).2 := by
  have hs := c.get?_inflight_start (Path.rootKey_rootKey root)
  simp only [trigger, ← Path.rootKey_eq_absolute, Path.rootKey_rootKey]
  cases c.singleFlight with
  | false => exact hs
  | true =>
    cases hi : c.inflight.get? (Path.rootKey root) with
    | none => exact hs
    | some id => exact hi

theorem trigger_of_none {root : Text} (h : c.inflight.get? (Path.rootKey root) = none) :
    (c.trigger root true).2 = some c.nextId := by
  simp only [trigger, ← Path.rootKey_eq_absolute, Path.rootKey_rootKey, h]
  cases c.singleFlight <;> rfl

theorem Led.answered (h : c.Led) {m : Bool} {id : ℕ} (ha : (c.trigger p m).2 = some id) :
    (c.trigger p m).1.inflight.get? (Path.rootKey p) = some id ∧
      ∃ k ∈ (c.trigger p m).1.tasks, k.id = id ∧ k.root = Path.rootKey p := by
  cases m with
  | false => cases ha
  | true =>
    have hi := (c.get?_inflight_trigger p).trans ha
    exact ⟨hi, mem_heads.mp ((h.trigger p).inflight _ _ hi)⟩

theorem Led.discarded (h : c.Led) (hk : k ∈ c.tasks) (hi : c.inflight.get? key = some k.id) :
    (c.discard k).inflight.get? key = none := by
  obtain ⟨i, hm, hid, rfl⟩ := mem_heads.mp (h.inflight key k.id hi)
  obtain rfl := h.numbered.eq_of_id hm hk hid
  rw [← h.numbered.key_eq hm] at hi ⊢
  change (if c.inflight.get? i.key = some i.id then c.inflight.erase i.key
    else c.inflight).get? i.key = none
  rw [if_pos hi, get?_erase, if_pos rfl]

theorem rootKey_of_finished (t : Toolchain) (roots : List Text) (sf : Bool) (ed : Editor)
    (x : Indices) (events : List Event) :
    ∀ f ∈ ((fresh t roots sf ed x).run events).finished, Path.rootKey f.root = f.root := by
  have hrun := run_induction (c := fresh t roots sf ed x)
    (P := fun c => c.books.Numbered ∧ ∀ f ∈ c.finished, Path.rootKey f.root = f.root)
    ⟨(accounted_fresh t roots sf ed x).numbered, nofun⟩
  refine (hrun ?_ events).2
  rintro c c' e ⟨hn, hf⟩ hm
  refine ⟨hn.step hm, ?_⟩
  rcases hm.finished with he | ⟨k, hk, -, o, he⟩
  · rw [he]
    exact hf
  · rw [he]
    rintro f hfm
    rcases List.mem_append.mp hfm with hfm | hfm
    · exact hf f hfm
    · obtain rfl := List.mem_singleton.mp hfm
      exact hn.key_eq hk

theorem led_run (t : Toolchain) (roots : List Text) (sf : Bool) (ed : Editor) (x : Indices)
    (events : List Event) : ((fresh t roots sf ed x).run events).Led :=
  run_induction (led_fresh t roots sf ed x) Led.step events

theorem rootKey_of_mem_books (t : Toolchain) (roots : List Text) (sf : Bool) (ed : Editor)
    (x : Indices) {events : List Event} (hc : (fresh t roots sf ed x).run events = c) :
    ∀ key ∈ c.inflight.keys ++ c.pending, Path.rootKey key = key := by
  have hl := led_run t roots sf ed x events
  rw [hc] at hl
  intro key hk
  rcases List.mem_append.mp hk with hk | hk
  · obtain ⟨id, hi⟩ := Option.isSome_iff_exists.mp (isSome_get?.mpr hk)
    exact hl.numbered.keyed (id, key) (hl.inflight key id hi)
  · cases hs : c.singleFlight with
    | false =>
      rw [hl.pending hs] at hk
      cases hk
    | true =>
      subst hc
      rw [(settings_run _ events).2.2] at hs
      have hx := exclusive_run (exclusive_fresh t roots sf ed x) hs events
      obtain ⟨head, hm, rfl⟩ := List.mem_map.mp (hx.pending key hk)
      exact hx.keyed head hm

theorem keptUnder_run {t : Toolchain} {roots : List Text} {sf : Bool} {ed : Editor} {x : Indices}
    {events : List Event} (hc : (fresh t roots sf ed x).run events = c) (p : Text) :
    c.KeptUnder p (Path.rootKey p) := by
  have hl := led_run t roots sf ed x events
  have hb := ledger_run t roots sf ed x events
  have hf := rootKey_of_finished t roots sf ed x events
  rw [hc] at hl hb hf
  constructor
  case session => exact root_create p
  case task =>
    intro k hk hkey
    refine ⟨(hl.numbered.key_eq hk).symm.trans hkey, ?_, ?_⟩
    · intro s hp
      obtain ⟨t, rfl⟩ := (hb.traced k hk).of_spawning hp
      exact (root_create k.root t).trans hkey
    · intro r hp
      obtain ⟨script, -, hr⟩ := (hb.traced k hk).of_reading hp
      exact hr.root_eq.trans ((Path.rootKey_eq_absolute k.root).symm.trans hkey)
  case inflight => exact fun id hi => mem_heads.mp (hl.inflight _ id hi)
  case answered => exact fun m id ha => hl.answered ha
  case discarded => exact fun k hk hi => hl.discarded hk hi
  case ended =>
    intro f hm hkey
    refine ⟨(hf f hm).symm.trans hkey, fun r found ho => ?_⟩
    obtain ⟨start, -, ht⟩ := hb.tells f hm
    cases ht with
    | refused hn => cases hn.symm.trans ho
    | stopped _ hn => cases hn.symm.trans ho
    | unheard _ hn => cases hn.symm.trans ho
    | committed _ _ hr _ ho' =>
      cases ho'.symm.trans ho
      exact hr.trans hkey
  case committed =>
    intro x t f code
    have hk := rootKey_root_create p t
    exact ⟨Indices.get_commit hk, Indices.forRoot_commit hk⟩
  case shown => exact fun x => ⟨rfl, rfl⟩

/-- Below every working directory the identity of a root has the normal form, is settled, and is
the absolute path of the root. After any steps, with single flight or without it, the
coordinator, the sessions and the indices keep what they know of the root under its identity. -/
theorem identity_run {t : Toolchain} {roots : List Text} {sf : Bool} {ed : Editor} {x : Indices}
    {events : List Event} (hc : (fresh t roots sf ed x).run events = c) (p : Text) :
    (∀ dir, Path.isAbsolute dir → Path.IsKeyOf dir p (Path.keyFrom dir p)) ∧
    Path.rootKey p = Path.keyFrom Path.workingDirectory p ∧
    (∀ k, Path.IsKey k ↔ Path.rootKey k = k) ∧
    c.roots = roots.map Path.rootKey ∧
    (∀ key ∈ c.inflight.keys ++ c.pending, Path.rootKey key = key) ∧
    c.KeptUnder p (Path.rootKey p) := by
  refine ⟨fun dir hd => Path.isKeyOf_keyFrom hd p, Path.rootKey_eq_keyFrom p, ?_, ?_,
    rootKey_of_mem_books t roots sf ed x hc, keptUnder_run hc p⟩
  · exact fun k => Path.isKey_iff_keyFrom_eq Path.isAbsolute_workingDirectory
  · rw [← hc, (settings_run _ events).2.1]
    exact List.map_congr_left fun root _ => (Path.rootKey_eq_absolute root).symm

end Coordinator

end

open Build Surroundings Coordinator in
/-- The root `/ws`, as it is spelt below a working directory. -/
theorem Coordinator.identity_of_begun_build :
    ∃ c, (fresh default ["ws/"] true {} {}).run [.trigger "../ws/sub/.." true, .begin 0] = c ∧
      c.tasks.map Task.root = [Text.ofString "/ws"] ∧
      c.inflight.keys = [Text.ofString "/ws"] ∧ c.roots = [Text.ofString "/ws"] ∧
      c.KeptUnder "../ws/sub/.." "/ws" ∧ Path.IsKeyOf "/home" "../ws/sub/.." "/ws" := by
  obtain ⟨hk, -, -, hr, -, hu⟩ := identity_run (c := (fresh default ["ws/"] true {} {}).run
    [.trigger "../ws/sub/.." true, .begin 0]) rfl "../ws/sub/.."
  have hkey : Path.rootKey "../ws/sub/.." = Text.ofString "/ws" := by decide +kernel
  have hhome : Path.keyFrom "/home" "../ws/sub/.." = Text.ofString "/ws" := by decide +kernel
  have hroots : [Text.ofString "ws/"].map Path.rootKey = [Text.ofString "/ws"] := by
    decide +kernel
  refine ⟨_, rfl, ?_, ?_, hr.trans hroots, hkey ▸ hu, hhome ▸ hk "/home" (by decide)⟩
  · decide +kernel
  · decide +kernel

section

variable [Surroundings]

namespace Coordinator

variable {p q key : Text}

/-! ## Spellings -/

/-- Two spellings of a root stand for one in all that is done. -/
structure SameRoot (p q : Text) : Prop where
  trigger : ∀ (c : Coordinator) m, c.trigger p m = c.trigger q m
  commit : ∀ (x : Indices) f code, x.commit p f code = x.commit q f code
  shown : ∀ x : Indices, x.diagnostics.get p = x.diagnostics.get q ∧
    x.symbols.forRoot p = x.symbols.forRoot q

/-- What is done with one spelling does not matter to the other. -/
structure OtherRoot (p q : Text) : Prop where
  /-- A build that runs under one spelling holds no build back under the other. -/
  started : ∀ c : Coordinator, c.inflight.get? (Path.rootKey q) = none →
    ((c.trigger p true).1.trigger q true).2 = some (c.trigger p true).1.nextId
  commit : ∀ (x : Indices) f code,
    (x.commit p f code).diagnostics.get q = x.diagnostics.get q ∧
      (x.commit p f code).symbols.forRoot q = x.symbols.forRoot q

theorem SameRoot.of_rootKey_eq (h : Path.rootKey p = Path.rootKey q) : SameRoot p q where
  trigger c m := by
    simp only [Coordinator.trigger, ← Path.rootKey_eq_absolute, h]
  commit := Indices.commit_congr h
  shown x := by
    rw [DiagnosticIndex.get, DiagnosticIndex.get, SymbolIndex.forRoot, SymbolIndex.forRoot, h]
    exact ⟨rfl, rfl⟩

theorem inflight_trigger_of_ne (h : Path.rootKey p ≠ key) (c : Coordinator) :
    (c.trigger p true).1.inflight.get? key = c.inflight.get? key := by
  rw [trigger_true]
  split_ifs
  · rfl
  · change (c.inflight.insert _ _).get? key = _
    rw [Path.rootKey_rootKey, get?_insert, if_neg h]

theorem OtherRoot.of_rootKey_ne (h : Path.rootKey p ≠ Path.rootKey q) : OtherRoot p q where
  started c hi := trigger_of_none ((inflight_trigger_of_ne h c).trans hi)
  commit _ _ _ := Indices.commit_of_ne h

theorem OtherRoot.not_sameRoot (h : OtherRoot p q) : ¬ SameRoot p q := by
  intro hs
  let f : Findings := { diagnostics := ⟨[([], [])]⟩ }
  have hp := (hs.shown (({} : Indices).commit p f none)).1
  rw [(h.commit {} f none).1, Indices.get_commit rfl] at hp
  cases hp

theorem sameRoot_iff : SameRoot p q ↔ Path.rootKey p = Path.rootKey q :=
  ⟨fun hs => by_contra fun hn => (OtherRoot.of_rootKey_ne hn).not_sameRoot hs, .of_rootKey_eq⟩

/-- Whatever the ways in which a root is respelt, its identity stays just if exactly two leading
slashes are neither made nor unmade, and then the spellings share the build in flight and the
entries of the indices. Behind anything but slashes this is so. Else they are two roots. -/
theorem respelled_sameRoot_iff {dir : Text} (h : Relation.EqvGen Path.Respelled p q)
    (hd : Path.isAbsolute dir) :
    (Path.keyFrom dir p = Path.keyFrom dir q ↔ (Path.DoubleSlashed p ↔ Path.DoubleSlashed q)) ∧
    (SameRoot p q ↔ (Path.DoubleSlashed p ↔ Path.DoubleSlashed q)) ∧
    (¬ SameRoot p q → OtherRoot p q) ∧
    ∀ a b b', p = a ++ b → q = a ++ b' → (∃ c ∈ a, c ≠ Path.slash) → SameRoot p q := by
  have hroot : SameRoot p q ↔ _ :=
    sameRoot_iff.trans (Path.keyFrom_eq_iff h Path.isAbsolute_workingDirectory)
  refine ⟨Path.keyFrom_eq_iff h hd, hroot, fun hn => .of_rootKey_ne (mt sameRoot_iff.mpr hn), ?_⟩
  rintro a b b' rfl rfl ha
  rw [hroot, Path.doubleSlashed_iff, Path.doubleSlashed_iff, Path.leading_append (.inl ha),
    Path.leading_append (.inl ha)]

end Coordinator

end

open Surroundings in
/-- A detour into a directory below the root is no other root. -/
theorem Coordinator.respelled_sameRoot_of_detour :
    Relation.EqvGen Path.Respelled "/ws/" "/ws/sub/../" ∧ Path.isAbsolute "/home" ∧
      Path.keyFrom "/home" "/ws/" = Path.keyFrom "/home" "/ws/sub/../" ∧
      SameRoot "/ws/" "/ws/sub/../" := by
  have hx : Path.IsName "sub" := ⟨by decide, by decide, by decide⟩
  have hr : Relation.EqvGen Path.Respelled "/ws/" "/ws/sub/../" :=
    .rel _ _ (.detour "/ws" [] hx (by decide))
  have hd : Path.isAbsolute "/home" := by decide
  obtain ⟨hk, hs, -, ha⟩ := respelled_sameRoot_iff hr hd
  have hsh := ha "/ws/" [] "sub/../" rfl rfl ⟨.char 'w', by decide, by decide⟩
  exact ⟨hr, hd, hk.mpr (hs.mp hsh), hsh⟩

open Surroundings in
/-- Where the leading slash is doubled, two builds of one directory run at a time, and what the
one has committed is not shown for the other. -/
theorem Coordinator.doubled_slash_is_another_root :
    Path.Respelled "/ws" "//ws" ∧ Path.rootKey "/ws" ≠ Path.rootKey "//ws" ∧
      ((fresh default [] true {} {}).run
        [.trigger "/ws" true, .trigger "//ws" true]).tasks.map Task.root =
          [Text.ofString "/ws", Text.ofString "//ws"] ∧
      ∀ ds, (({} : DiagnosticIndex).commit "/ws" ds).get "//ws" = {} := by
  have hne : Path.rootKey "/ws" ≠ Path.rootKey "//ws" := by decide +kernel
  refine ⟨.double [] "ws", hne, by decide +kernel, fun ds => ?_⟩
  rw [DiagnosticIndex.get, getD, DiagnosticIndex.get?_commit, if_neg hne]
  rfl

end Workbench
