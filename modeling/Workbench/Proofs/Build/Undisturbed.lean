import Workbench.Proofs.Build.Answers
import Workbench.Proofs.Build.Snapshots

/-! # Builds beside an editor that takes all that it is told

Sessions share an editor, and what it does not take ends the session that this came from.
Where the editor takes every line and every piece of text, sessions do not disturb one another:
each ends as it does on its own.
-/

namespace Workbench

/-- The output channel takes every entry. -/
structure Editor.Open (e : Editor) : Prop where
  closed : e.closed = false
  next : ∀ k, e.next k = []

namespace Editor

theorem open_fresh (confirms : Bool) : Open { confirms } := ⟨rfl, fun k => by cases k <;> rfl⟩

variable {e e' : Editor} {k : Entry} {n : Nat}

namespace Open

theorem of_later (h : e.Open) (hl : e.Later e') : e'.Open :=
  ⟨hl.closed.trans h.closed, fun k => List.suffix_nil.mp (h.next k ▸ hl.next k)⟩

theorem takesAfter (h : e.Open) (k : Entry) (n : Nat) : e.takesAfter k n = true := by
  rw [Editor.takesAfter, h.next, List.getD_nil]
  cases k
  · rfl
  · rw [takesRest, h.closed]
    rfl

theorem takes (h : e.Open) (k : Entry) : e.takes k = true :=
  (e.takesAfter_zero k).symm.trans (h.takesAfter k 0)

theorem call (h : e.Open) (c : Call) : (e.call c).Open := h.of_later (e.later_call c)

theorem add (h : e.Open) (k : Entry) (t : Text) : (e.add k t).1.Open ∧ (e.add k t).2 = none := by
  refine ⟨h.of_later (e.later_add k t), ?_⟩
  rw [snd_add, h.takes, if_pos rfl]

theorem alike (h : e.Open) (h' : e'.Open) : Alike (fun _ => []) (fun _ => []) e e' :=
  ⟨h'.closed.trans h.closed.symm, fun k => ⟨[], h.next k, h'.next k⟩⟩

end Open

end Editor

/-! ## Sessions -/

variable [Surroundings]

namespace Session

variable {root : Text} {s : Session} {e : Editor} {c : Crash} {st : Findings × Editor}

theorem Refused.ne_closedOutput {item : Item} (h : Refused root e item c) (he : e.Open) :
    c ≠ .closedOutput := by
  rintro rfl
  cases h with
  | log h | failure h => cases h.symm.trans (he.takes .line)

theorem open_dispatchAll (root : Text) {r : Routed (Findings × Editor)} (h : r.state.2.Open)
    (items : List Item) : (r.dispatchAll (handlers root) items).1.state.2.Open ∧
      ∀ c, (r.dispatchAll (handlers root) items).2 = some c → c ≠ .closedOutput :=
  foldUntil_keeps (P := fun r : Routed (Findings × Editor) => r.state.2.Open)
    (fun _ item h => ⟨dispatch_keeps (fun _ t h => (h.add .line t).1) root item h, fun _ hc =>
      (dispatch_handlers_eq_some_iff.mp hc).ne_closedOutput h⟩) h items

theorem open_readPart (h : e.Open) (piece : Option (List UInt8)) :
    (s.readPart e piece).2.1.Open ∧ (s.readPart e piece).2.2 ≠ some .closedOutput := by
  obtain ⟨⟨q, crash⟩, ho, ha⟩ := exists_afterPump s e piece
  obtain ⟨hopen, hc⟩ := open_dispatchAll s.root (r := (s.pump e).routed) h
    (s.decoder.part piece).items
  rw [ho]
  constructor
  · have hr := ha.routed
    rw [← hr] at hopen
    exact hopen
  · intro hcrash
    obtain rfl : crash = some .closedOutput := hcrash
    rcases Option.or_eq_some_iff.mp ha.ending.symm with h | ⟨-, h⟩
    · exact hc _ h rfl
    · obtain ⟨a, -, ha⟩ := Option.map_eq_some_iff.mp h
      cases ha

def Unreadable (root : Text) (o : List Item × Option Abort) : Prop :=
  ∃ c, Stops root o c ∧ c ≠ .closedOutput

theorem not_unreadable_of_gathered {items : List Item} {ds : List Diagnostic} {ss : List Symbol}
    (h : Gathered root items ds ss) : ¬ Unreadable root (items, none) := by
  have located {α β : Type} {R : α → β → Prop} {as : List α} {bs : List β} {a : α}
      (h : List.Forall₂ R as bs) (ha : a ∈ as) : ∃ b, R a b := by
    induction h with
    | nil => cases ha
    | cons hr _ ih =>
      rcases List.mem_cons.mp ha with rfl | ha
      · exact ⟨_, hr⟩
      · exact ih ha
  rintro ⟨c, hs, hc⟩
  cases hs with
  | refused hi hr =>
    cases hr with
    | log | failure => exact hc rfl
    | @diagnostic r u hu =>
      obtain ⟨d, uri, hd, -⟩ := located h.diagnostics (List.mem_filterMap.mpr ⟨_, hi, rfl⟩)
      cases hd.symm.trans hu
    | @symbol r u hu =>
      obtain ⟨d, uri, hd, -⟩ := located h.symbols (List.mem_filterMap.mpr ⟨_, hi, rfl⟩)
      cases hd.symm.trans hu

theorem interrupted_iff (root : Text) (h : e.Open) (o : List Item × Option Abort) :
    (∃ c, Interrupted root e o c) ↔ Unreadable root o := by
  obtain ⟨items, a⟩ := o
  have hopen (l : List Item) := open_dispatchAll root (r := ⟨{}, ({}, e)⟩) h l
  constructor
  · rintro ⟨c, hi⟩
    cases hi with
    | @refused before after item _ _ q hq hr =>
      have hqo := (hopen before).1
      rw [hq] at hqo
      exact ⟨c, .refused (by simp) hr, hr.ne_closedOutput hqo⟩
    | aborted => exact ⟨_, .aborted, nofun⟩
  · intro hu
    rcases hd : Routed.dispatchAll (handlers root) ⟨{}, ({}, e)⟩ items with ⟨q, _ | c⟩
    · cases a with
      | some a => exact ⟨_, .aborted hd⟩
      | none =>
        obtain ⟨ds, ss, hg, -⟩ := dispatchAll_handlers hd
        exact absurd hu (not_unreadable_of_gathered hg)
    · obtain ⟨before, item, after, q, rfl, hq, hr⟩ :=
        foldUntil_eq_some_iff.mp (congrArg Prod.snd hd)
      exact ⟨c, .refused hq (dispatch_handlers_eq_some_iff.mp hr)⟩

end Session

namespace Build

/-- How the build of a root ends that is made on its own. -/
def aloneEnd (t : Toolchain) (root : Text) (start : Start) : Except Problem BuildResult :=
  ((Session.create root t).run start {} {}).result

def Fails (root : Text) (start : Start) : Prop :=
  ∀ p, start = .ok p → Session.Unreadable root (Stream.items p.out)

theorem aloneEnd_code (t : Toolchain) (root : Text) (start : Start) :
    (Fails (Path.absolute root) start ∧ ∃ f, aloneEnd t root start = .error f) ∨
      ∃ p r, start = .ok p ∧ ¬ Fails (Path.absolute root) start ∧
        aloneEnd t root start = .ok r ∧ r.exitCode = p.exit.code := by
  cases start with
  | error reason => exact .inl ⟨nofun, _, rfl⟩
  | ok p =>
    have hi := Session.interrupted_iff (Path.absolute root) (Editor.open_fresh false)
      (Stream.items p.out)
    rcases Session.run_ok root t p {} {} with ⟨c, hc, hr, -⟩ | ⟨hc, r, hr⟩
    · refine .inl ⟨?_, _, hr⟩
      rintro _ ⟨⟩
      cases hc with
      | output hc => exact hi.mp ⟨c, hc⟩
      | errors _ hp => exact absurd (fun i _ => (Editor.open_fresh false).takesAfter .piece i) hp
    · obtain ⟨-, -, -, -, -, hcode, -⟩ := Session.run_result rfl hr
      refine .inr ⟨p, r, rfl, fun hf => ?_, hr, hcode⟩
      obtain ⟨c, h⟩ := hi.mpr (hf p rfl)
      exact hc c (.output h)

end Build

structure Reading.Free (r : Reading) : Prop where
  crash : r.crash ≠ some .closedOutput
  fault : r.fault = none

open Build

/-! ## Coordinators -/

namespace Coordinator

variable {c c' : Coordinator} {e : Event} {x : Indices} {l l' : Nat → Start → Prop}

theorem open_readOutput {r : Reading} {ed : Editor} (h : ed.Open) (hr : r.Free) (n : Nat) :
    (r.readOutput ed n).2.Open ∧ (r.readOutput ed n).1.Free := by
  rcases r.readOutput_cases n with hread | ⟨rest, piece, hread⟩
  · rw [hread]
    exact ⟨h, hr⟩
  · rw [hread]
    obtain ⟨he, hc⟩ := Session.open_readPart (s := r.session) h piece
    exact ⟨he, hc, hr.fault⟩

omit [Surroundings] in
theorem open_readErrors {r : Reading} {ed : Editor} (h : ed.Open) (hr : r.Free) (n : Nat) :
    (r.readErrors ed n).2.Open ∧ (r.readErrors ed n).1.Free := by
  refine ⟨h.of_later ((r.consults_readErrors n).later ed), ?_⟩
  rcases r.readErrors_cases n with ⟨errors, hread⟩ | ⟨rest, t, hread⟩
  · rw [hread]
    exact ⟨hr.crash, hr.fault⟩
  · obtain ⟨-, ht⟩ := h.add .piece t
    rw [hread]
    generalize ed.add .piece t = out at ht
    obtain ⟨e, _ | c⟩ := out
    · exact ⟨hr.crash, hr.fault⟩
    · cases ht

/-- No session has been stopped by the editor. -/
structure Undisturbed (c : Coordinator) (l : Nat → Start → Prop) : Prop where
  editor : c.editor.Open
  reading : ∀ k ∈ c.tasks, ∀ r, k.phase = .reading r → r.Free
  failed : ∀ f ∈ c.finished, f.outcome = none → ∃ start, l f.task start ∧ Fails f.key start

namespace Undisturbed

theorem step_of_eq (h : c.Undisturbed l) (hl : ∀ id start, l id start → l' id start)
    (he : c'.editor.Open) (hf : c'.finished = c.finished)
    (ht : ∀ k ∈ c'.tasks, k ∈ c.tasks ∨
      ∀ r, k.phase = .reading r → r.Free) : c'.Undisturbed l' := by
  refine ⟨he, fun k hk => (ht k hk).elim (h.reading k) id, fun f hf' ho => ?_⟩
  exact (h.failed f (hf ▸ hf') ho).imp fun start hs => ⟨hl _ _ hs.1, hs.2⟩

theorem step_of_finish (h : c.Undisturbed l) (hl : ∀ id start, l id start → l' id start)
    (he : c'.editor.Open) {k : Task} {o : Option (BuildResult × Findings)}
    (hf : c'.finished = c.finished ++ [⟨k.id, k.root, o⟩])
    (ht : c'.tasks = (c.setPhase k.id .finished).tasks)
    (ho : o = none → ∃ start, l' k.id start ∧ Fails (Path.rootKey k.root) start) :
    c'.Undisturbed l' := by
  refine ⟨he, fun k' hk' r hp => ?_, fun f hf' hnone => ?_⟩
  · rw [ht] at hk'
    obtain ⟨i, hi, rfl⟩ := List.mem_map.mp hk'
    split_ifs at hp
    exact h.reading i hi r hp
  · rw [hf] at hf'
    rcases List.mem_append.mp hf' with hf' | hf'
    · exact (h.failed f hf' hnone).imp fun start hs => ⟨hl _ _ hs.1, hs.2⟩
    · obtain rfl := List.mem_singleton.mp hf'
      exact ho hnone

theorem step (h : c.Undisturbed l) (hb : c.Ledger x l) (hl : ∀ id start, l id start → l' id start)
    (hnew : ∀ k s start, c.task? k.id = some k → k.phase = .spawning s →
      e = .launch k.id start → l' k.id start) (hm : Move c e c') : c'.Undisturbed l' := by
  have hset {k : Task} {phase : Phase} (hk : c.task? k.id = some k)
      (hr : ∀ r, phase = .reading r → r.Free) :
      ∀ i ∈ (c.setPhase k.id phase).tasks, i ∈ c.tasks ∨
        ∀ r, i.phase = .reading r → r.Free := by
    intro i hi
    rcases (mem_setPhase hk hb.numbered).mp hi with rfl | ⟨hi, -⟩
    · exact .inr hr
    · exact .inl hi
  have hsched {id : Nat} {root : Text} : ∀ r, (⟨id, root, .scheduled⟩ : Task).phase = .reading r →
      r.Free := by
    rintro r ⟨⟩
  cases hm with
  | idle | coalesce => exact h.step_of_eq hl h.editor rfl fun _ hk => .inl hk
  | start =>
    refine h.step_of_eq hl h.editor rfl fun _ hk => ?_
    rcases mem_start.mp hk with hk | rfl
    · exact .inl hk
    · exact .inr hsched
  | begin hk =>
    refine h.step_of_eq hl h.editor rfl (hset hk ?_)
    rintro r ⟨⟩
  | launch hk =>
    refine h.step_of_eq hl h.editor rfl (hset hk ?_)
    rintro _ ⟨⟩
    exact ⟨nofun, rfl⟩
  | refuse hk hp he =>
    refine h.step_of_finish hl ?_ rfl rfl fun _ => ⟨_, hnew _ _ _ hk hp rfl, ?_⟩
    · subst he
      exact h.editor.call _
    · rintro _ ⟨⟩
  | @output k r n hk hp =>
    obtain ⟨he, hfree⟩ := open_readOutput h.editor (h.reading k (mem_of_task? hk) r hp) n
    refine h.step_of_eq hl he rfl (hset hk ?_)
    rintro _ ⟨⟩
    exact hfree
  | @drain k r n hk hp =>
    obtain ⟨he, hfree⟩ := open_readErrors h.editor (h.reading k (mem_of_task? hk) r hp) n
    refine h.step_of_eq hl he rfl (hset hk ?_)
    rintro _ ⟨⟩
    exact hfree
  | @crash k r cr _ hk hp hc he =>
    obtain ⟨p, hs, hr⟩ := (hb.traced _ (mem_of_task? hk)).of_reading hp
    refine h.step_of_finish hl ?_ rfl rfl fun _ => ⟨_, hl _ _ hs, ?_⟩
    · subst he
      exact h.editor.call _
    · rintro _ ⟨⟩
      rw [Path.rootKey_eq_absolute]
      obtain ⟨hne, hf⟩ := h.reading k (mem_of_task? hk) r hp
      rw [Reading.ended, hf, Option.none_or] at hc
      refine ⟨cr, hr.stopped cr hc, ?_⟩
      rintro rfl
      exact hne hc
  | commit hk hp hc ho hr he =>
    refine h.step_of_finish hl ?_ rfl rfl (by simp)
    subst he
    change (ite _ _ _ : Editor).Open
    split_ifs
    · exact h.editor
    · exact h.editor.call _
  | settle | drop =>
    exact h.step_of_eq hl h.editor rfl fun _ hk => .inl (mem_discard.mp hk).1
  | @follow k =>
    have hed :
        ({ c.discard k with pending := c.pending.erase k.key }.trigger k.root true).1.editor =
        c.editor := by
      rw [trigger_true]
      split_ifs <;> rfl
    obtain ⟨-, hf⟩ := trigger_ends { c.discard k with pending := c.pending.erase k.key } k.root
    refine h.step_of_eq hl (hed.symm ▸ h.editor) hf fun _ hk => ?_
    rcases mem_trigger hk with hk | rfl
    · exact .inl (mem_discard.mp hk).1
    · exact .inr hsched

end Undisturbed

theorem undisturbed_run (t : Toolchain) (roots : List Text) (sf : Bool) {ed : Editor}
    (he : ed.Open) (x : Indices) (events : List Event) :
    ((fresh t roots sf ed x).run events).Undisturbed ((fresh t roots sf ed x).Launched events) := by
  induction events using List.reverseRecOn with
  | nil =>
    exact ⟨he, fun _ hk => absurd hk List.not_mem_nil, fun _ hf => absurd hf List.not_mem_nil⟩
  | append_singleton events e ih =>
    rw [run_concat]
    refine ih.step (ledger_run t roots sf ed x events) ?_ ?_ (step_move _ e)
    · exact fun _ _ h => h.concat e
    · rintro k s start hk hp rfl
      exact .last hk hp

/-- Beside an editor that takes all it is told each session ends as it does on its own. -/
theorem outcome_alone {t : Toolchain} {roots : List Text} {sf : Bool} {ed : Editor}
    (he : ed.Open) {x : Indices} {events : List Event} {f : Finish}
    (hf : f ∈ ((fresh t roots sf ed x).run events).finished) :
    ∃ start, (fresh t roots sf ed x).Launched events f.task start ∧
      f.outcome.map (·.1.exitCode) = (aloneEnd t f.root start).toOption.map (·.exitCode) := by
  have hkey : f.key = Path.absolute f.root := Path.rootKey_eq_absolute _
  cases ho : f.outcome with
  | none =>
    obtain ⟨start, hs, hfail⟩ := (undisturbed_run t roots sf he x events).failed f hf ho
    rw [hkey] at hfail
    refine ⟨start, hs, ?_⟩
    rcases aloneEnd_code t f.root start with ⟨-, p, hp⟩ | ⟨_, _, -, hn, -⟩
    · rw [hp]
      rfl
    · exact absurd hfail hn
  | some o =>
    obtain ⟨start, hs, ht⟩ := (ledger_run t roots sf ed x events).tells f hf
    refine ⟨start, hs, ?_⟩
    cases ht with
    | refused h | stopped _ h | unheard _ h => cases ho.symm.trans h
    | @committed p ds ss r ha hg hr hc h =>
      obtain rfl := Option.some.inj (ho.symm.trans h)
      rw [hkey] at hg
      rcases aloneEnd_code t f.root (.ok p) with ⟨hfail, -⟩ | ⟨_, r', ⟨⟩, -, hr', hc'⟩
      · have hu := hfail p rfl
        rw [show Stream.items p.out = ((Stream.items p.out).1, none) from Prod.ext rfl ha] at hu
        exact absurd hu (Session.not_unreadable_of_gathered hg)
      · rw [hr', Except.toOption, Option.map_some, Option.map_some, hc, hc']

end Coordinator

end Workbench
