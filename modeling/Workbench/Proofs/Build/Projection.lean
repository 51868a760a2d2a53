import Workbench.Proofs.Build.Answers
import Workbench.Proofs.Build.SingleFlight
import Workbench.Proofs.Build.Snapshots

/-! # The steps of one root

Each step is about one root at most. What is about other roots can be left out of a run,
for a step leaves all that another root has in the books and on record. The sessions of the
root are numbered anew then, for the others have had numbers too.
-/

namespace Workbench

open OrderedMap

namespace Build

def Event.renumber (f : Nat → Nat) : Event → Event
  | .begin id => .begin (f id)
  | .launch id start => .launch (f id) start
  | .output id n => .output (f id) n
  | .drain id n => .drain (f id) n
  | .exit id => .exit (f id)
  | .settle id m => .settle (f id) m
  | e => e

def Event.reads? [Surroundings] : Event → Option (Nat × (Reading → Editor → Reading × Editor))
  | .output id n => some (id, fun r e => r.readOutput e n)
  | .drain id n => some (id, fun r e => r.readErrors e n)
  | _ => none

theorem Event.reads?_renumber [Surroundings] (f : Nat → Nat) (e : Event) :
    (e.renumber f).reads? = e.reads?.map (Prod.map f id) := by
  cases e <;> rfl

end Build

open Build Finish

namespace Coordinator

variable {c c' c₁ : Coordinator} {e : Event} {k : Task} {key : Text} {ids : List Nat}

variable [Surroundings]

/-! ## Reading -/

def read (c : Coordinator) (id : Nat) (f : Reading → Editor → Reading × Editor) : Coordinator :=
  match c.task? id with
  | some ⟨_, _, .reading r⟩ =>
    let out := f r c.editor
    { c with editor := out.2 }.setPhase id (.reading out.1)
  | _ => c

theorem step_of_reads? {id : Nat} {f : Reading → Editor → Reading × Editor}
    (h : e.reads? = some (id, f)) : c.step e = c.read id f ∧ ∀ r, Editor.Consults (f r) := by
  cases e with
  | output =>
    cases h
    exact ⟨rfl, fun r => r.consults_readOutput _⟩
  | drain =>
    cases h
    exact ⟨rfl, fun r => r.consults_readErrors _⟩
  | _ => cases h

/-! ## Leaving out -/

def about? (c : Coordinator) : Event → Option Text
  | .trigger root _ => some (Path.rootKey root)
  | .touch uri _ =>
    match c.rootOf uri with
    | .ok root => root.map Path.rootKey
    | .error _ => none
  | .begin id | .launch id _ | .output id _ | .drain id _ | .exit id | .settle id _ =>
    (c.task? id).map Task.key

theorem about?_of_reads? {id : Nat} {f : Reading → Editor → Reading × Editor}
    (h : e.reads? = some (id, f)) : c.about? e = (c.task? id).map Task.key := by
  cases e with
  | output | drain =>
    cases h
    rfl
  | _ => cases h

/-- The numbers of the sessions of a root so far, in order, with the one that a step may start. -/
def numbers (c : Coordinator) (key : Text) (ids : List Nat) (e : Event) : List Nat :=
  ids ++ ((c.started e).filter (·.key = key)).map Task.id

/-- The steps of a run that are about a root; its sessions are numbered from zero. -/
def only (c : Coordinator) (key : Text) (ids : List Nat) : List Event → List Event
  | [] => []
  | e :: es =>
    (if c.about? e = some key then [e.renumber ids.idxOf] else []) ++
      (c.step e).only key (c.numbers key ids e) es

/-- The answers of the editor to the lines, or to the pieces, of the sessions of a root. -/
def answersTo (c : Coordinator) (key : Text) : List Event → Editor.Entry → List Bool
  | [], _ => []
  | e :: es, k =>
    (if c.about? e = some key then c.editor.answered (c.step e).editor k else []) ++
      (c.step e).answersTo key es k

theorem about?_of_request? (h : c.request? e = some key) : c.about? e = some key := by
  cases e with
  | trigger root m =>
    cases m with
    | false => cases h
    | true => exact h
  | touch uri m =>
    cases m with
    | false => cases h
    | true => exact h
  | _ => cases h

/-! ## What the steps of other roots leave -/

theorem Move.later (hm : Move c e c₁) : c.editor.Later c₁.editor := by
  cases hm with
  | output => exact (Reading.consults_readOutput _ _).later _
  | drain => exact (Reading.consults_readErrors _ _).later _
  | refuse _ _ he | crash _ _ _ he =>
    subst he
    exact Editor.later_call _ _
  | commit _ _ _ _ _ he =>
    subst he
    change c.editor.Later (ite _ _ _)
    split_ifs
    · exact .refl _
    · exact Editor.later_call _ _
  | follow =>
    rw [trigger_true]
    split_ifs <;> exact .refl _
  | _ => exact .refl _

theorem Move.next (hm : Move c e c₁) (h : e.reads? = none) (k : Editor.Entry) :
    c₁.editor.next k = c.editor.next k := by
  cases hm with
  | output | drain => cases h
  | refuse _ _ he | crash _ _ _ he =>
    subst he
    cases k <;> rfl
  | commit _ _ _ _ _ he =>
    subst he
    change (ite _ _ _ : Editor).next k = _
    split_ifs
    · rfl
    · cases k <;> rfl
  | follow =>
    rw [trigger_true]
    split_ifs <;> rfl
  | _ => rfl

theorem answersTo_of_nil {k : Editor.Entry} (h : c.editor.next k = []) (key : Text)
    (es : List Event) : c.answersTo key es k = [] := by
  induction es generalizing c with
  | nil => rfl
  | cons e es ih =>
    have hl := (step_move c e).later.next k
    rw [answersTo, ih (List.suffix_nil.mp (h ▸ hl))]
    simp [Editor.answered, h]

/-- What a root has in the books and on record is as it was. -/
structure Unseen (key : Text) (c c₁ : Coordinator) : Prop where
  tasks : c₁.tasks.filter (·.key = key) = c.tasks.filter (·.key = key)
  inflight : c₁.inflight.get? key = c.inflight.get? key
  pending : c₁.pending.count key = c.pending.count key
  finished : c₁.finished.filter (·.key = key) = c.finished.filter (·.key = key)

omit [Surroundings] in
theorem count_insert (key key' : Text) (keys : List Text) :
    (keys.insert key').count key =
      if key' = key then max 1 (keys.count key) else keys.count key := by
  by_cases hm : key' ∈ keys
  · rw [List.insert_of_mem hm]
    split_ifs with h
    · rw [Nat.max_eq_right]
      exact List.count_pos_iff.mpr (h ▸ hm)
    · rfl
  · rw [List.insert_of_not_mem hm, List.count_cons]
    by_cases h : key' = key
    · simp [h, List.count_eq_zero.mpr (h ▸ hm)]
    · simp [h]

theorem filter_setPhase (c : Coordinator) (id : Nat) (p : Phase) (key : Text) :
    (c.setPhase id p).tasks.filter (·.key = key) = (c.tasks.filter (·.key = key)).map fun k =>
      if k.id = id then { k with phase := p } else k := by
  have hkey (k : Task) : Task.key (if k.id = id then { k with phase := p } else k) = k.key := by
    split_ifs <;> rfl
  rw [setPhase, List.filter_map]
  simp only [Function.comp_def, hkey]

theorem get?_inflight_discard (c : Coordinator) (k : Task) (key : Text) :
    (c.discard k).inflight.get? key =
      if key = k.key ∧ c.inflight.get? key = some k.id then none else c.inflight.get? key := by
  have hd : (c.discard k).inflight = if c.inflight.get? k.key = some k.id then
      c.inflight.erase k.key else c.inflight := rfl
  rw [hd]
  by_cases hk : key = k.key
  · subst hk
    simp only [true_and]
    split_ifs
    · rw [get?_erase, if_pos rfl]
    · rfl
  · rw [if_neg (mt And.left hk)]
    split_ifs
    · rw [get?_erase, if_neg hk]
    · rfl

namespace Unseen

variable {c₂ : Coordinator} {key' : Text}

theorem refl (key : Text) (c : Coordinator) : Unseen key c c := ⟨rfl, rfl, rfl, rfl⟩

theorem trans (h : Unseen key c c₁) (h' : Unseen key c₁ c₂) : Unseen key c c₂ :=
  ⟨h'.tasks.trans h.tasks, h'.inflight.trans h.inflight, h'.pending.trans h.pending,
    h'.finished.trans h.finished⟩

/-- It does not matter what the editor has been told and what the indices hold. -/
theorem of_rest {ed : Editor} {x : Indices}
    (h : Unseen key { c with editor := ed, indices := x } c₁) : Unseen key c c₁ :=
  ⟨h.tasks, h.inflight, h.pending, h.finished⟩

theorem insert (hne : key' ≠ key) : Unseen key c { c with pending := c.pending.insert key' } :=
  ⟨rfl, rfl, (count_insert _ _ _).trans (if_neg hne), rfl⟩

theorem erase (hne : key' ≠ key) : Unseen key c { c with pending := c.pending.erase key' } :=
  ⟨rfl, rfl, List.count_erase_of_ne hne.symm, rfl⟩

theorem start (hk : Path.rootKey key' = key') (hne : key' ≠ key) :
    Unseen key c (c.start key') := by
  refine ⟨?_, ?_, rfl, rfl⟩
  · simp [Coordinator.start, Task.key, hk, hne]
  · simp [Coordinator.start, hk, hne]

theorem setPhase (hn : c.books.Numbered) (hk : k ∈ c.tasks) (hne : k.key ≠ key) (p : Phase) :
    Unseen key c (c.setPhase k.id p) := by
  refine ⟨?_, rfl, rfl, rfl⟩
  rw [filter_setPhase]
  refine (List.map_congr_left fun i hi => ?_).trans (List.map_id _)
  obtain ⟨hi, hik⟩ := List.mem_filter.mp hi
  refine if_neg fun hid => hne ?_
  rw [hn.eq_of_id hk hi hid.symm]
  exact of_decide_eq_true hik

theorem finish (hn : c.books.Numbered) (hk : k ∈ c.tasks) (hne : k.key ≠ key)
    (o : Option (BuildResult × Findings)) : Unseen key c (c.finish k o) := by
  have h := setPhase hn hk hne .finished
  refine ⟨h.tasks, h.inflight, h.pending, ?_⟩
  rw [Coordinator.finish, List.filter_append]
  have hkey : ¬ Finish.key ⟨k.id, k.root, o⟩ = key := hne
  simp [hkey]

theorem discard (hn : c.books.Numbered) (hk : k ∈ c.tasks) (hne : k.key ≠ key) :
    Unseen key c (c.discard k) := by
  refine ⟨?_, ?_, rfl, rfl⟩
  · rw [Coordinator.discard, List.filter_comm, List.filter_eq_self]
    intro i hi
    obtain ⟨hi, hik⟩ := List.mem_filter.mp hi
    refine bne_iff_ne.mpr fun hid => hne ?_
    rw [hn.eq_of_id hk hi hid.symm]
    exact of_decide_eq_true hik
  · rw [get?_inflight_discard, if_neg fun h => hne h.1.symm]

theorem trigger {root : Text} (hne : Path.rootKey root ≠ key) :
    Unseen key c (c.trigger root true).1 := by
  rw [trigger_true]
  split_ifs
  · exact insert hne
  · exact start (Path.rootKey_rootKey root) hne

end Unseen

theorem Move.unseen (hm : Move c e c₁) (hn : c.books.Numbered) (ha : c.about? e ≠ some key) :
    Unseen key c c₁ := by
  have hne {k : Task} (hk : c.task? k.id = some k) (h : c.about? e = (c.task? k.id).map Task.key) :
      k.key ≠ key := by
    rintro rfl
    exact ha (by rw [h, hk]; rfl)
  cases hm with
  | idle => exact .refl key c
  | coalesce hr =>
    refine .insert ?_
    rintro rfl
    exact ha (about?_of_request? hr)
  | start hr =>
    refine .start (rootKey_of_request? hr) ?_
    rintro rfl
    exact ha (about?_of_request? hr)
  | begin hk | launch hk => exact .setPhase hn (mem_of_task? hk) (hne hk rfl) _
  | output hk | drain hk =>
    apply Unseen.of_rest
    apply Unseen.setPhase
    · exact hn
    · exact mem_of_task? hk
    · exact hne hk rfl
  | refuse hk | crash hk | commit hk =>
    apply Unseen.of_rest
    apply Unseen.finish
    · exact hn
    · exact mem_of_task? hk
    · exact hne hk rfl
  | settle hk => exact .discard hn (mem_of_task? hk) (hne hk rfl)
  | drop hk =>
    exact (Unseen.discard hn (mem_of_task? hk) (hne hk rfl)).trans (.erase (hne hk rfl))
  | follow hk =>
    exact ((Unseen.discard hn (mem_of_task? hk) (hne hk rfl)).trans (.erase (hne hk rfl))).trans
      (.trigger (hne hk rfl))

/-! ## What a step starts -/

theorem started_cases (hn : c.books.Numbered) (e : Event) :
    (c.step e).nextId = c.nextId ∧ c.started e = [] ∨
    ∃ key, c.about? e = some key ∧ (c.step e).nextId = c.nextId + 1 ∧
      c.started e = [⟨c.nextId, key, .scheduled⟩] ∧ Path.rootKey key = key := by
  have hm := step_move c e
  by_cases hid : (c.step e).nextId = c.nextId
  · left
    rcases hm.tasks with ⟨hs, -⟩ | ⟨_, _, -, -, hid'⟩
    · refine ⟨hid, List.filter_eq_nil_iff.mpr fun k hk => ?_⟩
      have hlt : k.id < c.nextId := hn.lt (k.id, k.root) (hs (head_mem hk))
      simpa using hlt
    · omega
  · right
    generalize hc : c.step e = c' at hm hid
    cases hm with
    | @start _ key hr =>
      exact ⟨key, about?_of_request? hr, rfl, started_start hn hc rfl, rootKey_of_request? hr⟩
    | @follow k hk =>
      rw [trigger_true] at hc hid ⊢
      split_ifs at hc hid ⊢
      · exact absurd rfl hid
      · exact ⟨k.key, congrArg (Option.map Task.key) hk, rfl, started_start hn hc rfl,
          Path.rootKey_rootKey _⟩
    | _ => exact absurd rfl hid

theorem filter_started (hn : c.books.Numbered) (e : Event) (key : Text) :
    (c.started e).filter (·.key = key) = if c.about? e = some key then c.started e else [] := by
  rcases started_cases hn e with ⟨-, hs⟩ | ⟨key', ha, -, hs, hk⟩
  · simp [hs]
  · rw [hs, ha]
    by_cases hne : key' = key
    · subst hne
      simp [Task.key, hk]
    · simp [Task.key, hk, hne]

theorem numbers_own (hn : c.books.Numbered) (ha : c.about? e = some key) :
    c.numbers key ids e = ids ++ List.range' c.nextId ((c.step e).nextId - c.nextId) := by
  rw [numbers, filter_started hn, if_pos ha]
  rcases started_cases hn e with ⟨hid, hs⟩ | ⟨_, -, hid, hs, -⟩
  · simp [hs, hid]
  · simp [hs, hid]

theorem numbers_other (hn : c.books.Numbered) (ha : c.about? e ≠ some key) :
    c.numbers key ids e = ids := by
  rw [numbers, filter_started hn, if_neg ha]
  exact List.append_nil ids

theorem directory_of_attempt? (e : Event) {s : Spawn} (hs : s ∈ c.attempt? e) :
    s.directory = c.about? e := by
  cases e with
  | begin id =>
    simp only [attempt?, about?] at hs ⊢
    rcases hk : c.task? id with _ | ⟨_, root, _ | _ | _ | _⟩
    all_goals rw [hk] at hs
    all_goals cases hs
    exact congrArg some (Path.rootKey_eq_absolute root).symm
  | _ => cases hs

end Coordinator

end Workbench
