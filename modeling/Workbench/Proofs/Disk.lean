import Mathlib.Tactic.Common
import Workbench.Disk
import Workbench.Proofs.OrderedMap

/-! # What disk operations leave

An operation changes the node at one place, or it adds directories where nothing stood.
No directory is taken away, so a path that leads to a place leads there ever after.
-/

namespace Workbench

def Node.granted : Node → Node
  | .directory => .directory
  | .file content _ => .file content true

@[simp] theorem Node.granted_granted (n : Node) : n.granted.granted = n.granted := by
  cases n <;> rfl

namespace Disk

open OrderedMap

variable [Path.WorkingDirectory] {d d' d'' : Disk} {p : PathName} {here place q : List Text}
  {n : Node} {c : Content}

theorem node?_of_isPrefix (d : Disk) (h : place <+: workingPlace) :
    d.node? place = some .directory :=
  if_pos h

theorem start_isPrefix (p : PathName) : start p <+: workingPlace := by
  unfold start
  split_ifs
  · exact List.nil_prefix
  · exact List.prefix_rfl

theorem node?_put (h : ¬ place <+: workingPlace) (q : List Text) :
    (d.put place n).node? q = if q = place then some n else d.node? q := by
  by_cases hq : q <+: workingPlace
  · have hne : q ≠ place := by
      rintro rfl
      exact h hq
    rw [if_neg hne, node?_of_isPrefix _ hq, node?_of_isPrefix _ hq]
  · rw [node?, node?, if_neg hq, if_neg hq, put, get?_insert]
    simp only [eq_comm]

/-! ## What changes -/

def KeepsDirectories (d d' : Disk) : Prop :=
  ∀ q, d.node? q = some .directory → d'.node? q = some .directory

def KeptOrRoom (d d' : Disk) (q : List Text) : Prop :=
  d'.node? q = d.node? q ∨ d.node? q = none ∧ d'.node? q = some .directory

def AddsDirectories (d d' : Disk) : Prop := ∀ q, d.KeptOrRoom d' q

/-- Nothing changes, but for directories where nothing stood, on the way that names take. -/
def Paves (d : Disk) (here names : List Text) (d' : Disk) : Prop :=
  ∀ q, d'.node? q = d.node? q ∨ d.node? q = none ∧ d'.node? q = some .directory ∧
    ∃ front, front <+: names ∧ d'.follow here front = .ok q

structure Sets (d : Disk) (place : List Text) (n : Node) (d' : Disk) : Prop where
  node?_self : d'.node? place = some n
  node?_of_ne : ∀ q, q ≠ place → d'.node? q = d.node? q

theorem KeepsDirectories.refl (d : Disk) : d.KeepsDirectories d := fun _ => id

theorem KeepsDirectories.trans (h : d.KeepsDirectories d') (h' : d'.KeepsDirectories d'') :
    d.KeepsDirectories d'' := fun q hq => h' q (h q hq)

theorem KeptOrRoom.trans (h : d.KeptOrRoom d' q) (h' : d'.KeptOrRoom d'' q) :
    d.KeptOrRoom d'' q := by
  rcases h with hq | ⟨hq, hq'⟩ <;> rcases h' with hr | ⟨hr, hr'⟩
  · exact .inl (hr.trans hq)
  · exact .inr ⟨hq.symm.trans hr, hr'⟩
  · exact .inr ⟨hq, hr.trans hq'⟩
  · rw [hq'] at hr
    cases hr

theorem KeptOrRoom.node?_eq (h : d.KeptOrRoom d' q) (hq : d.node? q = some n) :
    d'.node? q = some n := by
  rcases h with h | ⟨h, -⟩
  · exact h.trans hq
  · cases h.symm.trans hq

theorem KeptOrRoom.node?_file {x : Bool} (h : d.KeptOrRoom d' q)
    (hq : d'.node? q = some (.file c x)) : d.node? q = some (.file c x) := by
  rcases h with h | ⟨-, h⟩
  · exact h.symm.trans hq
  · cases h.symm.trans hq

theorem AddsDirectories.refl (d : Disk) : d.AddsDirectories d := fun _ => .inl rfl

theorem AddsDirectories.trans (h : d.AddsDirectories d') (h' : d'.AddsDirectories d'') :
    d.AddsDirectories d'' := fun q => (h q).trans (h' q)

theorem AddsDirectories.keeps (h : d.AddsDirectories d') : d.KeepsDirectories d' :=
  fun q => (h q).node?_eq

theorem Paves.refl (d : Disk) (here names : List Text) : d.Paves here names d := fun _ => .inl rfl

theorem Paves.adds {names : List Text} (h : d.Paves here names d') : d.AddsDirectories d' := by
  intro q
  rcases h q with hq | ⟨hn, hd, -⟩
  · exact .inl hq
  · exact .inr ⟨hn, hd⟩

theorem Paves.mono {names names' : List Text} (h : d.Paves here names d') (hp : names <+: names') :
    d.Paves here names' d' := by
  intro q
  rcases h q with hq | ⟨hn, hd, front, hf, hq⟩
  · exact .inl hq
  · exact .inr ⟨hn, hd, front, hf.trans hp, hq⟩

theorem sets_put (h : d.node? place ≠ some .directory) : d.Sets place n (d.put place n) := by
  have hn : ¬ place <+: workingPlace := fun hp => h (d.node?_of_isPrefix hp)
  constructor
  · rw [node?_put hn, if_pos rfl]
  · intro q hq
    rw [node?_put hn, if_neg hq]

theorem Sets.keeps (h : d.Sets place n d')
    (hn : d.node? place = some .directory → n = .directory) : d.KeepsDirectories d' := by
  intro q hq
  by_cases hp : q = place
  · subst hp
    rw [h.node?_self, hn hq]
  · rw [h.node?_of_ne q hp, hq]

theorem Sets.keeps_back {x : Bool} (h : d.Sets place (.file c x) d') : d'.KeepsDirectories d := by
  intro q hq
  have hne : q ≠ place := by
    rintro rfl
    cases h.node?_self.symm.trans hq
  rw [← h.node?_of_ne q hne, hq]

/-! ## Where paths lead -/

theorem follow_cons_iff {name : Text} {names : List Text} :
    d.follow here (name :: names) = .ok place ↔ d.node? here = some .directory ∧
      ∃ next, enter here name = .ok next ∧ d.follow next names = .ok place := by
  rw [follow]
  rcases d.node? here with _ | _ | ⟨content, x⟩
  · simp
  · cases enter here name <;> simp
  · simp

/-- A path leads to its last name in the directory that the names before it lead to. -/
theorem follow_concat_iff {name : Text} {names : List Text} :
    d.follow here (names ++ [name]) = .ok place ↔ ∃ above, d.follow here names = .ok above ∧
      d.node? above = some .directory ∧ enter above name = .ok place := by
  induction names generalizing here with
  | nil =>
    rw [List.nil_append, follow_cons_iff]
    simp [follow]
  | cons first names ih =>
    simp only [List.cons_append, follow_cons_iff, ih]
    constructor
    · rintro ⟨hd, next, he, above, hf, hn⟩
      exact ⟨above, ⟨hd, next, he, hf⟩, hn⟩
    · rintro ⟨above, ⟨hd, next, he, hf⟩, hn⟩
      exact ⟨hd, next, he, above, hf, hn⟩

omit [Path.WorkingDirectory] in
theorem enter_eq_append {name : Text} (hn : name ≠ Path.dotDot) (h : enter here name = .ok place) :
    place = here ++ [name] := by
  rw [enter, if_neg hn] at h
  split_ifs at h
  exact (Except.ok.inj h).symm

theorem follow_eq_append {names : List Text} (hn : Path.dotDot ∉ names)
    (h : d.follow here names = .ok place) : place = here ++ names := by
  induction names using List.reverseRecOn generalizing place with
  | nil =>
    rw [List.append_nil]
    exact (Except.ok.inj h).symm
  | append_singleton names name ih =>
    rw [List.mem_append, List.mem_singleton, not_or] at hn
    obtain ⟨above, hf, -, he⟩ := follow_concat_iff.mp h
    rw [enter_eq_append (Ne.symm hn.2) he, ih hn.1 hf, List.append_assoc]

theorem follow_eq_of_keeps (h : d.KeepsDirectories d') {names : List Text}
    (hf : d.follow here names = .ok place) : d'.follow here names = .ok place := by
  induction names generalizing here with
  | nil => exact hf
  | cons name names ih =>
    obtain ⟨hd, next, he, hf⟩ := follow_cons_iff.mp hf
    exact follow_cons_iff.mpr ⟨h _ hd, next, he, ih hf⟩

theorem Paves.trans {names : List Text} (h : d.Paves here names d') (h' : d'.Paves here names d'') :
    d.Paves here names d'' := by
  intro q
  rcases h q with hq | ⟨hn, hd, front, hf, hq⟩ <;> rcases h' q with hr | ⟨hn', hr⟩
  · exact .inl (hr.trans hq)
  · exact .inr ⟨hq.symm.trans hn', hr⟩
  · exact .inr ⟨hn, hr.trans hd, front, hf, follow_eq_of_keeps h'.adds.keeps hq⟩
  · cases hd.symm.trans hn'

/-! ## Paths -/

/-- Nothing changes but where one of some paths leads, and for directories where nothing stood. -/
structure ChangesWithin (d : Disk) (paths : List PathName) (d' : Disk) : Prop where
  keeps : d.KeepsDirectories d'
  elsewhere : ∀ q, (∀ p ∈ paths, d'.place p ≠ .ok q) → d.KeptOrRoom d' q

theorem follow_of_place (h : d.place p = .ok place) : d.follow (start p) p.parts = .ok place := by
  unfold Disk.place at h
  split_ifs at h
  exact h

theorem place_eq_of_keeps (h : d.KeepsDirectories d') (hp : d.place p = .ok place) :
    d'.place p = .ok place := by
  unfold Disk.place at hp ⊢
  split_ifs at hp ⊢
  exact follow_eq_of_keeps h hp

theorem AddsDirectories.within (h : d.AddsDirectories d') (paths : List PathName) :
    d.ChangesWithin paths d' :=
  ⟨h.keeps, fun q _ => h q⟩

theorem Sets.within (h : d.Sets place n d') (hk : d.KeepsDirectories d') {paths : List PathName}
    (hp : d.place p = .ok place) (hm : p ∈ paths) : d.ChangesWithin paths d' := by
  refine ⟨hk, fun q hq => .inl (h.node?_of_ne q ?_)⟩
  rintro rfl
  exact hq p hm (place_eq_of_keeps hk hp)

theorem ChangesWithin.trans {paths : List PathName} (h : d.ChangesWithin paths d')
    (h' : d'.ChangesWithin paths d'') : d.ChangesWithin paths d'' := by
  refine ⟨h.keeps.trans h'.keeps, fun q hq => (h.elsewhere q fun p hm hp => ?_).trans
    (h'.elsewhere q hq)⟩
  exact hq p hm (place_eq_of_keeps h'.keeps hp)

theorem ChangesWithin.mono {paths paths' : List PathName} (h : d.ChangesWithin paths d')
    (hs : paths ⊆ paths') : d.ChangesWithin paths' d' :=
  ⟨h.keeps, fun q hq => h.elsewhere q fun p hm => hq p (hs hm)⟩

theorem find_eq_ok_iff :
    d.find p = .ok (place, n) ↔ d.place p = .ok place ∧ d.node? place = some n := by
  unfold find
  cases d.place p with
  | error t => simp
  | ok q =>
    constructor
    · intro h
      cases hn : d.node? q with
      | none => simp [hn] at h
      | some m =>
        simp only [hn, Except.ok.injEq, Prod.mk.injEq] at h
        obtain ⟨rfl, rfl⟩ := h
        exact ⟨rfl, hn⟩
    · rintro ⟨⟨⟩, h⟩
      simp [h]

theorem contains_eq_true_iff : d.contains p = .ok true ↔ ∃ place n, d.find p = .ok (place, n) := by
  unfold contains
  cases d.find p with
  | ok r => simpa using ⟨r.1, r.2, rfl⟩
  | error f =>
    dsimp only
    split_ifs <;> simp

theorem contains_eq_false (hp : d.place p = .ok place) (hn : d.node? place = none) :
    d.contains p = .ok false := by
  simp [contains, find, hp, hn]

theorem read_eq_ok_iff : d.read p = .ok c ↔ ∃ place x, d.find p = .ok (place, .file c x) := by
  unfold read
  cases d.find p with
  | error f => simp
  | ok r => obtain ⟨place, _ | ⟨content, x⟩⟩ := r <;> simp

/-! ## Files -/

def isMarked (d : Disk) (place : List Text) : Bool :=
  match d.node? place with
  | some (.file _ x) => x
  | _ => false

/-- A path leads to where a file can be. -/
def HasRoom (d : Disk) (p : PathName) : Prop :=
  ∃ place, d.place p = .ok place ∧ d.node? place ≠ some .directory

theorem Sets.hasRoom {x : Bool} (h : d.Sets place (.file c x) d') (hk : d.KeepsDirectories d')
    (hr : d.HasRoom p) : d'.HasRoom p := by
  obtain ⟨goal, hp, hn⟩ := hr
  exact ⟨goal, place_eq_of_keeps hk hp, fun hd => hn (h.keeps_back goal hd)⟩

theorem exists_write_eq_ok (hp : d.place p = .ok place) (hn : d.node? place ≠ some .directory) :
    ∃ d', d.write p c = .ok d' ∧ d.Sets place (.file c (d.isMarked place)) d' := by
  refine ⟨d.put place (.file c (d.isMarked place)), ?_, sets_put hn⟩
  rw [write, hp, isMarked]
  rcases hd : d.node? place with _ | _ | ⟨content, x⟩
  · simp [hd]
  · exact absurd hd hn
  · simp [hd]

theorem write_ok (h : d.write p c = .ok d') : ∃ place, d.place p = .ok place ∧
    d.node? place ≠ some .directory ∧ d.Sets place (.file c (d.isMarked place)) d' := by
  unfold write at h
  cases hp : d.place p with
  | error t => simp [hp] at h
  | ok place =>
    have hn : d.node? place ≠ some .directory := by
      intro hn
      simp [hp, hn] at h
    obtain ⟨d'', hw, hs⟩ := exists_write_eq_ok (c := c) hp hn
    unfold write at hw
    obtain rfl := Except.ok.inj (hw.symm.trans h)
    exact ⟨place, rfl, hn, hs⟩

theorem exists_makeExecutable_eq_ok (h : d.find p = .ok (place, n)) :
    ∃ d', d.makeExecutable p = .ok d' ∧ d.Sets place n.granted d' := by
  obtain ⟨-, hn⟩ := find_eq_ok_iff.mp h
  rw [makeExecutable, h]
  cases n with
  | directory => exact ⟨d, rfl, hn, fun _ _ => rfl⟩
  | file content x =>
    refine ⟨_, rfl, sets_put ?_⟩
    rw [hn]
    nofun

theorem makeExecutable_ok (h : d.makeExecutable p = .ok d') : ∃ place n,
    d.find p = .ok (place, n) ∧ d.Sets place n.granted d' := by
  cases hf : d.find p with
  | error f => simp [makeExecutable, hf] at h
  | ok r =>
    obtain ⟨place, n⟩ := r
    obtain ⟨d'', hm, hs⟩ := exists_makeExecutable_eq_ok hf
    obtain rfl := Except.ok.inj (hm.symm.trans h)
    exact ⟨place, n, rfl, hs⟩

theorem exists_move_eq_ok {source target : PathName} (hf : d.find source = .ok (here, n))
    (hr : d.HasRoom target) : ∃ d', d.move source target = .ok d' := by
  obtain ⟨place, hp, hn⟩ := hr
  refine ⟨Disk.put ⟨d.nodes.erase here⟩ place n, ?_⟩
  simp only [move, hf, hp, if_neg hn]

theorem move_ok {source target : PathName} {x : Bool}
    (hf : d.find source = .ok (here, .file c x)) (h : d.move source target = .ok d') :
    ∃ place, d.place target = .ok place ∧ d.node? place ≠ some .directory ∧
      d'.node? place = some (.file c x) ∧
      ∀ q, q ≠ place → d'.node? q = if q = here then none else d.node? q := by
  have hh : ¬ here <+: workingPlace := by
    intro hh
    cases (d.node?_of_isPrefix hh).symm.trans (find_eq_ok_iff.mp hf).2
  unfold move at h
  cases hp : d.place target with
  | error t => simp [hf, hp] at h
  | ok place =>
    simp only [hf, hp] at h
    split_ifs at h with hn
    cases h
    have he : ¬ place <+: workingPlace := fun hp => hn (d.node?_of_isPrefix hp)
    refine ⟨place, rfl, hn, ?_, fun q hq => ?_⟩
    · rw [node?_put he, if_pos rfl]
    · rw [node?_put he, if_neg hq, node?, node?]
      split_ifs with h₁ h₂
      · exact absurd (h₂ ▸ h₁) hh
      · rfl
      · rw [get?_erase, if_pos ‹_›]
      · rw [get?_erase, if_neg ‹_›]

/-! ## Directories -/

theorem paves_makeDirectory (h : d.makeDirectory p = .ok d') :
    d.Paves (start p) p.parts d' := by
  unfold makeDirectory at h
  cases hp : d.place p with
  | error t => simp [hp] at h
  | ok place =>
    simp only [hp] at h
    split at h
    · cases h
    · next hn =>
      cases h
      have hs := sets_put (n := .directory) (hn.trans_ne (by simp))
      have hk := hs.keeps fun _ => rfl
      intro q
      by_cases hq : q = place
      · subst hq
        exact .inr ⟨hn, hs.node?_self, p.parts, List.prefix_rfl,
          follow_eq_of_keeps hk (follow_of_place hp)⟩
      · exact .inl (hs.node?_of_ne q hq)

theorem paves_settle {r : Except Fault Disk} {names : List Text}
    (h : ∀ d', r = .ok d' → d.Paves here names d') : d.Paves here names (d.settle p r).1 := by
  unfold settle
  split
  · exact h _ rfl
  · split_ifs <;> exact .refl d here names

theorem paves_ensureDirectory (d : Disk) (p : PathName) :
    d.Paves (start p) p.parts (d.ensureDirectory p).1 := by
  fun_induction ensureDirectory d p with
  | case1 p d' h => exact paves_makeDirectory h
  | case2 p => exact .refl d (start p) p.parts
  | case3 p f _ _ _ _ d' f' h ih =>
    rw [h] at ih
    exact ih.mono (List.dropLast_prefix p.parts)
  | case4 p f _ _ _ _ d' h ih =>
    rw [h] at ih
    exact (ih.mono (List.dropLast_prefix p.parts)).trans
      (paves_settle fun _ => paves_makeDirectory)
  | case5 p f _ _ => exact paves_settle nofun

theorem addsDirectories_ensureDirectory (d : Disk) (p : PathName) :
    d.AddsDirectories (d.ensureDirectory p).1 := (paves_ensureDirectory d p).adds

end Disk

end Workbench
