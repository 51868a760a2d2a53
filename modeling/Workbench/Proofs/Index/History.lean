import Workbench.Index.Symbols
import Workbench.Proofs.OrderedMap
import Workbench.Surroundings

/-! # What the commits leave of a file

A file that has symbols has an owner, and the owner remembers it. So a commit drops
just the files that its root owns and does not mention, and what is left of a file is
what its last commit said, unless the root of that commit has spoken again.
-/

namespace Workbench.SymbolIndex

open OrderedMap

/-- What a commit is given. A file is mentioned once in a map by file. -/
structure Commit where
  root : Text
  symbols : List Symbol
  given : Option SymbolsByFile
  nodup : ∀ files ∈ given, files.keys.Nodup

section

variable [Path.WorkingDirectory]

namespace Commit

def key (c : Commit) : Text := Path.rootKey c.root

/-- The symbols by file, which are put together from the symbols when they are not given. -/
def files (c : Commit) : SymbolsByFile := c.given.getD (group c.symbols)

def Mentions (c : Commit) (uri : Text) : Prop := uri ∈ c.files.keys

instance (c : Commit) (uri : Text) : Decidable (c.Mentions uri) :=
  inferInstanceAs (Decidable (uri ∈ c.files.keys))

omit [Path.WorkingDirectory] in
theorem nodup_keys_files (c : Commit) : c.files.keys.Nodup := by
  rw [files]
  cases h : c.given with
  | none => exact nodup_keys_pushed Symbol.uri id c.symbols
  | some files => exact c.nodup files h

end Commit

variable {x : SymbolIndex} {uri : Text}

def apply (x : SymbolIndex) (c : Commit) : SymbolIndex :=
  match c.given with
  | none => x.commit c.root c.symbols
  | some files => x.commitFiles c.root c.symbols files

theorem apply_eq (x : SymbolIndex) (c : Commit) :
    x.apply c = x.commitFiles c.root c.symbols c.files := by
  unfold apply Commit.files
  cases c.given <;> rfl

def history (cs : List Commit) : SymbolIndex := cs.foldl apply {}

theorem history_concat (cs : List Commit) (c : Commit) :
    history (cs ++ [c]) = (history cs).apply c := by
  simp [history]

/-! ## One commit -/

/-- A file has symbols when it has an owner, and its owner remembers it. -/
structure Consistent (x : SymbolIndex) : Prop where
  owned : ∀ uri, x.byFile.get? uri = none ↔ x.owner.get? uri = none
  remembered : ∀ uri key, x.owner.get? uri = some key → uri ∈ x.filesOf.getD key []
  nodup : ∀ key, (x.filesOf.getD key []).Nodup

omit [Path.WorkingDirectory] in
theorem consistent_empty : Consistent {} where
  owned _ := iff_of_true rfl rfl
  remembered _ _ h := nomatch h
  nodup _ := List.nodup_nil

omit [Path.WorkingDirectory] in
/-- What a commit drops are the files of its root that it does not mention. -/
theorem Consistent.mem_stale (h : Consistent x) {key : Text} {files : SymbolsByFile} :
    uri ∈ x.stale key files ↔ uri ∉ files.keys ∧ x.owner.get? uri = some key := by
  simp only [stale, List.mem_filter, Bool.and_eq_true, Bool.not_eq_true', beq_iff_eq,
    ← Bool.not_eq_true, contains_iff]
  exact ⟨fun hm => hm.2, fun hm => ⟨h.remembered _ _ hm.2, hm⟩⟩

theorem Consistent.get?_owner_apply (h : Consistent x) (c : Commit) (uri : Text) :
    (x.apply c).owner.get? uri =
      if c.Mentions uri then some c.key
      else if x.owner.get? uri = some c.key then none else x.owner.get? uri := by
  have hk : Path.rootKey c.root = c.key := rfl
  rw [apply_eq, commitFiles, get?_insertAll_const, get?_foldl_erase]
  simp only [h.mem_stale, hk, Commit.Mentions]
  by_cases hm : uri ∈ c.files.keys <;> simp [hm]

theorem Consistent.get?_byFile_apply (h : Consistent x) (c : Commit) (uri : Text) :
    (x.apply c).byFile.get? uri =
      if c.Mentions uri then c.files.get? uri
      else if x.owner.get? uri = some c.key then none else x.byFile.get? uri := by
  have hk : Path.rootKey c.root = c.key := rfl
  rw [apply_eq, commitFiles, get?_insertAll c.nodup_keys_files, get?_foldl_erase]
  simp only [h.mem_stale, hk, Commit.Mentions]
  by_cases hm : uri ∈ c.files.keys
  · simp [hm, get?_of_mem_keys hm []]
  · simp [hm, get?_eq_none_iff.mpr hm]

theorem getD_filesOf_apply (x : SymbolIndex) (c : Commit) (key : Text) :
    (x.apply c).filesOf.getD key [] =
      if c.key = key then c.files.keys else x.filesOf.getD key [] := by
  rw [apply_eq, commitFiles, getD, get?_insert, show Path.rootKey c.root = c.key from rfl]
  split_ifs <;> rfl

theorem Consistent.apply (h : Consistent x) (c : Commit) : Consistent (x.apply c) where
  owned uri := by
    rw [h.get?_owner_apply, h.get?_byFile_apply]
    split_ifs with hm ho
    · exact iff_of_false (mt get?_eq_none_iff.mp (not_not_intro hm)) (by simp)
    · exact iff_of_true rfl rfl
    · exact h.owned uri
  remembered uri key hk := by
    rw [h.get?_owner_apply] at hk
    rw [getD_filesOf_apply]
    split_ifs at hk with hm ho
    · rw [if_pos (Option.some.inj hk)]
      exact hm
    · rw [if_neg]
      · exact h.remembered uri key hk
      · rintro rfl
        exact ho hk
  nodup key := by
    rw [getD_filesOf_apply]
    split_ifs
    · exact c.nodup_keys_files
    · exact h.nodup key

/-! ## The loop of a commit -/

def remove? {β : Type} (m : OrderedMap Text β) (uri : Text) : Option (OrderedMap Text β) :=
  if m.contains uri then some (m.erase uri) else none

def dropFile (key : Text) (s : SymbolsByFile × OrderedMap Text Text) (uri : Text) :
    Option (SymbolsByFile × OrderedMap Text Text) :=
  if s.2.get? uri = some key then (remove? s.2 uri).map fun owner => (s.1.erase uri, owner)
  else some s

def unmentioned (x : SymbolIndex) (c : Commit) : List Text :=
  (x.filesOf.getD c.key []).filter fun uri => !c.files.contains uri

/-- A commit file by file. -/
def applyLoop (x : SymbolIndex) (c : Commit) (uris : List Text) : Option SymbolIndex := do
  let s ← uris.foldlM (dropFile c.key) (x.byFile, x.owner)
  return {
    byRoot := x.byRoot.insert c.key c.symbols
    byFile := s.1.insertAll c.files.entries
    filesOf := x.filesOf.insert c.key c.files.keys
    owner := s.2.insertAll (c.files.keys.map (·, c.key)) }

omit [Path.WorkingDirectory] in
theorem foldlM_dropFile {key : Text} {uris : List Text} (hn : uris.Nodup)
    (byFile : SymbolsByFile) (owner : OrderedMap Text Text) :
    uris.foldlM (dropFile key) (byFile, owner) =
      some ((uris.filter fun uri => owner.get? uri == some key).foldl erase byFile,
        (uris.filter fun uri => owner.get? uri == some key).foldl erase owner) := by
  induction uris generalizing byFile owner with
  | nil => rfl
  | cons uri uris ih =>
    obtain ⟨hu, hn⟩ := List.nodup_cons.mp hn
    rw [List.foldlM_cons]
    by_cases ho : owner.get? uri = some key
    · have hc : owner.contains uri := contains_iff.mpr (isSome_get?.mp (by rw [ho]; rfl))
      have hf : uris.filter (fun u => (owner.erase uri).get? u == some key) =
          uris.filter fun u => owner.get? u == some key := by
        refine List.filter_congr fun u hm => ?_
        rw [get?_erase, if_neg]
        rintro rfl
        exact hu hm
      rw [List.filter_cons_of_pos (by simpa using ho), List.foldl_cons, List.foldl_cons,
        dropFile, if_pos ho, remove?, if_pos hc, ← hf]
      exact ih hn _ _
    · rw [List.filter_cons_of_neg (by simpa using ho), dropFile, if_neg ho]
      exact ih hn _ _

/-- In whichever order the loop takes the files that are not mentioned any more, each of them
once, it comes to its end. -/
theorem applyLoop_eq (x : SymbolIndex) (c : Commit) {uris : List Text} (hn : uris.Nodup)
    (hm : ∀ uri, uri ∈ uris ↔ uri ∈ x.unmentioned c) : x.applyLoop c uris = some (x.apply c) := by
  have hs (uri : Text) : (uri ∈ uris.filter fun uri => x.owner.get? uri == some c.key) ↔
      uri ∈ x.stale c.key c.files := by
    simp only [List.mem_filter, hm, unmentioned, stale, Bool.and_eq_true, and_assoc]
  rw [applyLoop, foldlM_dropFile hn, foldl_erase_congr hs, foldl_erase_congr hs, apply_eq]
  rfl

theorem Consistent.applyLoop_eq (h : Consistent x) (c : Commit) {uris : List Text}
    (hp : uris.Perm (x.unmentioned c)) : x.applyLoop c uris = some (x.apply c) :=
  x.applyLoop_eq c (hp.nodup_iff.mpr ((h.nodup c.key).filter _)) fun _ => hp.mem_iff

/-! ## Many commits -/

theorem consistent_history (cs : List Commit) : Consistent (history cs) := by
  induction cs using List.reverseRecOn with
  | nil => exact consistent_empty
  | append_singleton cs c ih =>
    rw [history_concat]
    exact ih.apply c

theorem history_of_not_mentioned {cs : List Commit} (h : ∀ c ∈ cs, ¬ c.Mentions uri) :
    (history cs).owner.get? uri = none := by
  induction cs using List.reverseRecOn with
  | nil => rfl
  | append_singleton cs c ih =>
    rw [history_concat, (consistent_history cs).get?_owner_apply, if_neg (h c (by simp)),
      ih fun d hd => h d (by simp [hd])]
    rfl

/-- The last commit that mentions a file makes its root the owner, up to the next commit
of this root. -/
theorem history_of_last {before after : List Commit} {c : Commit} (hc : c.Mentions uri)
    (ha : ∀ d ∈ after, ¬ d.Mentions uri) :
    (history (before ++ c :: after)).owner.get? uri =
        (if ∀ d ∈ after, d.key ≠ c.key then some c.key else none) ∧
      (history (before ++ c :: after)).byFile.get? uri =
        if ∀ d ∈ after, d.key ≠ c.key then c.files.get? uri else none := by
  induction after using List.reverseRecOn with
  | nil =>
    have hb := consistent_history before
    rw [history_concat, hb.get?_owner_apply, hb.get?_byFile_apply, if_pos hc, if_pos hc]
    simp
  | append_singleton after d ih =>
    obtain ⟨ho, hb⟩ := ih fun e he => ha e (by simp [he])
    have hi := consistent_history (before ++ c :: after)
    have hd := ha d (by simp)
    have hall : (∀ e ∈ after ++ [d], e.key ≠ c.key) ↔
        (∀ e ∈ after, e.key ≠ c.key) ∧ d.key ≠ c.key := by
      simp only [List.mem_append, List.mem_singleton, or_imp, forall_and, forall_eq]
    rw [← List.cons_append, ← List.append_assoc, history_concat, hi.get?_owner_apply,
      hi.get?_byFile_apply, if_neg hd, if_neg hd, ho, hb]
    simp only [hall]
    by_cases h₁ : ∀ e ∈ after, e.key ≠ c.key
    · by_cases h₂ : d.key = c.key
      · have hn : ¬ ((∀ e ∈ after, e.key ≠ c.key) ∧ d.key ≠ c.key) := fun h => h.2 h₂
        have hs : some c.key = some d.key := congrArg some h₂.symm
        simp only [if_pos h₁, if_neg hn, if_pos hs, and_self]
      · have hp : (∀ e ∈ after, e.key ≠ c.key) ∧ d.key ≠ c.key := ⟨h₁, h₂⟩
        have hs : some c.key ≠ some d.key := fun h => h₂ (Option.some.inj h).symm
        simp only [if_pos h₁, if_pos hp, if_neg hs, and_self]
    · have hn : ¬ ((∀ e ∈ after, e.key ≠ c.key) ∧ d.key ≠ c.key) := fun h => h₁ h.1
      simp only [if_neg h₁, if_neg hn, ite_self, and_self]

theorem forFile_eq_nil {cs : List Commit} (h : (history cs).owner.get? uri = none) :
    (history cs).forFile uri = [] := by
  rw [forFile, getD, ((consistent_history cs).owned uri).mpr h]
  rfl

/-- The symbols of a file are those of the last commit that mentions it, and none once the
root of that commit commits again. A commit of another root that does not mention the
file leaves it as it is. Every commit comes to its end. -/
theorem forFile_history (cs : List Commit) (uri : Text) :
    ((∀ c ∈ cs, ¬ c.Mentions uri) → (history cs).forFile uri = []) ∧
    (∀ before c after, cs = before ++ c :: after → c.Mentions uri →
      (∀ d ∈ after, ¬ d.Mentions uri) →
      (history cs).forFile uri =
          (if ∀ d ∈ after, d.key ≠ c.key then c.files.getD uri [] else []) ∧
        ∀ d, ¬ d.Mentions uri → d.key ≠ c.key →
          (history (cs ++ [d])).forFile uri = (history cs).forFile uri) ∧
    (∀ c uris, uris.Perm ((history cs).unmentioned c) →
      (history cs).applyLoop c uris = some (history (cs ++ [c]))) := by
  refine ⟨fun h => forFile_eq_nil (history_of_not_mentioned h), ?_, ?_⟩
  · rintro before c after rfl hc ha
    have hlast : ∀ after : List Commit, (∀ d ∈ after, ¬ d.Mentions uri) →
        (history (before ++ c :: after)).forFile uri =
          if ∀ d ∈ after, d.key ≠ c.key then c.files.getD uri [] else [] := by
      intro after ha
      rw [forFile, getD, (history_of_last hc ha).2]
      split_ifs <;> rfl
    refine ⟨hlast after ha, fun d hd hk => ?_⟩
    have had : ∀ e ∈ after ++ [d], ¬ e.Mentions uri := by
      simpa only [List.mem_append, List.mem_singleton, or_imp, forall_and, forall_eq] using
        ⟨ha, hd⟩
    rw [List.append_assoc, List.cons_append, hlast _ had, hlast _ ha]
    simp only [List.mem_append, List.mem_singleton, or_imp, forall_and, forall_eq, hk, ne_eq,
      not_false_eq_true, and_true]
  · intro c uris hp
    rw [history_concat]
    exact (consistent_history cs).applyLoop_eq c hp

end

open Surroundings in
theorem forFile_of_taken_over :
    (history [⟨Text.ofString "/a", [⟨Text.ofString "f", none, [], [], [], default⟩], none, nofun⟩,
      ⟨Text.ofString "/a/b", [⟨Text.ofString "g", none, [], [], [], default⟩], none, nofun⟩,
      ⟨Text.ofString "/a/.", [], none, nofun⟩]).forFile [] =
        [⟨Text.ofString "g", none, [], [], [], default⟩] := by
  refine ((forFile_history _ []).2.1 [_] _ [_] rfl ?_ ?_).1.trans ?_
  · decide
  · decide
  · decide

end Workbench.SymbolIndex
