import Workbench.Install.Plan
import Workbench.Install.Release
import Workbench.Proofs.Path.Normal

/-! # Places of archives and of executables

Archives and partial files may be anywhere, also in the directory of the user's programs,
and a version may have slashes in it. Their names never end as that of an executable does,
so they do not stand where an executable stands.
-/

namespace Workbench

open Workbench.Path

namespace Path

def endOf (parts : List Text) : Option CodePoint := parts.getLast?.bind List.getLast?

variable {c : CodePoint} {t : Text} {parts : List Text}

@[simp] theorem endOf_concat (parts : List Text) (t : Text) (c : CodePoint) :
    endOf (parts ++ [t ++ [c]]) = some c := by
  rw [endOf, List.getLast?_concat, Option.bind_some, List.getLast?_concat]

theorem endOf_eq_some_iff : endOf parts = some c ↔ ∃ front t, parts = front ++ [t ++ [c]] := by
  constructor
  · intro h
    obtain ⟨last, hl, hc⟩ := Option.bind_eq_some_iff.mp h
    obtain ⟨front, rfl⟩ := List.getLast?_eq_some_iff.mp hl
    obtain ⟨t, rfl⟩ := List.getLast?_eq_some_iff.mp hc
    exact ⟨front, t, rfl⟩
  · rintro ⟨front, t, rfl⟩
    exact endOf_concat front t c

theorem concat_ne {t' : Text} (h : t'.getLast? ≠ some c) : t ++ [c] ≠ t' := by
  rintro rfl
  exact h List.getLast?_concat

theorem splitOn_concat (hc : c ≠ slash) (t : Text) : ∃ front last,
    pieces (t ++ [c]) = front ++ [last ++ [c]] := by
  have hlast : slash ∉ (t.splitOn slash).getLastD [] ++ [c] := by
    rw [List.getLastD_eq_getLast?, List.getLast?_eq_some_getLast (Text.splitOn_ne_nil _ _)]
    have hm := Text.not_mem_of_mem_splitOn (List.getLast_mem (Text.splitOn_ne_nil slash t))
    simpa [hm] using hc.symm
  refine ⟨(t.splitOn slash).dropLast, (t.splitOn slash).getLastD [], ?_⟩
  rw [pieces, Text.splitOn_append, Text.splitOn_eq_singleton hlast]

theorem endOf_components (hc : c ≠ slash) (hd : c ≠ .char '.') (t : Text) :
    endOf (components (t ++ [c])) = some c := by
  obtain ⟨front, last, hs⟩ := splitOn_concat hc t
  have hdot : last ++ [c] ≠ dot := concat_ne fun h => hd (Option.some.inj h).symm
  rw [components, hs, List.filter_append, List.filter_cons_of_pos (by simp [hdot])]
  exact endOf_concat _ _ _

theorem endOf_child (hc : c ≠ slash) (hd : c ≠ .char '.') (p : PathName) (t : Text) :
    endOf (p.child (t ++ [c])).parts = some c := by
  have h := endOf_components hc hd t
  rw [PathName.child, PathName.under]
  split_ifs
  · exact h
  · obtain ⟨front, last, hl⟩ := endOf_eq_some_iff.mp h
    rw [PathName.ofText, hl, ← List.append_assoc]
    exact endOf_concat _ _ _

end Path

variable [Path.WorkingDirectory]

namespace Disk

variable {d : Disk} {p : PathName} {c : CodePoint} {here place names : List Text} {name : Text}

theorem follow_concat (hn : name ≠ dotDot) (h : d.follow here (names ++ [name]) = .ok place) :
    ∃ above, place = above ++ [name] := by
  induction names generalizing here with
  | nil =>
    rw [List.nil_append, follow, enter, if_neg hn] at h
    split at h <;> try cases h
    split_ifs at h
    cases h
    exact ⟨here, rfl⟩
  | cons first names ih =>
    rw [List.cons_append, follow] at h
    split at h <;> try cases h
    split at h
    · cases h
    · exact ih h

/-- A path leads to a place that ends as the path does. -/
theorem endOf_place (hc : endOf p.parts = some c) (hd : c ≠ .char '.')
    (h : d.place p = .ok place) : endOf place = some c := by
  obtain ⟨front, t, hp⟩ := endOf_eq_some_iff.mp hc
  unfold Disk.place at h
  split_ifs at h
  rw [hp] at h
  have hn : t ++ [c] ≠ dotDot := concat_ne fun h => hd (Option.some.inj h).symm
  obtain ⟨above, rfl⟩ := follow_concat hn h
  exact endOf_concat above t c

end Disk

namespace Install

variable {version : Text} {u : User} {plan : Plan} {place : List Text}

/-- Archives and partial files are told by how their names end. -/
def IsDownload (place : List Text) : Prop :=
  endOf place = some (.char 'z') ∨ endOf place = some (.char 't')

omit [Path.WorkingDirectory] in
theorem executableName_ends (system : Text) : ∃ t c, Host.executableName system = t ++ [c] ∧
    (c = .char 'o' ∨ c = .char 'e') := by
  unfold Host.executableName
  split_ifs
  · exact ⟨"reproto.ex", .char 'e', by decide, .inr rfl⟩
  · exact ⟨"reprot", .char 'o', by decide, .inl rfl⟩

omit [Path.WorkingDirectory] in
theorem plan_of_ok (h : Plan.of version u = .ok plan) : ∃ home target,
    plan.version = version ∧
    plan.archiveName = "reproto-" ++ (version ++ "-" ++ target) ++ ".tar.gz" ∧
    plan.archive = ((u.dataHome home).child "releases").child plan.archiveName ∧
    plan.executable = Host.executableName u.system ∧
    plan.binary = ((home.child ".local").child "bin").child plan.executable := by
  unfold Plan.of at h
  cases hh : u.home with
  | error f => simp [hh, bind, Except.bind] at h
  | ok home =>
    cases ht : u.target with
    | error f => simp [hh, ht, bind, Except.bind] at h
    | ok target =>
      simp only [hh, ht, bind, Except.bind, pure, Except.pure] at h
      cases h
      exact ⟨home, target, rfl, rfl, rfl, rfl, rfl⟩

omit [Path.WorkingDirectory] in
theorem endOf_archive (h : Plan.of version u = .ok plan) :
    endOf plan.archive.parts = some (.char 'z') := by
  obtain ⟨home, target, -, hn, ha, -⟩ := plan_of_ok h
  have hz : plan.archiveName =
      "reproto-" ++ (version ++ "-" ++ target) ++ ".tar.g" ++ [CodePoint.char 'z'] := by
    rw [hn, List.append_assoc _ _ [CodePoint.char 'z']]
    rfl
  rw [ha, hz]
  exact endOf_child (by decide) (by decide) _ _

omit [Path.WorkingDirectory] in
theorem endOf_partialFile (p : PathName) : endOf (partialFile p).parts = some (.char 't') := by
  have ht : p.name ++ (".part" : Text) = p.name ++ ".par" ++ [CodePoint.char 't'] := by
    rw [List.append_assoc]
    rfl
  rw [partialFile, PathName.withName, ht]
  exact endOf_concat _ _ _

theorem not_isDownload_of_binary {d : Disk} (h : Plan.of version u = .ok plan)
    (hp : d.place plan.binary = .ok place) : ¬ IsDownload place := by
  obtain ⟨home, target, -, -, -, he, hb⟩ := plan_of_ok h
  obtain ⟨t, c, hn, hc⟩ := executableName_ends u.system
  have hs : c ≠ slash ∧ c ≠ .char '.' ∧ some c ≠ some (.char 'z') ∧ some c ≠ some (.char 't') := by
    rcases hc with rfl | rfl <;> decide
  have hend : endOf plan.binary.parts = some c := by
    rw [hb, he, hn]
    exact endOf_child hs.1 hs.2.1 _ _
  rw [IsDownload, Disk.endOf_place hend hs.2.1 hp]
  exact not_or.mpr hs.2.2

end Install

end Workbench
