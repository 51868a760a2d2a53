import Mathlib.Data.List.Basic
import Mathlib.Data.List.TakeWhile
import Workbench.Proofs.Path.Normal

/-! # Joined paths

Read as names, a path below a directory is the directory's components and then its own, behind
the leading slashes of the directory. What is read is what the path is once empty components
and `.` are left out, so such a path and its text stand for each other.
-/

namespace Workbench.Path

variable {dir t : Text}

/-! ## Components -/

theorem components_append_slash (a b : Text) :
    components (a ++ slash :: b) = components a ++ components b := by
  rw [components, pieces, Text.splitOn_append_cons, List.filter_append]
  rfl

theorem components_concat_slash (a : Text) : components (a ++ [slash]) = components a := by
  rw [components_append_slash]
  exact List.append_nil _

theorem leading_append {a b : Text} (h : (∃ c ∈ a, c ≠ slash) ∨ b.head? ≠ some slash) :
    leading (a ++ b) = leading a := by
  suffices hw : (a ++ b).takeWhile (· == slash) = a.takeWhile (· == slash) by
    rw [leading, hw, leading]
  rw [List.takeWhile_append]
  split_ifs with ha
  · -- The directory is all slashes, so it is the rest that has to end them.
    have hall : ∀ c ∈ a, c = slash := by
      rw [← (List.takeWhile_prefix _).eq_of_length ha]
      intro c hc
      simpa using List.mem_takeWhile_imp hc
    have hb : b.head? ≠ some slash := by
      rcases h with ⟨c, hc, hne⟩ | hb
      · exact absurd (hall c hc) hne
      · exact hb
    have hnone : b.takeWhile (· == slash) = [] := by
      cases b with
      | nil => rfl
      | cons c b => exact List.takeWhile_cons_of_neg (by simpa using hb)
    rw [hnone, List.append_nil, (List.takeWhile_prefix _).eq_of_length ha]
  · rfl

/-! ## Joining -/

theorem suffix_join (dir t : Text) : t <:+ join dir t := by
  unfold join
  split_ifs
  · exact List.suffix_rfl
  · exact List.suffix_append dir t
  · exact List.suffix_append _ t

theorem join_ne_nil (h : t ≠ []) : join dir t ≠ [] := fun hn =>
  h (List.suffix_nil.mp (hn ▸ suffix_join dir t))

theorem leading_join (h : ¬ isAbsolute t) : leading (join dir t) = leading dir := by
  have ht : t.head? ≠ some slash := mt isAbsolute_iff.mpr h
  rw [join, if_neg h]
  split_ifs with hd
  · exact leading_append (.inr ht)
  · simp only [Bool.or_eq_true, beq_iff_eq, not_or] at hd
    rw [List.append_assoc]
    refine leading_append (.inl ?_)
    obtain ⟨front, c, rfl⟩ := List.eq_nil_or_concat' dir |>.resolve_left (by simpa using hd.1)
    exact ⟨c, by simp, fun hc => hd.2 (by simp [hc])⟩

theorem components_join_relative (h : ¬ isAbsolute t) :
    components (join dir t) = components dir ++ components t := by
  rw [join, if_neg h]
  split_ifs with hd
  · rw [Bool.or_eq_true, List.isEmpty_iff, beq_iff_eq, List.getLast?_eq_some_iff] at hd
    rcases hd with rfl | ⟨front, rfl⟩
    · rfl
    · rw [components_concat_slash, List.append_assoc]
      exact components_append_slash front t
  · rw [List.append_assoc]
    exact components_append_slash dir t

theorem ofText_join (dir t : Text) :
    PathName.ofText (join dir t) = (PathName.ofText dir).under (PathName.ofText t) := by
  by_cases h : isAbsolute t
  · rw [join_of_isAbsolute h]
    exact (if_pos h).symm
  · refine Eq.trans ?_ (if_neg h).symm
    rw [PathName.ofText, leading_join h, components_join_relative h]
    rfl

theorem ofText_joinAll (dir : Text) (segments : List Text) :
    PathName.ofText (joinAll dir segments) =
      segments.foldl PathName.child (PathName.ofText dir) := by
  induction segments generalizing dir with
  | nil => rfl
  | cons s segments ih =>
    change PathName.ofText (joinAll (join dir s) segments) = _
    rw [ih, ofText_join]
    rfl

/-! ## The text of a path name -/

/-- The components are names, and the leading slashes are none, one or two. -/
structure IsClean (p : PathName) : Prop where
  anchor_le : p.anchor ≤ 2
  names : ∀ c ∈ p.parts, IsName c

theorem isClean_ofText (t : Text) : IsClean (PathName.ofText t) :=
  ⟨leading_le t, fun _ => isName_of_mem_components⟩

theorem IsClean.under {d p : PathName} (hd : IsClean d) (hp : IsClean p) :
    IsClean (d.under p) := by
  unfold PathName.under
  split_ifs
  · exact hp
  · refine ⟨hd.anchor_le, fun c hc => ?_⟩
    rcases List.mem_append.mp hc with hc | hc
    · exact hd.names c hc
    · exact hp.names c hc

theorem ofText_text {p : PathName} (h : IsClean p) : PathName.ofText p.text = p := by
  have hl : leading p.text = p.anchor := leading_render h.anchor_le h.names
  have hc : components p.text = p.parts := components_render h.names
  rw [PathName.ofText, hl, hc]

/-- A path as it is spelt, with empty components and `.` left out. -/
def tidy (t : Text) : Text := (PathName.ofText t).text

theorem ofText_tidy (t : Text) : PathName.ofText (tidy t) = PathName.ofText t :=
  ofText_text (isClean_ofText t)

theorem tidy_eq_tidy_iff {t t' : Text} :
    tidy t = tidy t' ↔ PathName.ofText t = PathName.ofText t' := by
  constructor
  · intro h
    rw [← ofText_tidy t, h, ofText_tidy]
  · intro h
    rw [tidy, h, tidy]

theorem normal_congr {t t' : Text} (h : PathName.ofText t = PathName.ofText t') :
    normal t = normal t' := by
  obtain ⟨hl, hc⟩ := PathName.mk.inj h
  rw [normal_eq, normal_eq, isAbsolute, isAbsolute, hl, hc]

theorem absolute_congr [WorkingDirectory] {t t' : Text}
    (h : PathName.ofText t = PathName.ofText t') :
    absolute t = absolute t' := by
  refine normal_congr ?_
  rw [ofText_join, ofText_join, h]

end Workbench.Path
