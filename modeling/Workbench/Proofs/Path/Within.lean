import Workbench.Proofs.Path.Joined

/-! # What is within a directory

A directory holds a path if the components of the directory are the first ones of the path and
both have the same leading slashes. In a normal path no component is `..` and none holds a slash,
so the text of the directory ends at a slash of the path.
-/

namespace Workbench

/-! ## The last dot -/

namespace Text

variable {sep : CodePoint} {t a b : Text}

theorem cutLast?_append (h : sep ∉ b) (a : Text) : cutLast? sep (a ++ sep :: b) = some (a, b) := by
  have hb : ∀ c ∈ b.reverse, (c != sep) = true := by
    intro c hc
    rw [bne_iff_ne]
    rintro rfl
    exact h (List.mem_reverse.mp hc)
  have hr : (a ++ sep :: b).reverse = b.reverse ++ sep :: a.reverse := by simp
  have hd : (sep :: a.reverse).dropWhile (· != sep) = sep :: a.reverse :=
    List.dropWhile_cons_of_neg (by simp)
  have ht : (sep :: a.reverse).takeWhile (· != sep) = [] := List.takeWhile_cons_of_neg (by simp)
  rw [cutLast?, hr, List.dropWhile_append_of_pos hb, List.takeWhile_append_of_pos hb, hd, ht]
  simp

theorem join_cons {sep p : Text} {ps : List Text} (h : ps ≠ []) :
    join sep (p :: ps) = p ++ sep ++ join sep ps := List.intercalate_cons_of_ne_nil h

theorem join_append {sep : Text} {ps qs : List Text} (hp : ps ≠ []) (hq : qs ≠ []) :
    join sep (ps ++ qs) = join sep ps ++ sep ++ join sep qs := by
  induction ps with
  | nil => exact absurd rfl hp
  | cons p ps ih =>
    rw [List.cons_append]
    by_cases hps : ps = []
    · subst hps
      rw [List.nil_append, join_cons hq]
      simp [join]
    · rw [join_cons (List.append_ne_nil_of_left_ne_nil hps qs), ih hps, join_cons hps]
      simp only [List.append_assoc]

theorem eq_append_of_cutLast? (h : cutLast? sep t = some (a, b)) : t = a ++ sep :: b := by
  unfold cutLast? at h
  split at h
  · cases h
  · next x before hd =>
    obtain ⟨rfl, rfl⟩ := Prod.mk.inj (Option.some.inj h)
    have hx : x = sep := by
      have hp := List.head?_dropWhile_not (· != sep) t.reverse
      simpa [hd] using hp
    have hr := List.takeWhile_append_dropWhile (p := (· != sep)) (l := t.reverse)
    rw [hd, hx] at hr
    have ht := congrArg List.reverse hr
    rw [List.reverse_reverse, List.reverse_append, List.reverse_cons, List.append_assoc] at ht
    exact ht.symm

end Text

namespace PathName

/-- A suffix that holds no other dot is the end of the last component, behind something. -/
theorem suffix_eq_iff {p : PathName} {ext : Text} (he : ext ≠ []) (hd : .char '.' ∉ ext) :
    p.suffix = .char '.' :: ext ↔ ∃ stem, stem ≠ [] ∧ p.name = stem ++ .char '.' :: ext := by
  constructor
  · intro h
    unfold suffix at h
    split at h
    · next before after hc =>
      split_ifs at h with hempty
      rw [Bool.or_eq_true, List.isEmpty_iff, not_or] at hempty
      obtain rfl := (List.cons.inj h).2
      exact ⟨before, hempty.1, Text.eq_append_of_cutLast? hc⟩
    · cases h
  · rintro ⟨stem, hs, hn⟩
    have hempty : (stem.isEmpty || ext.isEmpty) = false := by
      simp [hs, he]
    rw [suffix, hn, Text.cutLast?_append hd]
    simp only [hempty, Bool.false_eq_true, if_false]

theorem isWithin_iff {p dir : PathName} :
    p.isWithin dir ↔ dir.anchor = p.anchor ∧ dir.parts <+: p.parts := by
  rw [isWithin, Bool.and_eq_true, beq_iff_eq, List.isPrefixOf_iff_prefix, eq_comm]

end PathName

namespace Path

theorem render_of_pos {n : ℕ} (hn : 0 < n) (cs : List Text) :
    render n cs = slashes n ++ Text.join [slash] cs := by
  rw [render, PathName.text]
  split
  · next h =>
    have hlen := congrArg List.length (List.append_eq_nil_iff.mp h).1
    rw [slashes, List.length_replicate] at hlen
    exact absurd hlen hn.ne'
  · rfl

variable [WorkingDirectory] {root path : Text}

/-! ## Absolute paths -/

theorem components_absolute (t : Text) :
    components (absolute t) = resolve true (components (join workingDirectory t)) := by
  rw [absolute, components_normal, isAbsolute_join isAbsolute_workingDirectory]

theorem dotDot_not_mem_absolute (t : Text) : dotDot ∉ components (absolute t) := by
  rw [components_absolute]
  exact dotDot_not_mem_resolve _

theorem render_absolute (t : Text) :
    render (leading (absolute t)) (components (absolute t)) = absolute t := by
  rw [absolute, leading_normal, components_normal, normal_eq]

theorem absolute_join_name {name : Text} (hr : absolute root = root)
    (hn : components name = [name]) (ha : ¬ isAbsolute name) (hd : name ≠ dotDot) :
    absolute (join root name) = render (leading root) (components root ++ [name]) := by
  have hl : isAbsolute root := hr ▸ isAbsolute_absolute root
  have hj : leading (join root name) = leading root := leading_join ha
  have hja : isAbsolute (join root name) := by
    rw [isAbsolute, hj]
    exact hl
  have hdd : dotDot ∉ components root ++ [name] := by
    rw [List.mem_append, List.mem_singleton, not_or]
    exact ⟨hr ▸ dotDot_not_mem_absolute root, hd.symm⟩
  rw [absolute, join_of_isAbsolute hja, normal_eq, hj, hja, components_join_relative ha, hn,
    resolve, foldl_resolveStep_names true hdd, List.append_nil, List.reverse_reverse]

/-! ## Within a directory -/

/-- The directory holds a path, whatever the spelling of the path. -/
structure Holds (root path : Text) : Prop where
  leading : leading root = leading (absolute path)
  parts : components root <+: components (absolute path)

theorem holds_iff_isWithin : Holds root path ↔
    (PathName.ofText (absolute path)).isWithin (PathName.ofText root) := by
  simp only [PathName.isWithin_iff, PathName.ofText]
  exact ⟨fun h => ⟨h.leading, h.parts⟩, fun h => ⟨h.1, h.2⟩⟩

instance (root path : Text) : Decidable (Holds root path) :=
  decidable_of_iff _ holds_iff_isWithin.symm

/-- The text of a directory ends at a slash of a path that it holds, or at its end. -/
theorem Holds.text (h : Holds root path) (hr : absolute root = root) :
    absolute path = root ∨ components root = [] ∨ root ++ [slash] <+: absolute path := by
  obtain ⟨rest, hrest⟩ := h.parts
  have hp := render_absolute path
  have hroot := render_absolute root
  rw [hr] at hroot
  rw [← h.leading, ← hrest] at hp
  by_cases hn : rest = []
  · rw [hn, List.append_nil] at hp
    exact .inl (hp.symm.trans hroot)
  · refine .inr (or_iff_not_imp_left.mpr fun hc => ⟨Text.join [slash] rest, ?_⟩)
    have hpos : 0 < Path.leading root := of_decide_eq_true (hr ▸ isAbsolute_absolute root)
    rw [render_of_pos hpos] at hp hroot
    calc root ++ [slash] ++ Text.join [slash] rest
        = slashes (Path.leading root) ++ Text.join [slash] (components root) ++ [slash] ++
            Text.join [slash] rest := by rw [hroot]
      _ = absolute path := by
          rw [← hp, Text.join_append hc hn]
          simp only [List.append_assoc]

end Path

end Workbench
