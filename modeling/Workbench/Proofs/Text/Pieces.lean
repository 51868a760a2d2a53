import Workbench.Text.Lines

/-! # Pieces between separators

Splitting a text is the splitting of lists, so it goes through concatenation
piece by piece, and joining the pieces gives the text back. The lines of a text
are pieces, and the carriage returns at their ends do not matter.
-/

namespace Workbench.Text

variable {sep : CodePoint} {t : Text}

theorem splitOn_eq_listSplitOn (sep : CodePoint) (t : Text) :
    splitOn sep t = List.splitOn sep t := by
  induction t with
  | nil => rfl
  | cons c t ih =>
    obtain ⟨p, ps, hp⟩ := List.exists_cons_of_ne_nil (List.splitOn_ne_nil sep t)
    rw [splitOn] at ih
    rw [splitOn, List.foldr_cons, ih, List.splitOn_cons_eq_if_modifyHead, hp]
    by_cases h : c = sep <;> simp [h]

theorem splitOn_ne_nil (sep : CodePoint) (t : Text) : splitOn sep t ≠ [] := by
  simp [splitOn_eq_listSplitOn]

@[simp] theorem splitOn_nil (sep : CodePoint) : splitOn sep [] = [[]] := rfl

theorem splitOn_cons (sep c : CodePoint) (t : Text) :
    splitOn sep (c :: t) =
      if c = sep then [] :: splitOn sep t else (splitOn sep t).modifyHead (c :: ·) := by
  simp [splitOn_eq_listSplitOn, List.splitOn_cons_eq_if_modifyHead]

theorem splitOn_append_cons (sep : CodePoint) (a b : Text) :
    splitOn sep (a ++ sep :: b) = splitOn sep a ++ splitOn sep b := by
  simp only [splitOn_eq_listSplitOn, List.splitOn_append_cons_self]

theorem splitOn_eq_singleton (h : sep ∉ t) : splitOn sep t = [t] := by
  rw [splitOn_eq_listSplitOn, List.splitOn_eq_singleton h]

theorem splitOn_join {ps : List Text} (h : ∀ p ∈ ps, sep ∉ p) (hn : ps ≠ []) :
    splitOn sep (join [sep] ps) = ps := by
  rw [splitOn_eq_listSplitOn, join, List.splitOn_intercalate sep h hn]

theorem not_mem_of_mem_splitOn {p : Text} (h : p ∈ splitOn sep t) : sep ∉ p := by
  induction t generalizing p with
  | nil =>
    obtain rfl : p = [] := by simpa using h
    simp
  | cons c t ih =>
    obtain ⟨q, qs, hq⟩ := List.exists_cons_of_ne_nil (splitOn_ne_nil sep t)
    rw [splitOn_cons, hq] at h
    rw [hq] at ih
    by_cases hc : c = sep
    · rw [if_pos hc] at h
      rcases List.mem_cons.mp h with rfl | h
      · simp
      · exact ih h
    · rw [if_neg hc, List.modifyHead_cons, List.mem_cons] at h
      rcases h with rfl | h
      · simpa [Ne.symm hc] using ih (List.mem_cons_self ..)
      · exact ih (List.mem_cons_of_mem _ h)

theorem mem_join_iff {sep : Text} {c : CodePoint} {parts : List Text} :
    c ∈ join sep parts ↔ (∃ p ∈ parts, c ∈ p) ∨ 1 < parts.length ∧ c ∈ sep := by
  induction parts with
  | nil => simp [join]
  | cons p parts ih =>
    cases parts with
    | nil => simp [join]
    | cons q parts =>
      rw [join, List.intercalate_cons_cons, List.append_assoc, List.mem_append, List.mem_append]
      rw [join] at ih
      rw [ih]
      simp only [List.mem_cons, List.length_cons, exists_eq_or_imp]
      grind

theorem mem_of_mem_splitOn {p : Text} {c s : CodePoint} (hp : p ∈ splitOn s t) (hc : c ∈ p) :
    c ∈ t := by
  rw [splitOn_eq_listSplitOn] at hp
  have hjoin : List.intercalate [s] (List.splitOn s t) = t := List.intercalate_splitOn s
  rw [← hjoin]
  exact mem_join_iff.mpr (.inl ⟨p, hp, hc⟩)

theorem getLastD_append {as bs : List Text} (h : bs ≠ []) :
    (as ++ bs).getLastD [] = bs.getLastD [] := by
  rw [List.getLastD_eq_getLast?, List.getLastD_eq_getLast?, List.getLast?_append,
    List.getLast?_eq_some_getLast h]
  rfl

/-- Only the last piece of a text changes when more is written behind it. -/
theorem splitOn_append (sep : CodePoint) (a b : Text) :
    splitOn sep (a ++ b) =
      (splitOn sep a).dropLast ++ splitOn sep ((splitOn sep a).getLastD [] ++ b) := by
  by_cases h : sep ∈ a
  · obtain ⟨a₁, a₂, rfl⟩ := List.append_of_mem h
    have hn := splitOn_ne_nil sep a₂
    rw [List.append_assoc, List.cons_append, splitOn_append_cons, splitOn_append_cons,
      splitOn_append sep a₂ b, List.dropLast_append_of_ne_nil hn, getLastD_append hn,
      List.append_assoc]
  · simp [splitOn_eq_singleton h]
termination_by a.length

/-! ## Lines -/

@[simp] theorem rawLines_nil : rawLines [] = [[]] := rfl

theorem rawLines_ne_nil (t : Text) : t.rawLines ≠ [] := splitOn_ne_nil _ _

theorem rawLines_append (a b : Text) :
    (a ++ b).rawLines = a.rawLines.dropLast ++ (a.rawLines.getLastD [] ++ b).rawLines :=
  splitOn_append lineFeed a b

theorem lineFeed_not_mem_getLastD (t : Text) : lineFeed ∉ t.rawLines.getLastD [] := by
  refine not_mem_of_mem_splitOn (t := t) ?_
  rw [List.getLastD_eq_getLast?, List.getLast?_eq_some_getLast (rawLines_ne_nil t)]
  exact List.getLast_mem (rawLines_ne_nil t)

theorem chomp_append_return (t : Text) : (t ++ [carriageReturn]).chomp = t.chomp := by
  simp [chomp, trimRight, List.reverse_append]

@[simp] theorem contentLines_nil : contentLines [] = [] := by
  simp [contentLines, chomp, trimRight, isBlank]

theorem contentLines_append_lineFeed (a b : Text) :
    (a ++ lineFeed :: b).contentLines = a.contentLines ++ b.contentLines := by
  simp only [contentLines, rawLines, splitOn_append_cons, List.map_append, List.filter_append]

theorem contentLines_eq_filter (h : lineFeed ∉ t) :
    t.contentLines = [t.chomp].filter (!·.isBlank) := by
  rw [contentLines, rawLines, splitOn_eq_singleton h, List.map_singleton]

theorem countP_splitOn_le (sep : CodePoint) (t : Text) :
    (splitOn sep t).countP (!·.isEmpty) ≤ t.length := by
  induction t with
  | nil => simp
  | cons c t ih =>
    obtain ⟨p, ps, hp⟩ := List.exists_cons_of_ne_nil (splitOn_ne_nil sep t)
    rw [splitOn_cons, hp]
    rw [hp, List.countP_cons] at ih
    by_cases hc : c = sep
    · rw [if_pos hc, List.countP_cons_of_neg (by simp), List.countP_cons, List.length_cons]
      omega
    · rw [if_neg hc, List.modifyHead_cons, List.countP_cons_of_pos (by simp), List.length_cons]
      omega

theorem length_contentLines_le (t : Text) : t.contentLines.length ≤ t.length := by
  rw [contentLines, ← List.countP_eq_length_filter, List.countP_map]
  refine Nat.le_trans (List.countP_mono_left fun line _ h => ?_) (countP_splitOn_le lineFeed t)
  cases line with
  | nil => simp [chomp, trimRight, isBlank] at h
  | cons => rfl

/-- The lines that `a` completes, and then those of its last piece with `b` behind it. -/
theorem contentLines_append (a b : Text) :
    (a ++ b).contentLines = (a.rawLines.dropLast.map chomp).filter (!·.isBlank) ++
      (a.rawLines.getLastD [] ++ b).contentLines := by
  rw [contentLines, rawLines_append, List.map_append, List.filter_append, contentLines]

theorem contentLines_append_return (t : Text) :
    (t ++ [carriageReturn]).contentLines = t.contentLines := by
  have h := contentLines_append t []
  rw [List.append_nil, List.append_nil] at h
  have hl := lineFeed_not_mem_getLastD t
  have hl' : lineFeed ∉ t.rawLines.getLastD [] ++ [carriageReturn] := by
    rw [List.mem_append]
    exact not_or.mpr ⟨hl, by decide⟩
  rw [contentLines_append, h, contentLines_eq_filter hl, contentLines_eq_filter hl',
    chomp_append_return]

end Workbench.Text
