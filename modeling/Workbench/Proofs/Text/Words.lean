import Workbench.Proofs.Text.Pieces
import Workbench.Text.Blank

/-! # Words

A text falls into its first piece and what is behind the separator after it. Words are pieces
between blanks without the empty ones, so blanks around a text and between words do not count.
-/

namespace Workbench.Text

variable {p : CodePoint → Bool} {t u w r lead trail : Text}

def Opens (p : CodePoint → Bool) (t : Text) : Prop := ∀ c ∈ t.head?, p c

def Unbroken (t : Text) : Prop := ∀ c ∈ t, c.isBlank = false

instance (p : CodePoint → Bool) (t : Text) : Decidable (Opens p t) :=
  inferInstanceAs (Decidable (∀ c ∈ t.head?, p c))

instance (t : Text) : Decidable t.Unbroken :=
  inferInstanceAs (Decidable (∀ c ∈ t, c.isBlank = false))

@[simp] theorem opens_nil (p : CodePoint → Bool) : Opens p [] := by
  simp [Opens]

@[simp] theorem opens_cons {c : CodePoint} : Opens p (c :: t) ↔ p c = true := by
  simp [Opens]

theorem Opens.mono {q : CodePoint → Bool} (h : Opens p t) (hpq : ∀ c, p c → q c) : Opens q t :=
  fun c hc => hpq c (h c hc)

theorem opens_dropWhile (p : CodePoint → Bool) (t : Text) :
    Opens (fun c => !p c) (t.dropWhile p) := by
  intro c hc
  have h := List.head?_dropWhile_not p t
  rw [Option.mem_def.mp hc] at h
  simpa using h

theorem takeWhile_append_of_opens (hw : ∀ c ∈ w, p c) (hr : Opens (fun c => !p c) r) :
    (w ++ r).takeWhile p = w := by
  rw [List.takeWhile_append_of_pos hw]
  cases r with
  | nil => simp
  | cons c r => simp [(Bool.not_eq_true' _).mp (opens_cons.mp hr)]

theorem dropWhile_append_of_opens (hw : ∀ c ∈ w, p c) (hr : Opens (fun c => !p c) r) :
    (w ++ r).dropWhile p = r := by
  rw [List.dropWhile_append_of_pos hw]
  cases r with
  | nil => rfl
  | cons c r => simp [(Bool.not_eq_true' _).mp (opens_cons.mp hr)]

/-! ## The first piece -/

theorem exists_first_piece (p : CodePoint → Bool) (t : Text) :
    ∃ a r, t = a ++ r ∧ (∀ c ∈ a, p c = false) ∧ Opens p r := by
  refine ⟨t.takeWhile (!p ·), t.dropWhile (!p ·), List.takeWhile_append_dropWhile.symm, ?_, ?_⟩
  · intro c hc
    simpa using List.all_eq_true.mp List.all_takeWhile c hc
  · exact (opens_dropWhile _ t).mono (by simp)

theorem splitOnP_first {a : Text} (ha : ∀ c ∈ a, p c = false) (hr : Opens p r) :
    List.splitOnP p (a ++ r) = a :: (List.splitOnP p r).tail := by
  cases r with
  | nil => simp [List.splitOnP_eq_singleton ha]
  | cons x r =>
    have hx := opens_cons.mp hr
    rw [List.splitOnP_append_cons _ _ hx, List.splitOnP_eq_singleton ha,
      List.splitOnP_cons_eq_if_modifyHead, if_pos hx]
    rfl

theorem splitOnP_append_cons_of_free {a : Text} {x : CodePoint} (ha : ∀ c ∈ a, p c = false)
    (hx : p x) : List.splitOnP p (a ++ x :: r) = a :: List.splitOnP p r := by
  rw [List.splitOnP_append_cons _ _ hx, List.splitOnP_eq_singleton ha]
  rfl

theorem of_splitOnP_eq_cons {a : Text} {ps : List Text} (h : List.splitOnP p t = a :: ps) :
    ∃ r, Opens p r ∧ t = a ++ r ∧ ps = (List.splitOnP p r).tail := by
  obtain ⟨b, r, rfl, hb, hr⟩ := exists_first_piece p t
  rw [splitOnP_first hb hr] at h
  obtain ⟨rfl, rfl⟩ := List.cons.inj h
  exact ⟨r, hr, rfl, rfl⟩

theorem of_splitOnP_eq_cons_cons {a b : Text} {ps : List Text}
    (h : List.splitOnP p t = a :: b :: ps) :
    ∃ x r, p x ∧ t = a ++ x :: r ∧ List.splitOnP p r = b :: ps := by
  obtain ⟨r, hr, rfl, hps⟩ := of_splitOnP_eq_cons h
  cases r with
  | nil => cases hps
  | cons x r =>
    have hx := opens_cons.mp hr
    rw [List.splitOnP_cons_eq_if_modifyHead, if_pos hx] at hps
    exact ⟨x, r, hx, rfl, hps.symm⟩

/-! ## Words -/

theorem words_eq_splitOnP (t : Text) :
    t.words = (List.splitOnP CodePoint.isBlank t).filter (!·.isEmpty) := by
  unfold words
  congr 1
  induction t with
  | nil => rfl
  | cons c t ih =>
    obtain ⟨q, qs, hq⟩ := List.exists_cons_of_ne_nil (List.splitOnP_ne_nil CodePoint.isBlank t)
    rw [List.foldr_cons, ih, List.splitOnP_cons_eq_if_modifyHead, hq]
    by_cases h : c.isBlank <;> simp [h]

@[simp] theorem words_nil : words [] = [] := rfl

theorem words_cons_blank {c : CodePoint} (h : c.isBlank) : words (c :: t) = words t := by
  rw [words_eq_splitOnP, List.splitOnP_cons_eq_if_modifyHead, if_pos h, words_eq_splitOnP]
  rfl

theorem words_blank_append (h : lead.isBlank) : words (lead ++ t) = words t := by
  induction lead with
  | nil => rfl
  | cons c lead ih =>
    obtain ⟨hc, hl⟩ := (Bool.and_eq_true _ _).mp h
    rw [List.cons_append, words_cons_blank hc, ih hl]

theorem words_append (h : Opens CodePoint.isBlank r) : words (t ++ r) = words t ++ words r := by
  cases r with
  | nil => simp
  | cons c r =>
    have hc := opens_cons.mp h
    rw [words_cons_blank hc, words_eq_splitOnP, List.splitOnP_append_cons _ _ hc,
      List.filter_append, words_eq_splitOnP, words_eq_splitOnP]

theorem words_unbroken (hw : w.Unbroken) (hn : w ≠ []) : words w = [w] := by
  rw [words_eq_splitOnP, List.splitOnP_eq_singleton hw]
  simpa using hn

theorem words_word_append (hw : w.Unbroken) (hn : w ≠ []) (hr : Opens CodePoint.isBlank r) :
    words (w ++ r) = w :: words r := by
  rw [words_append hr, words_unbroken hw hn]
  rfl

theorem words_isBlank (h : t.isBlank) : words t = [] := by
  simpa using words_blank_append (t := []) h

/-! ## What is trimmed off -/

theorem trim_eq (p : CodePoint → Bool) (t : Text) :
    t.trim p = ((t.dropWhile p).reverse.dropWhile p).reverse := rfl

theorem exists_trim (p : CodePoint → Bool) (t : Text) :
    ∃ lead trail, (∀ c ∈ lead, p c) ∧ (∀ c ∈ trail, p c) ∧ t = lead ++ t.trim p ++ trail := by
  let u := t.dropWhile p
  have hu : u = t.trim p ++ (u.reverse.takeWhile p).reverse := by
    have h := congrArg List.reverse (List.takeWhile_append_dropWhile (p := p) (l := u.reverse))
    rw [List.reverse_append, List.reverse_reverse] at h
    exact h.symm
  have htake (s : Text) : ∀ c ∈ s.takeWhile p, p c := List.all_eq_true.mp List.all_takeWhile
  refine ⟨t.takeWhile p, (u.reverse.takeWhile p).reverse, htake t, ?_, ?_⟩
  · intro c hc
    exact htake u.reverse c (List.mem_reverse.mp hc)
  · rw [List.append_assoc, ← hu, List.takeWhile_append_dropWhile]

theorem trim_between (hl : ∀ c ∈ lead, p c) (hu : ∀ c ∈ u, p c = false) (ht : ∀ c ∈ trail, p c) :
    trim p (lead ++ u ++ trail) = u := by
  have hopens {v : Text} (hv : ∀ c ∈ v, p c = false) : Opens (fun c => !p c) v := fun c hc => by
    simpa using hv c (List.mem_of_mem_head? hc)
  rw [trim_eq, List.append_assoc, List.dropWhile_append_of_pos hl]
  cases u with
  | nil =>
    have htrail := dropWhile_append_of_opens ht (opens_nil _)
    rw [List.append_nil] at htrail
    simp [htrail]
  | cons c u =>
    have hfirst := dropWhile_append_of_opens (p := p) (w := []) (r := c :: u ++ trail) (by simp)
      (opens_cons.mpr (opens_cons.mp (hopens hu)))
    rw [← List.nil_append (c :: u ++ trail), hfirst, List.reverse_append,
      dropWhile_append_of_opens (by simpa using ht)
        (hopens fun d hd => hu d (List.mem_reverse.mp hd)),
      List.reverse_reverse]

theorem isBlank_iff : t.isBlank = true ↔ ∀ c ∈ t, c.isBlank = true := List.all_eq_true

theorem opens_of_isBlank (h : t.isBlank) : Opens CodePoint.isBlank t :=
  fun c hc => isBlank_iff.mp h c (List.mem_of_mem_head? hc)

theorem exists_strip (t : Text) :
    ∃ lead trail, lead.isBlank ∧ trail.isBlank ∧ t = lead ++ t.strip ++ trail := by
  obtain ⟨lead, trail, hl, ht, h⟩ := exists_trim (·.isBlank) t
  exact ⟨lead, trail, isBlank_iff.mpr hl, isBlank_iff.mpr ht, h⟩

theorem mem_strip_iff {c : CodePoint} (hc : c.isBlank = false) : c ∈ t.strip ↔ c ∈ t := by
  have hne {v : Text} (hv : v.isBlank) : c ∉ v := by
    intro hm
    rw [isBlank_iff.mp hv c hm] at hc
    cases hc
  obtain ⟨lead, trail, hl, ht, h⟩ := exists_strip t
  have hm : c ∈ t ↔ c ∈ lead ++ t.strip ++ trail := iff_of_eq (congrArg (c ∈ ·) h)
  rw [hm]
  simp [hne hl, hne ht]

theorem strip_between (hl : lead.isBlank) (hu : u.Unbroken) (ht : trail.isBlank) :
    strip (lead ++ u ++ trail) = u :=
  trim_between (isBlank_iff.mp hl) hu (isBlank_iff.mp ht)

theorem words_strip (t : Text) : t.strip.words = t.words := by
  obtain ⟨lead, trail, hl, ht, h⟩ := exists_strip t
  calc t.strip.words
    _ = words (lead ++ t.strip ++ trail) := by
      rw [words_append (opens_of_isBlank ht), words_blank_append hl, words_isBlank ht,
        List.append_nil]
    _ = t.words := by rw [← h]

end Workbench.Text
