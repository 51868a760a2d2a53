import Mathlib.Data.Fintype.Option
import Mathlib.Data.List.Infix
import Mathlib.Data.List.TakeWhile
import Workbench.Text.Case

/-! # What the end of a word does to a part of a text

The lower case of a capital sigma is told by the text around it: the first code points before and
behind it that are not ignorable. All other code points have their lower case wherever they stand.
So a part of a text keeps its lower case if these code points are in the part itself, and other
parts lose it in some text.
-/

namespace Workbench.Text

variable {a a' b b' q t : Text} {c x : CodePoint}

/-! ## A part of a text -/

def EndsWord (before after : Text) : Prop := meetsCased before ∧ !meetsCased after

instance (before after : Text) : Decidable (EndsWord before after) :=
  inferInstanceAs (Decidable (_ ∧ _))

def lowerAt (before : Text) (c : CodePoint) (after : Text) : Text :=
  if c = capitalSigma ∧ EndsWord before after then [CodePoint.ofNat 0x3C2] else c.lower

/-- The lower case of a part of a text, by what stands around it. -/
def lowerBetween (before after : Text) : Text → Text
  | [] => []
  | c :: part => lowerAt before c (part ++ after) ++ lowerBetween (c :: before) after part

theorem lowerFrom_cons_eq (before : Text) (c : CodePoint) (t : Text) :
    lowerFrom before (c :: t) = lowerAt before c t ++ lowerFrom (c :: before) t := rfl

theorem lowerFrom_append (before a b : Text) :
    lowerFrom before (a ++ b) = lowerBetween before b a ++ lowerFrom (a.reverse ++ before) b := by
  induction a generalizing before with
  | nil => rfl
  | cons c a ih =>
    rw [List.cons_append, lowerFrom_cons_eq, ih, lowerBetween, List.append_assoc,
      List.reverse_cons, List.append_assoc]
    rfl

theorem lowerFrom_eq (before t : Text) : lowerFrom before t = lowerBetween before [] t := by
  simpa [lowerFrom] using lowerFrom_append before t []

theorem lower_eq (t : Text) : t.lower = lowerBetween [] [] t := lowerFrom_eq [] t

theorem lower_append (a q b : Text) : (a ++ q ++ b).lower =
    lowerBetween [] (q ++ b) a ++ lowerBetween a.reverse b q ++
      lowerFrom (q.reverse ++ a.reverse) b := by
  rw [lower, List.append_assoc, lowerFrom_append, List.append_nil, lowerFrom_append,
    List.append_assoc]

theorem length_lowerAt (a b : Text) (c : CodePoint) : (lowerAt a c b).length = c.lower.length := by
  unfold lowerAt
  split_ifs with h
  · rw [h.1]
    rfl
  · rfl

theorem lowerAt_eq_iff :
    lowerAt a c b = lowerAt a' c b' ↔ (c = capitalSigma → (EndsWord a b ↔ EndsWord a' b')) := by
  have hforms : [CodePoint.ofNat 0x3C2] ≠ capitalSigma.lower := by decide
  by_cases hc : c = capitalSigma
  · subst hc
    by_cases h : EndsWord a b <;> by_cases h' : EndsWord a' b' <;>
      simp [lowerAt, h, h', hforms, hforms.symm]
  · simp [lowerAt, hc]

theorem length_lowerBetween (a b a' b' q : Text) :
    (lowerBetween a b q).length = (lowerBetween a' b' q).length := by
  induction q generalizing a a' with
  | nil => rfl
  | cons c q ih =>
    rw [lowerBetween, lowerBetween, List.length_append, List.length_append, length_lowerAt,
      length_lowerAt, ih]

theorem lowerBetween_eq_iff : lowerBetween a b q = lowerBetween a' b' q ↔
    ∀ u v, q = u ++ capitalSigma :: v →
      (EndsWord (u.reverse ++ a) (v ++ b) ↔ EndsWord (u.reverse ++ a') (v ++ b')) := by
  induction q generalizing a a' with
  | nil => simp [lowerBetween]
  | cons c q ih =>
    have hsplit : lowerBetween a b (c :: q) = lowerBetween a' b' (c :: q) ↔
        lowerAt a c (q ++ b) = lowerAt a' c (q ++ b') ∧
          lowerBetween (c :: a) b q = lowerBetween (c :: a') b' q := by
      rw [lowerBetween, lowerBetween]
      refine ⟨fun h => List.append_inj h ?_, fun h => by rw [h.1, h.2]⟩
      rw [length_lowerAt, length_lowerAt]
    rw [hsplit, lowerAt_eq_iff, ih]
    constructor
    · rintro ⟨hfirst, hrest⟩ u v hu
      cases u with
      | nil =>
        obtain ⟨rfl, rfl⟩ := List.cons.inj hu
        exact hfirst rfl
      | cons d u =>
        obtain ⟨rfl, rfl⟩ := List.cons.inj hu
        simpa using hrest u v rfl
    · intro h
      refine ⟨?_, fun u v hu => ?_⟩
      · rintro rfl
        exact h [] q rfl
      · simpa using h (c :: u) v (congrArg (c :: ·) hu)

/-! ## What decides on the end of a word -/

def nextCase? (t : Text) : Option Bool := (t.find? (!·.isCaseIgnorable)).map (·.isCased)

@[simp] theorem nextCase?_nil : nextCase? [] = none := rfl

theorem nextCase?_append (a b : Text) :
    nextCase? (a ++ b) = (nextCase? a).or (nextCase? b) := by
  rw [nextCase?, List.find?_append]
  cases h : a.find? (!·.isCaseIgnorable) <;> simp [nextCase?, h]

theorem meetsCased_iff : meetsCased t ↔ nextCase? t = some true := by
  have hhead : nextCase? t = (t.dropWhile (·.isCaseIgnorable)).head?.map (·.isCased) := by
    simp [nextCase?, List.find?_eq_head?_dropWhile_not]
  rw [hhead, meetsCased]
  cases t.dropWhile (·.isCaseIgnorable) <;> simp

theorem endsWord_append {u v : Text} : EndsWord (u ++ a) (v ++ b) ↔
    (nextCase? u).or (nextCase? a) = some true ∧ (nextCase? v).or (nextCase? b) ≠ some true := by
  rw [EndsWord, Bool.not_eq_true', ← Bool.not_eq_true, meetsCased_iff, meetsCased_iff,
    nextCase?_append, nextCase?_append]

/-- What stands before and behind a capital sigma tells whether a word ends there, whatever
stands around these texts. -/
def Decided (before after : Option Bool) : Prop :=
  after = some true ∨ before = some false ∨ before = some true ∧ after = some false

instance (before after : Option Bool) : Decidable (Decided before after) :=
  inferInstanceAs (Decidable (_ ∨ _ ∨ _ ∧ _))

/-- Each capital sigma is decided by the text itself. -/
def Settled (q : Text) : Prop :=
  ∀ u v, q = u ++ capitalSigma :: v → Decided (nextCase? u.reverse) (nextCase? v)

/-- Each capital sigma is decided by the text itself or does not end a word, if the text is at
the beginning. -/
def SettledBehind (q : Text) : Prop :=
  ∀ u v, q = u ++ capitalSigma :: v → nextCase? u.reverse = some true → nextCase? v ≠ none

theorem settled_of_not_mem (h : capitalSigma ∉ q) : q.Settled := by
  rintro u v rfl
  exact absurd (List.mem_append_right u List.mem_cons_self) h

theorem Settled.settledBehind (h : q.Settled) : q.SettledBehind := by
  have hcases : ∀ x y, Decided x y → x = some true → y ≠ none := by decide
  exact fun u v hq => hcases _ _ (h u v hq)

theorem Settled.lowerBetween_eq (h : q.Settled) (a b : Text) : lowerBetween a b q = q.lower := by
  rw [lower_eq, lowerBetween_eq_iff]
  intro u v hq
  have hcases : ∀ x y z w : Option Bool, Decided x y →
      (x.or z = some true ∧ y.or w ≠ some true ↔ x = some true ∧ y ≠ some true) := by decide
  simp only [endsWord_append, nextCase?_nil, Option.or_none]
  exact hcases _ _ _ _ (h u v hq)

theorem SettledBehind.lowerBetween_eq (h : q.SettledBehind) (b : Text) :
    lowerBetween [] b q = q.lower := by
  rw [lower_eq, lowerBetween_eq_iff]
  intro u v hq
  have hcases : ∀ x y w : Option Bool, (x = some true → y ≠ none) →
      (x = some true ∧ y.or w ≠ some true ↔ x = some true ∧ y ≠ some true) := by decide
  simp only [endsWord_append, nextCase?_nil, Option.or_none]
  exact hcases _ _ _ (h u v hq)

theorem settledBehind_of_lowerBetween_eq (hx : nextCase? [x] = some true)
    (h : lowerBetween [] [x] q = q.lower) : q.SettledBehind := by
  rw [lower_eq, lowerBetween_eq_iff] at h
  intro u v hq
  have hcases : ∀ x y : Option Bool,
      (x = some true ∧ y.or (some true) ≠ some true ↔ x = some true ∧ y ≠ some true) →
      x = some true → y ≠ none := by decide
  have hq := h u v hq
  simp only [endsWord_append, nextCase?_nil, Option.or_none, hx] at hq
  exact hcases _ _ hq

theorem SettledBehind.settled (hb : q.SettledBehind) (hx : nextCase? [x] = some true)
    (h : lowerBetween [x] [] q = q.lower) : q.Settled := by
  rw [lower_eq, lowerBetween_eq_iff] at h
  intro u v hq
  have hcases : ∀ x y : Option Bool, (x = some true → y ≠ none) →
      (x.or (some true) = some true ∧ y ≠ some true ↔ x = some true ∧ y ≠ some true) →
      Decided x y := by decide
  have hu := h u v hq
  simp only [endsWord_append, nextCase?_nil, Option.or_none, hx] at hu
  exact hcases _ _ (hb u v hq) hu

/-! ## Parts of lower cases -/

theorem eq_of_infix_concat {p t : Text} (hl : p.length = t.length) (h : p <:+: t ++ [x])
    (hx : p.getLast? ≠ some x) : p = t := by
  rcases List.infix_concat_iff.mp h with h | h
  · rcases List.suffix_concat_iff.mp h with rfl | ⟨s, rfl, -⟩
    · exact (List.eq_nil_of_length_eq_zero hl.symm).symm
    · exact absurd List.getLast?_concat hx
  · exact h.eq_of_length hl

theorem eq_of_infix_cons {p t : Text} (hl : p.length = t.length) (h : p <:+: x :: t)
    (hx : p.head? ≠ some x) : p = t := by
  rcases List.infix_cons_iff.mp h with h | h
  · rcases List.prefix_cons_iff.mp h with rfl | ⟨s, rfl, -⟩
    · exact (List.eq_nil_of_length_eq_zero hl.symm).symm
    · exact absurd rfl hx
  · exact h.eq_of_length hl

theorem exists_letter (o : Option CodePoint) :
    ∃ x, nextCase? [x] = some true ∧ (∀ a b, lowerAt a x b = [x]) ∧ o ≠ some x := by
  have hlower : ∀ x : CodePoint, x ≠ capitalSigma → x.lower = [x] →
      ∀ a b, lowerAt a x b = [x] := by
    intro x hx hl a b
    rw [lowerAt, if_neg (fun h => hx h.1), hl]
  by_cases h : o = some (.char 'a')
  · refine ⟨.char 'b', ?_, hlower _ (by decide) (by decide), by rw [h]; decide⟩
    decide +kernel
  · refine ⟨.char 'a', ?_, hlower _ (by decide) (by decide), h⟩
    decide +kernel

theorem lower_concat (hx : ∀ a b, lowerAt a x b = [x]) (q : Text) :
    (q ++ [x]).lower = lowerBetween [] [x] q ++ [x] := by
  rw [lower, lowerFrom_append, lowerFrom_cons_eq, hx]
  rfl

theorem lower_cons (hx : ∀ a b, lowerAt a x b = [x]) (q : Text) :
    lower (x :: q) = x :: lowerBetween [x] [] q := by
  rw [lower, lowerFrom_cons_eq, hx, lowerFrom_eq]
  rfl

theorem length_lower (a b q : Text) : q.lower.length = (lowerBetween a b q).length := by
  rw [lower_eq, length_lowerBetween]

/-- The lower case of a text is found in that of every text which begins with it, just if the text
is settled behind. -/
theorem settledBehind_iff : q.SettledBehind ↔ ∀ t : Text, q.lower <:+: (q ++ t).lower := by
  constructor
  · intro h t
    refine ⟨[], lowerFrom q.reverse t, ?_⟩
    rw [List.nil_append, lower.eq_def (q ++ t), lowerFrom_append, h.lowerBetween_eq,
      List.append_nil]
  · intro h
    obtain ⟨x, hx, hl, hne⟩ := exists_letter q.lower.getLast?
    have hq := h [x]
    rw [lower_concat hl] at hq
    exact settledBehind_of_lowerBetween_eq hx
      (eq_of_infix_concat (length_lower [] [x] q) hq hne).symm

/-- The lower case of a text is found in that of every text of which it is a part, just if the
text is settled. -/
theorem settled_iff : q.Settled ↔ ∀ t : Text, q <:+: t → q.lower <:+: t.lower := by
  constructor
  · rintro h _ ⟨a, b, rfl⟩
    refine ⟨lowerBetween [] (q ++ b) a, lowerFrom (q.reverse ++ a.reverse) b, ?_⟩
    rw [lower_append, h.lowerBetween_eq]
  · intro h
    have hb : q.SettledBehind := settledBehind_iff.mpr fun t => h _ (List.prefix_append q t).isInfix
    obtain ⟨x, hx, hl, hne⟩ := exists_letter q.lower.head?
    have hq := h (x :: q) (List.suffix_cons x q).isInfix
    rw [lower_cons hl] at hq
    exact hb.settled hx (eq_of_infix_cons (length_lower [x] [] q) hq hne).symm

end Workbench.Text
