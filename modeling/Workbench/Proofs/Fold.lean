import Workbench.Fold

/-! # Where a fold ends

A fold over two lists goes through the first and then, if nothing went wrong, through the
second. What it ends with is the first step that goes wrong.
-/

namespace Workbench

variable {σ α ε : Type}

theorem foldUntil_append (step : σ → α → σ × Option ε) (s : σ) (a b : List α) :
    foldUntil step s (a ++ b) = match foldUntil step s a with
      | (s, some e) => (s, some e)
      | (s, none) => foldUntil step s b := by
  induction a generalizing s with
  | nil => rfl
  | cons x a ih =>
    simp only [List.cons_append, foldUntil]
    rcases step s x with ⟨s', _ | e⟩
    · exact ih s'
    · rfl

theorem foldUntil_singleton (step : σ → α → σ × Option ε) (s : σ) (a : α) :
    foldUntil step s [a] = step s a := by
  rw [foldUntil]
  rcases step s a with ⟨s', _ | e⟩ <;> rfl

/-- A fold goes wrong at the first item that a step goes wrong on. -/
theorem foldUntil_eq_some_iff {step : σ → α → σ × Option ε} {s : σ} {l : List α} {e : ε} :
    (foldUntil step s l).2 = some e ↔
      ∃ before a after q, l = before ++ a :: after ∧ foldUntil step s before = (q, none) ∧
        (step q a).2 = some e := by
  constructor
  · intro h
    induction l generalizing s with
    | nil => cases h
    | cons a l ih =>
      rw [foldUntil] at h
      rcases hs : step s a with ⟨s', _ | e'⟩
      · rw [hs] at h
        obtain ⟨before, b, after, q, rfl, hq, hb⟩ := ih h
        refine ⟨a :: before, b, after, q, rfl, ?_, hb⟩
        rw [foldUntil, hs]
        exact hq
      · rw [hs] at h
        exact ⟨[], a, l, s, rfl, rfl, by rw [hs]; exact h⟩
  · rintro ⟨before, a, after, q, rfl, hq, ha⟩
    rw [foldUntil_append, hq]
    change (foldUntil step q (a :: after)).2 = some e
    rw [foldUntil]
    rcases hs : step q a with ⟨s', _ | e'⟩
    · rw [hs] at ha
      cases ha
    · rw [hs] at ha
      exact ha

/-- What every step keeps is kept to the end, wherever that is. -/
theorem foldUntil_keeps {step : σ → α → σ × Option ε} {P : σ → Prop} {Q : ε → Prop}
    (h : ∀ s a, P s → P (step s a).1 ∧ ∀ e, (step s a).2 = some e → Q e) {s : σ} (hs : P s)
    (l : List α) : P (foldUntil step s l).1 ∧ ∀ e, (foldUntil step s l).2 = some e → Q e := by
  induction l generalizing s with
  | nil => exact ⟨hs, nofun⟩
  | cons a l ih =>
    have ha := h s a hs
    rw [foldUntil]
    rcases hstep : step s a with ⟨s', _ | e⟩ <;> rw [hstep] at ha
    · exact ih ha.1
    · exact ha

/-- What a step does not bring about has been so from the start. -/
theorem foldUntil_back {step : σ → α → σ × Option ε} {P : σ → Prop}
    (hP : ∀ s a, P (step s a).1 → P s) {s : σ} {l : List α} (hl : P (foldUntil step s l).1) :
    P s := by
  induction l generalizing s with
  | nil => exact hl
  | cons a l ih =>
    apply hP s a
    rw [foldUntil] at hl
    rcases hs : step s a with ⟨t, _ | e⟩
    · rw [hs] at hl
      exact ih hl
    · rw [hs] at hl
      exact hl

/-- Two folds are alike to the end if each step keeps them so, as long as it leads to a state
that the first fold can end with. -/
theorem foldUntil_alike {step : σ → α → σ × Option ε} {P : σ → Prop} {R : σ → σ → Prop}
    (hP : ∀ s a, P (step s a).1 → P s)
    (hR : ∀ s s' a, R s s' → P (step s a).1 →
      R (step s a).1 (step s' a).1 ∧ (step s' a).2 = (step s a).2)
    {s s' : σ} (h : R s s') {l : List α} (hl : P (foldUntil step s l).1) :
    R (foldUntil step s l).1 (foldUntil step s' l).1 ∧
      (foldUntil step s' l).2 = (foldUntil step s l).2 := by
  induction l generalizing s s' with
  | nil => exact ⟨h, rfl⟩
  | cons a l ih =>
    have ha := hR s s' a h
    rw [foldUntil] at hl ⊢
    rcases hs : step s a with ⟨t, _ | e⟩
    · rw [hs] at hl ha
      obtain ⟨ht, hn⟩ := ha (foldUntil_back hP hl)
      rw [foldUntil, ← Prod.eta (step s' a), hn]
      exact ih ht hl
    · rw [hs] at hl ha
      obtain ⟨ht, hn⟩ := ha hl
      rw [foldUntil, ← Prod.eta (step s' a), hn]
      exact ⟨ht, rfl⟩

/-! ## Steps -/

variable {s s' : σ} {outcome : Option ε} {step : σ → σ × Option ε} {steps : List (σ → σ × Option ε)}

theorem takeSteps_cons_eq (h : takeSteps s (step :: steps) = (s', outcome)) :
    (∃ e, step s = (s', some e) ∧ outcome = some e) ∨
      ∃ t, step s = (t, none) ∧ takeSteps t steps = (s', outcome) := by
  rw [takeSteps, foldUntil] at h
  rcases hs : step s with ⟨t, _ | e⟩
  · rw [hs] at h
    exact .inr ⟨t, rfl, h⟩
  · rw [hs] at h
    cases h
    exact .inl ⟨e, rfl, rfl⟩

end Workbench
