import Workbench.Editor
import Workbench.Proofs.Fold

/-! # Telling entries to an editor

Entries are told in order. The output channel takes all of them, or it refuses one, and then
the entries behind that are not told.
-/

namespace Workbench.Editor

variable {e e₁ : Editor} {k : Entry} {t : Text} {ts : List Text} {m n : Nat}

def takesAfter (e : Editor) (k : Entry) (n : Nat) : Bool := (e.next k).getD n (e.takesRest k)

def Takes (e : Editor) (k : Entry) (n : Nat) : Prop := ∀ i < n, e.takesAfter k i = true

/-- The editor with entries that its channel took. -/
def told (e : Editor) (k : Entry) (ts : List Text) : Editor :=
  { e.behind ts.length k with calls := e.calls ++ ts.map k.call }

@[simp] theorem next_behind (e : Editor) (n : Nat) (k k' : Entry) :
    (e.behind n k).next k' = if k = k' then (e.next k).drop n else e.next k' := by
  cases k <;> cases k' <;> rfl

@[simp] theorem takesRest_behind (e : Editor) (n : Nat) (k k' : Entry) :
    (e.behind n k).takesRest k' = e.takesRest k' := by
  cases k <;> cases k' <;> rfl

@[simp] theorem calls_behind (e : Editor) (n : Nat) (k : Entry) :
    (e.behind n k).calls = e.calls := by
  cases k <;> rfl

@[simp] theorem next_told (e : Editor) (k k' : Entry) (ts : List Text) :
    (e.told k ts).next k' = if k = k' then (e.next k).drop ts.length else e.next k' := by
  rw [← next_behind]
  cases k' <;> rfl

@[simp] theorem takesRest_told (e : Editor) (k k' : Entry) (ts : List Text) :
    (e.told k ts).takesRest k' = e.takesRest k' := by
  rw [← e.takesRest_behind ts.length k]
  cases k' <;> rfl

@[simp] theorem calls_told (e : Editor) (k : Entry) (ts : List Text) :
    (e.told k ts).calls = e.calls ++ ts.map k.call := rfl

theorem takesAfter_zero (e : Editor) (k : Entry) : e.takesAfter k 0 = e.takes k := by
  rw [takesAfter, takes, List.headD_eq_head?_getD, List.head?_eq_getElem?,
    List.getD_eq_getElem?_getD]

theorem takesAfter_told (e : Editor) (k : Entry) (ts : List Text) (n : Nat) :
    (e.told k ts).takesAfter k n = e.takesAfter k (ts.length + n) := by
  simp [takesAfter, List.getElem?_drop]

theorem told_nil (e : Editor) (k : Entry) : e.told k [] = e := by
  cases k <;> simp [told, behind]

theorem told_told (e : Editor) (k : Entry) (ts us : List Text) :
    (e.told k ts).told k us = e.told k (ts ++ us) := by
  cases k <;> simp [told, behind]

theorem add_of_takes (h : e.takes k = true) : e.add k t = (e.told k [t], none) := by
  rw [add, if_pos h]
  cases k <;> rfl

theorem add_of_refuses (h : e.takes k = false) :
    e.add k t = (e.behind 1 k, some .closedOutput) := by
  rw [add, if_neg (by simp [h])]

theorem next_add (e : Editor) (k : Entry) (t : Text) (k' : Entry) :
    (e.add k t).1.next k' = if k = k' then (e.next k).tail else e.next k' := by
  rw [← List.drop_one]
  unfold add
  split
  · exact e.next_behind 1 k k'
  · exact e.next_behind 1 k k'

theorem closed_add (e : Editor) (k : Entry) (t : Text) : (e.add k t).1.closed = e.closed := by
  unfold add
  split <;> cases k <;> rfl

theorem takesRest_add (e : Editor) (k : Entry) (t : Text) (k' : Entry) :
    (e.add k t).1.takesRest k' = e.takesRest k' := by
  cases k'
  · rfl
  · exact congrArg (!·) (e.closed_add k t)

theorem snd_add (e : Editor) (k : Entry) (t : Text) :
    (e.add k t).2 = if e.takes k then none else some .closedOutput := by
  unfold add
  split <;> rfl

theorem takes_congr (h : e₁.next k = e.next k) (hr : e₁.takesRest k = e.takesRest k) :
    e₁.Takes k n ↔ e.Takes k n := by
  simp only [Takes, takesAfter, h, hr]

/-- What comes of telling entries. -/
inductive Tells (e : Editor) (k : Entry) (ts : List Text) : Editor × Option Crash → Prop
  /-- The channel takes all of them. -/
  | all (taken : e.Takes k ts.length) : Tells e k ts (e.told k ts, none)
  /-- The channel takes some and refuses the next. -/
  | refused {before after : List Text} {t : Text} (split : ts = before ++ t :: after)
      (taken : e.Takes k before.length) (refused : e.takesAfter k before.length = false) :
      Tells e k ts ((e.told k before).behind 1 k, some .closedOutput)

theorem Tells.cons {r : Editor × Option Crash} (ht : e.takes k = true)
    (h : Tells (e.told k [t]) k ts r) : Tells e k (t :: ts) r := by
  have htakes (n : Nat) (h : (e.told k [t]).Takes k n) : e.Takes k (n + 1) := by
    intro i hi
    cases i with
    | zero => rwa [takesAfter_zero]
    | succ i =>
      have hi := h i (Nat.lt_of_succ_lt_succ hi)
      rwa [takesAfter_told, List.length_singleton, Nat.add_comm] at hi
  cases h with
  | all taken =>
    rw [told_told]
    exact .all (htakes _ taken)
  | @refused before after u split taken refused =>
    rw [told_told]
    rw [takesAfter_told, List.length_singleton, Nat.add_comm] at refused
    exact .refused (congrArg (t :: ·) split) (htakes _ taken) refused

theorem tells_foldUntil (e : Editor) (k : Entry) (ts : List Text) :
    Tells e k ts (foldUntil (add · k ·) e ts) := by
  induction ts generalizing e with
  | nil =>
    have h : Tells e k [] (e.told k [], none) := .all nofun
    rwa [told_nil] at h
  | cons t ts ih =>
    rw [foldUntil]
    cases ht : e.takes k with
    | true =>
      rw [add_of_takes ht]
      exact (ih (e.told k [t])).cons ht
    | false =>
      rw [add_of_refuses ht]
      rw [← takesAfter_zero] at ht
      have h : Tells e k (t :: ts) ((e.told k []).behind 1 k, some .closedOutput) :=
        .refused (List.nil_append _).symm nofun ht
      rwa [told_nil] at h

theorem Tells.snd_eq_none_iff {r : Editor × Option Crash} (h : Tells e k ts r) :
    r.2 = none ↔ e.Takes k ts.length := by
  cases h with
  | all taken => exact ⟨fun _ => taken, fun _ => rfl⟩
  | @refused before after u split taken refused =>
    refine ⟨nofun, fun hall => ?_⟩
    have hb := hall before.length (by simp [split])
    rw [refused] at hb
    cases hb

theorem Tells.of_none {e' : Editor} (h : Tells e k ts (e', none)) :
    e.Takes k ts.length ∧ e' = e.told k ts := by
  cases h with
  | all taken => exact ⟨taken, rfl⟩

/-! ## Entries over time -/

/-- The editor after some entries that its channel took, whatever else it was told. -/
structure Took (e : Editor) (k : Entry) (n : Nat) (e₁ : Editor) : Prop where
  taken : e.Takes k n
  later : ∀ i, e₁.takesAfter k i = e.takesAfter k (n + i)

theorem Took.refl (e : Editor) (k : Entry) : Took e k 0 e :=
  ⟨nofun, fun i => by rw [Nat.zero_add]⟩

theorem Took.congr {e₂ : Editor} (h : Took e k n e₁) (hn : e₂.next k = e₁.next k)
    (hr : e₂.takesRest k = e₁.takesRest k) : Took e k n e₂ :=
  ⟨h.taken, fun i => by rw [← h.later, takesAfter, takesAfter, hn, hr]⟩

theorem Took.takes_iff (h : Took e k m e₁) : e₁.Takes k n ↔ e.Takes k (m + n) := by
  constructor
  · intro ht i hi
    rcases Nat.lt_or_ge i m with him | him
    · exact h.taken i him
    · rw [← Nat.add_sub_of_le him, ← h.later]
      exact ht (i - m) (by omega)
  · intro ht i hi
    rw [h.later]
    exact ht (m + i) (by omega)

theorem Took.told (h : Took e k m e₁) (ht : e₁.Takes k ts.length) :
    Took e k (m + ts.length) (e₁.told k ts) where
  taken := h.takes_iff.mp ht
  later i := by rw [takesAfter_told, h.later, Nat.add_assoc]

theorem Takes.mono (h : e.Takes k n) (hm : m ≤ n) : e.Takes k m :=
  fun i hi => h i (Nat.lt_of_lt_of_le hi hm)

/-! ## Other calls -/

theorem count_told (e : Editor) {c : Call} (hc : ∀ t, c ≠ k.call t) (ts : List Text) :
    (e.told k ts).calls.count c = e.calls.count c := by
  have hn : (ts.map k.call).count c = 0 := by
    rw [List.count_eq_zero]
    intro hm
    obtain ⟨t, -, rfl⟩ := List.mem_map.mp hm
    exact hc t rfl
  rw [calls_told, List.count_append, hn, Nat.add_zero]

theorem Tells.count {c : Call} (hc : ∀ t, c ≠ k.call t) {r : Editor × Option Crash}
    (h : Tells e k ts r) : r.1.calls.count c = e.calls.count c := by
  cases h with
  | all => exact e.count_told hc ts
  | refused =>
    rw [calls_behind]
    exact e.count_told hc _

end Workbench.Editor
