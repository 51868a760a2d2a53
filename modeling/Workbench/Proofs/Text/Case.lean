import Workbench.Proofs.Text.Scalar
import Workbench.Text.Case

/-! # What has a word of small letters as its lower case

A capital past ASCII has a lower case past ASCII, but for the sign of the kelvin and the capital
I with a dot. So a word of ASCII letters, none of them a k, is the lower case of the texts that
have the same letters, each of them small or capital, and of no others.
-/

namespace Workbench

namespace CodePoint

variable {c d : CodePoint}

def IsPlainLetter (d : CodePoint) : Prop := 97 ≤ d.val ∧ d.val ≤ 122 ∧ d.val ≠ 0x6B

instance (d : CodePoint) : Decidable d.IsPlainLetter := inferInstanceAs (Decidable (_ ∧ _ ∧ _))

def IsLetter (c d : CodePoint) : Prop := c = d ∨ c.val + 32 = d.val

theorem lower_of_isLetter (hd : d.IsPlainLetter) (h : c.IsLetter d) : c.lower = [d] := by
  obtain ⟨hlow, hhigh, -⟩ := hd
  unfold lower
  rcases h with rfl | h
  · simp only
    rw [if_pos (by omega), if_neg (by omega)]
  · simp only
    rw [if_pos (by omega), if_pos (by omega), h, ofNat_val]

theorem runs_past_ascii :
    ∀ r ∈ Text.Case.runs, 122 < r.lower ∨ r.first = r.last ∧ r.lower = 0x6B := by
  decide +kernel

theorem not_isPlainLetter_of_run {r : Text.Case.Run} (hr : r ∈ Text.Case.runs) {n : ℕ}
    (hl : n ≤ r.last) : ¬ (ofNat (r.lower + (n - r.first))).IsPlainLetter := by
  intro h
  unfold IsPlainLetter at h
  rw [val_ofNat] at h
  have := runs_past_ascii r hr
  split_ifs at h <;> omega

theorem isLetter_of_lower (h : ∀ d ∈ c.lower, d.IsPlainLetter) :
    ∃ d, c.lower = [d] ∧ c.IsLetter d := by
  unfold lower at h ⊢
  simp only at h ⊢
  split_ifs at h ⊢ with h₁ h₂ h₃ h₄
  · exact ⟨_, rfl, .inr (by rw [val_ofNat, if_pos (by omega)])⟩
  · exact ⟨c, rfl, .inl rfl⟩
  · exact absurd (h (ofNat 0x307) (by simp)) (by decide)
  · exact absurd (h (ofNat 0x3C3) (by simp)) (by decide)
  · split at h
    · next r hr =>
      have hrange := List.find?_some hr
      simp only [Bool.and_eq_true, decide_eq_true_eq] at hrange
      exact absurd (h _ (List.mem_singleton_self _))
        (not_isPlainLetter_of_run (List.mem_of_find?_eq_some hr) hrange.1.2)
    · have := h c (List.mem_singleton_self c)
      unfold IsPlainLetter at this
      omega

end CodePoint

namespace Text

variable {t u : Text}

theorem lowerFrom_cons (before : Text) (c : CodePoint) (t : Text) :
    lowerFrom before (c :: t) = [CodePoint.ofNat 0x3C2] ++ lowerFrom (c :: before) t ∨
      lowerFrom before (c :: t) = c.lower ++ lowerFrom (c :: before) t := by
  rw [lowerFrom]
  split_ifs
  · exact .inl rfl
  · exact .inr rfl

theorem lowerFrom_eq_iff (hu : ∀ d ∈ u, d.IsPlainLetter) (before : Text) :
    lowerFrom before t = u ↔ List.Forall₂ CodePoint.IsLetter t u := by
  induction t generalizing before u with
  | nil => rw [lowerFrom, List.forall₂_nil_left_iff, eq_comm]
  | cons c t ih =>
    constructor
    · rintro rfl
      rcases lowerFrom_cons before c t with h | h
      · rw [h] at hu
        exact absurd (hu _ (List.mem_append_left _ (List.mem_singleton_self _))) (by decide)
      · rw [h] at hu ⊢
        obtain ⟨d, hd, hc⟩ :=
          CodePoint.isLetter_of_lower fun d hd => hu d (List.mem_append_left _ hd)
        rw [hd]
        exact .cons hc ((ih (fun d hd => hu d (List.mem_append_right _ hd)) _).mp rfl)
    · intro h
      cases h with | @cons _ d _ u hc ht =>
      rw [List.forall_mem_cons] at hu
      -- Only the lower case of a capital sigma depends on what is around it.
      have hsigma : c ≠ capitalSigma := by
        rintro rfl
        have hval : capitalSigma.val = 0x3A3 := rfl
        have := hu.1.2.1
        rcases hc with rfl | hc <;> omega
      rw [lowerFrom, if_neg (fun h => hsigma h.1), CodePoint.lower_of_isLetter hu.1 hc,
        (ih hu.2 _).mpr ht]
      rfl

theorem lower_eq_iff (hu : ∀ d ∈ u, d.IsPlainLetter) :
    t.lower = u ↔ List.Forall₂ CodePoint.IsLetter t u :=
  lowerFrom_eq_iff hu []

end Text

end Workbench
