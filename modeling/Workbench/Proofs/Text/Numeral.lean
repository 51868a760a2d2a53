import Mathlib.Data.Nat.Digits.Defs
import Mathlib.Tactic.Ring
import Workbench.Text.Blank

/-! # Decimal numerals

The digits of a number read back as the number. A numeral of `k` digits or fewer is one of a
number below `10 ^ k`, and no digit is a blank.
-/

namespace Workbench

theorem CodePoint.val_of_isDigit {c : CodePoint} (h : c.isDigit) : 48 ≤ c.val ∧ c.val ≤ 57 := by
  cases c with
  | surrogate => cases h
  | char c =>
    simp only [isDigit, Char.isDigit, Bool.and_eq_true, decide_eq_true_eq, ge_iff_le,
      UInt32.le_iff_toNat_le] at h
    exact h

theorem CodePoint.ne_of_isDigit {c : CodePoint} (h : c.isDigit) {x : Char}
    (hx : x.isDigit = false) : c ≠ .char x := by
  rintro rfl
  cases hx.symm.trans h

theorem CodePoint.isBlank_of_isDigit {c : CodePoint} (h : c.isDigit) : c.isBlank = false := by
  have hc := val_of_isDigit h
  rw [← Bool.not_eq_true]
  simp only [isBlank, Bool.or_eq_true, Bool.and_eq_true, decide_eq_true_eq, beq_iff_eq]
  omega

namespace Text

variable {t : Text}

theorem isNumeral_iff : t.isNumeral ↔ t ≠ [] ∧ ∀ c ∈ t, c.isDigit := by
  simp [isNumeral]

theorem digitsVal_chars (cs : List Char) :
    digitsVal (cs.map .char) = Nat.ofDigitChars 10 cs 0 := by
  rw [digitsVal, List.foldl_map]
  rfl

@[simp] theorem digitsVal_ofNat (n : Nat) : (ofNat n).digitsVal = n := by
  rw [ofNat, digitsVal_chars, Nat.ofDigitChars_toDigits (by decide) (by decide)]

@[simp] theorem isNumeral_ofNat (n : Nat) : (ofNat n).isNumeral := by
  refine isNumeral_iff.mpr ⟨by simp [ofNat, Nat.toDigits_ne_nil], fun c hc => ?_⟩
  obtain ⟨d, hd, rfl⟩ := List.mem_map.mp hc
  exact Nat.isDigit_of_mem_toDigits (by decide) (by decide) hd

theorem foldl_digits_lt (h : ∀ c ∈ t, c.isDigit) (n : Nat) :
    t.foldl (fun n c => 10 * n + c.digitVal) n < (n + 1) * 10 ^ t.length := by
  induction t generalizing n with
  | nil => simp
  | cons c t ih =>
    rw [List.forall_mem_cons] at h
    have hc := CodePoint.val_of_isDigit h.1
    have hd : 10 * n + c.digitVal + 1 ≤ (n + 1) * 10 := by
      rw [CodePoint.digitVal]
      omega
    calc (c :: t).foldl (fun n c => 10 * n + c.digitVal) n
        < (10 * n + c.digitVal + 1) * 10 ^ t.length := ih h.2 _
      _ ≤ (n + 1) * 10 * 10 ^ t.length := Nat.mul_le_mul_right _ hd
      _ = (n + 1) * 10 ^ (c :: t).length := by rw [List.length_cons, Nat.pow_succ']; ring

theorem digitsVal_lt (h : t.isNumeral) : t.digitsVal < 10 ^ t.length := by
  have := foldl_digits_lt (isNumeral_iff.mp h).2 0
  rwa [Nat.zero_add, Nat.one_mul] at this

theorem length_ofNat_le_iff {n k : Nat} (hk : 0 < k) : (ofNat n).length ≤ k ↔ n < 10 ^ k := by
  rw [ofNat, List.length_map, Nat.length_toDigits_le_iff (by decide) hk]

end Text

end Workbench
