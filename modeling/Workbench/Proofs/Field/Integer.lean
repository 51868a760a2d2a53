import Mathlib.Tactic.Ring
import Workbench.Proofs.Text.Numeral
import Workbench.Proofs.Text.Pieces
import Workbench.Surroundings

/-! # Which values count as integers

An integer is asked for with some leniency. It may be given as a switch, as a number of the
binary format that has no fraction, or as a text. Which texts count for which integers is left
open, but for their size.
-/

namespace Workbench

open Json (Value)

/-! ## Numbers of the binary format -/

namespace Binary64

variable {negative : Bool} {m k : ℕ} {n : ℤ}

def signed (negative : Bool) (m : ℕ) : ℤ := if negative then -(m : ℤ) else m

inductive IsInteger : Binary64 → ℤ → Prop where
  | mk {negative : Bool} {m e : ℕ} {n : ℤ} (h : signed negative m * 2 ^ e = n * 2 ^ 1074) :
      IsInteger (.finite negative m e) n

theorem signed_mul (negative : Bool) (m k : ℕ) :
    signed negative (m * k) = signed negative m * k := by
  cases negative <;> simp [signed]

theorem signed_eq_mul_iff (hk : 0 < k) :
    signed negative m = n * k ↔ m % k = 0 ∧ signed negative (m / k) = n := by
  have hk' : (k : ℤ) ≠ 0 := by exact_mod_cast hk.ne'
  constructor
  · intro h
    have hdvd : (k : ℤ) ∣ signed negative m := h ▸ Int.dvd_mul_left n k
    have hdvd' : k ∣ m := by
      cases negative
      · exact Int.natCast_dvd_natCast.mp hdvd
      · exact Int.natCast_dvd_natCast.mp (Int.dvd_neg.mp hdvd)
    refine ⟨Nat.mod_eq_zero_of_dvd hdvd', mul_right_cancel₀ hk' ?_⟩
    rw [← signed_mul, Nat.div_mul_cancel hdvd', h]
  · rintro ⟨hmod, rfl⟩
    rw [← signed_mul, Nat.div_mul_cancel (Nat.dvd_of_mod_eq_zero hmod)]

theorem toInt?_finite (negative : Bool) (m e : ℕ) :
    (finite negative m e).toInt? = if 1074 ≤ e then some (signed negative (m * 2 ^ (e - 1074)))
      else if m % 2 ^ (1074 - e) = 0 then some (signed negative (m / 2 ^ (1074 - e))) else none :=
  rfl

theorem toInt?_eq_some_iff {x : Binary64} : x.toInt? = some n ↔ x.IsInteger n := by
  cases x with
  | infinite | nan => exact ⟨nofun, nofun⟩
  | finite negative m e =>
    have hpos (d : ℕ) : (2 : ℤ) ^ d ≠ 0 := pow_ne_zero d two_ne_zero
    have hiff : (finite negative m e).IsInteger n ↔
        signed negative m * 2 ^ e = n * 2 ^ 1074 := ⟨fun ⟨h⟩ => h, .mk⟩
    rw [hiff, toInt?_finite]
    by_cases hle : 1074 ≤ e
    · have hpow : (2 : ℤ) ^ e = 2 ^ (e - 1074) * 2 ^ 1074 := by
        rw [← pow_add, Nat.sub_add_cancel hle]
      rw [if_pos hle, hpow, ← mul_assoc, mul_left_inj' (hpos 1074), Option.some_inj, signed_mul]
      norm_cast
    · have hpow : (2 : ℤ) ^ 1074 = ((2 ^ (1074 - e) : ℕ) : ℤ) * 2 ^ e := by
        rw [Nat.cast_pow, Nat.cast_ofNat, ← pow_add, Nat.sub_add_cancel (by omega)]
      rw [if_neg hle, hpow, ← mul_assoc, mul_left_inj' (hpos e), signed_eq_mul_iff (by positivity)]
      split_ifs with hmod <;> simp [hmod]

end Binary64

namespace Field

/-! ## Values -/

section Coercion

variable [Coercion] {v : Value} {n : ℤ}

/-- What is documented of the integers that values count for. -/
structure LaxIntegers : Prop where
  int (n : ℤ) : integer (.int n) = .ok n
  switch (b : Bool) : integer (.bool b) = .ok (if b then 1 else 0)
  whole {x : Binary64} {n : ℤ} (h : integer (.float x) = .ok n) : x.IsInteger n
  null (n : ℤ) : integer .null ≠ .ok n
  arr (vs : List Value) (n : ℤ) : integer (.arr vs) ≠ .ok n
  obj (ms : Members) (n : ℤ) : integer (.obj ms) ≠ .ok n
  /-- What is no integer already counts for one that is not too long. -/
  size {v : Value} {n : ℤ} (h : integer v = .ok n) :
    (∃ m, v = .int m) ∨ n.natAbs < 10 ^ Json.integerLimit

/-- The integer that a value counts for. -/
inductive Counts : Value → ℤ → Prop where
  | int (n : ℤ) : Counts (.int n) n
  | switch (b : Bool) : Counts (.bool b) (if b then 1 else 0)
  | whole {x : Binary64} {n : ℤ} (hx : x.IsInteger n) (h : integer (.float x) = .ok n) :
      Counts (.float x) n
  | text {t : Text} {n : ℤ} (h : integer (.str t) = .ok n) : Counts (.str t) n

theorem integer_eq_ok_iff (hlax : LaxIntegers) : integer v = .ok n ↔ Counts v n := by
  constructor
  · intro h
    cases v with
    | null => exact absurd h (hlax.null n)
    | bool b => exact Except.ok.inj ((hlax.switch b).symm.trans h) ▸ .switch b
    | int m => exact Except.ok.inj ((hlax.int m).symm.trans h) ▸ .int m
    | float x => exact .whole (hlax.whole h) h
    | str t => exact .text h
    | arr vs => exact absurd h (hlax.arr vs n)
    | obj ms => exact absurd h (hlax.obj ms n)
  · rintro (n | b | ⟨-, h⟩ | h)
    · exact hlax.int n
    · exact hlax.switch b
    · exact h
    · exact h

theorem natural_eq_ok_iff (hlax : LaxIntegers) {n : ℕ} : natural v = .ok n ↔ Counts v n := by
  rw [← integer_eq_ok_iff hlax, natural]
  cases integer v with
  | error e => exact ⟨nofun, nofun⟩
  | ok m =>
    change (if m < 0 then Except.error Fault.negative else .ok m.toNat) = .ok n ↔ _
    split_ifs with h
    · exact ⟨nofun, by rintro ⟨⟩; omega⟩
    · simp only [Except.ok.injEq]
      omega

end Coercion

/-! ## The lax way -/

theorem groupedDigits?_isNumeral {t digits : Text} (h : groupedDigits? t = some digits) :
    digits.isNumeral := by
  unfold groupedDigits? at h
  dsimp only at h
  split_ifs at h with hall
  cases h
  have hparts (g) (hm : g ∈ t.splitOn '_') := Text.isNumeral_iff.mp (List.all_eq_true.mp hall g hm)
  obtain ⟨g, groups, hg⟩ := List.exists_cons_of_ne_nil (Text.splitOn_ne_nil (.char '_') t)
  refine Text.isNumeral_iff.mpr ⟨?_, fun c hc => ?_⟩
  · rw [hg, List.flatten_cons]
    exact List.append_ne_nil_of_left_ne_nil (hparts g (hg ▸ List.mem_cons_self)).1 _
  · obtain ⟨g, hm, hc⟩ := List.mem_flatten.mp hc
    exact (hparts g hm).2 c hc

theorem natAbs_integerOfText_lt {t : Text} {n : ℤ} (h : integerOfText t = .ok n) :
    n.natAbs < 10 ^ Json.integerLimit := by
  unfold integerOfText at h
  dsimp only at h
  split at h
  · next digits hdigits =>
    unfold integerOfDigits at h
    split_ifs at h with hz hzero hlong
    all_goals
      cases h
      have hlt := Text.digitsVal_lt (groupedDigits?_isNumeral hdigits)
      have hle := Nat.pow_le_pow_right (by decide : 10 > 0) (Nat.le_of_not_lt hlong)
      omega
  · cases h

theorem wholeFloat_eq_ok {x : Binary64} {n : ℤ} (h : wholeFloat x = .ok n) :
    x.IsInteger n ∧ n.natAbs < 2 ^ 63 := by
  unfold wholeFloat at h
  split at h
  · split at h
    · cases h
    · next hx =>
      split_ifs at h with hbound
      cases h
      rw [wordBound] at hbound
      exact ⟨Binary64.toInt?_eq_some_iff.mp hx, by omega⟩
  · cases h

open Surroundings in
theorem laxIntegers_usual : LaxIntegers where
  int _ := rfl
  switch _ := rfl
  whole h := (wholeFloat_eq_ok h).1
  null _ := nofun
  arr _ _ := nofun
  obj _ _ := nofun
  size {v n} h := by
    have hlarge : 2 ^ 63 ≤ 10 ^ Json.integerLimit :=
      (by decide : 2 ^ 63 ≤ 10 ^ 19).trans (Nat.pow_le_pow_right (by decide) (by decide))
    cases v with
    | null | arr | obj => cases h
    | int m => exact .inl ⟨m, rfl⟩
    | bool b =>
      cases h
      right
      cases b <;> simp [Nat.lt_of_lt_of_le _ hlarge]
    | float x => exact .inr ((wholeFloat_eq_ok h).2.trans_le hlarge)
    | str t => exact .inr (natAbs_integerOfText_lt h)

end Field

end Workbench
