import Workbench.Proofs.Text.Pieces
import Workbench.Proofs.Text.Utf8.Decoding

/-! # Code points and texts without lone surrogates

A code point is told by its number. That no surrogate stands alone goes through concatenation,
joining and whatever takes from a text, and it is so of numerals.
-/

namespace Workbench

namespace CodePoint

theorem val_char_lt (c : Char) : c.toNat < 0xD800 ∨ 0xE000 ≤ c.toNat ∧ c.toNat < 0x110000 := by
  have := Utf8.isValidChar_iff.mp (Utf8.isValidChar_toNat c)
  omega

@[simp] theorem ofNat_val (c : CodePoint) : ofNat c.val = c := by
  cases c with
  | char c => exact Utf8.ofNat_of_valid (Utf8.isValidChar_toNat c)
  | surrogate s =>
    have := s.isLt
    rw [ofNat, val, dif_pos (by omega)]
    simp

theorem val_ofNat (n : ℕ) : (ofNat n).val = if n < 0x110000 then n else 0xFFFD := by
  unfold ofNat
  by_cases hs : 0xD800 ≤ n ∧ n < 0xE000
  · rw [dif_pos hs, if_pos (by omega)]
    exact Nat.add_sub_cancel' hs.1
  · rw [dif_neg hs]
    by_cases hn : n < 0x110000
    · rw [dif_pos (Utf8.isValidChar_iff.mpr ⟨hn, by omega⟩), if_pos hn]
      rfl
    · rw [dif_neg (fun h => hn (Utf8.isValidChar_iff.mp h).1), if_neg hn]
      rfl

theorem val_inj {c d : CodePoint} : c.val = d.val ↔ c = d :=
  ⟨fun h => by rw [← ofNat_val c, h, ofNat_val], congrArg val⟩

end CodePoint

namespace Text

variable {a b t : Text}

@[simp] theorem scalar_nil : Scalar [] := fun _ => List.not_mem_nil

@[simp] theorem scalar_append : (a ++ b).Scalar ↔ a.Scalar ∧ b.Scalar := by
  simp only [Scalar, List.mem_append, not_or, forall_and]

@[simp] theorem scalar_char_cons {c : Char} : Scalar (.char c :: t) ↔ t.Scalar := by
  simp [Scalar]

theorem scalar_cons {c : CodePoint} : Scalar (c :: t) ↔ Scalar [c] ∧ t.Scalar :=
  scalar_append (a := [c])

@[simp] theorem scalar_chars (cs : List Char) : Scalar (cs.map .char) := by
  simp [Scalar]

@[simp] theorem scalar_replicate (n : ℕ) (c : Char) : Scalar (List.replicate n (.char c)) := by
  simp [Scalar]

@[simp] theorem scalar_ofString (s : String) : (ofString s).Scalar := scalar_chars _

/-- The text of a literal by its characters, which need not be decoded once they are known. -/
theorem ofString_eq_map {s : String} {cs : List Char} (h : String.ofList cs = s) :
    ofString s = cs.map .char := by
  rw [ofString, ← h, String.toList_ofList]

theorem Scalar.mono (h : t.Scalar) (hs : ∀ c ∈ a, c ∈ t) : a.Scalar := fun s ha => h s (hs _ ha)

theorem scalar_flatMap {α : Type} {xs : List α} {f : α → Text} (h : ∀ x ∈ xs, (f x).Scalar) :
    Scalar (xs.flatMap f) := by
  intro s hs
  obtain ⟨x, hx, hs⟩ := List.mem_flatMap.mp hs
  exact h x hx s hs

theorem scalar_join {sep : Text} {ts : List Text} (hsep : sep.Scalar) (h : ∀ t ∈ ts, t.Scalar) :
    (join sep ts).Scalar := by
  intro s hs
  rcases mem_join_iff.mp hs with ⟨t, ht, hs⟩ | ⟨-, hs⟩
  · exact h t ht s hs
  · exact hsep s hs

@[simp] theorem scalar_ofNat (n : ℕ) : (ofNat n).Scalar := scalar_chars _

@[simp] theorem scalar_ofInt (n : ℤ) : (ofInt n).Scalar := by
  cases n <;> simp [ofInt]

@[simp] theorem scalar_padLeft {width : ℕ} {fill : Char} :
    (padLeft width (.char fill) t).Scalar ↔ t.Scalar := by
  simp [padLeft]

@[simp] theorem scalar_hex (width n : ℕ) : (hex width n).Scalar := by
  simp [hex]

end Text

end Workbench
