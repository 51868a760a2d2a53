import Mathlib.Data.List.Infix
import Workbench.Text.Utf8

/-! # Well-formed sequences and what replaces the others

No encoding of a character begins another one. So an input decodes in one way:
characters come off the front as long as one is encoded there, and otherwise
the maximal subpart of an ill-formed piece, for which one U+FFFD stands.
-/

namespace Workbench.Utf8

def Begins (p : List UInt8) : Prop := ∃ c : Char, p <+: octets c.toNat

/-- `s` is the maximal subpart of the ill-formed piece at the front of `s ++ rest`: the
longest beginning that begins the encoding of a character, or else one octet. -/
structure Subpart (s rest : List UInt8) : Prop where
  ne_nil : s ≠ []
  ill : ∀ c : Char, ¬ octets c.toNat <+: s ++ rest
  begins : s.length = 1 ∨ Begins s
  longest : ∀ p, p <+: s ++ rest → Begins p → p.length ≤ s.length

/-- Reading an input as UTF-8 with one U+FFFD for each maximal subpart of an
ill-formed piece. -/
inductive Decodes : List UInt8 → Text → Prop where
  | nil : Decodes [] []
  | char (c : Char) {rest : List UInt8} {t : Text} : Decodes rest t →
      Decodes (octets c.toNat ++ rest) (.char c :: t)
  | replaced {s rest : List UInt8} {t : Text} : Subpart s rest → Decodes rest t →
      Decodes (s ++ rest) (replacement :: t)

theorem toUInt8_inj {a b : ℕ} (ha : a < 256) (hb : b < 256) : a.toUInt8 = b.toUInt8 ↔ a = b := by
  rw [← UInt8.toNat_inj, Nat.toUInt8_eq, Nat.toUInt8_eq, UInt8.toNat_ofNat', UInt8.toNat_ofNat']
  omega

theorem toNat_lt (c : Char) : c.toNat < 0x110000 := by
  have := c.valid
  simp only [UInt32.isValidChar, Nat.isValidChar] at this
  simp only [Char.toNat]
  omega

theorem octets_ne_nil (n : ℕ) : octets n ≠ [] := by
  unfold octets; split_ifs <;> simp

theorem eq_of_octets_begin {m n : ℕ} (hm : m < 0x110000) (hn : n < 0x110000)
    (h : octets m <+: octets n) : m = n := by
  unfold octets at h
  split_ifs at h <;> simp only [List.cons_prefix_cons] at h <;>
    (repeat rw [toUInt8_inj (by omega) (by omega)] at h) <;> simp at h <;> omega

theorem char_eq_of_octets_begin {c d : Char} (h : octets c.toNat <+: octets d.toNat) : c = d :=
  Char.toNat_inj.mp (eq_of_octets_begin (toNat_lt c) (toNat_lt d) h)

theorem Begins.mono {p q : List UInt8} (h : Begins q) (hp : p <+: q) : Begins p :=
  h.imp fun _ => hp.trans

theorem begins_octets (c : Char) : Begins (octets c.toNat) := ⟨c, List.prefix_rfl⟩

theorem Subpart.length_eq {s s' rest rest' : List UInt8} (h : Subpart s rest)
    (h' : Subpart s' rest') (he : s ++ rest = s' ++ rest') : s.length = s'.length := by
  have hp := List.length_pos_iff.mpr h.ne_nil
  have hp' := List.length_pos_iff.mpr h'.ne_nil
  have hle : Begins s → s.length ≤ s'.length :=
    h'.longest s (he ▸ List.prefix_append s rest)
  have hge : Begins s' → s'.length ≤ s.length :=
    h.longest s' (he ▸ List.prefix_append s' rest')
  rcases h.begins with h₁ | h₁ <;> rcases h'.begins with h₂ | h₂
  · omega
  · have := hge h₂; omega
  · have := hle h₁; omega
  · exact le_antisymm (hle h₁) (hge h₂)

/-- An input decodes in one way. -/
theorem Decodes.unique {bytes : List UInt8} {t t' : Text} (h : Decodes bytes t)
    (h' : Decodes bytes t') : t = t' := by
  induction h generalizing t' with
  | nil =>
    generalize he : ([] : List UInt8) = l at h'
    cases h' with
    | nil => rfl
    | char c => simp [octets_ne_nil] at he
    | replaced hs => exact absurd (List.append_eq_nil_iff.mp he.symm).1 hs.ne_nil
  | @char c rest t _ ih =>
    generalize he : octets c.toNat ++ rest = l at h'
    cases h' with
    | nil => simp [octets_ne_nil] at he
    | char d h' =>
      have hc : c = d := by
        rcases List.prefix_or_prefix_of_prefix (he ▸ List.prefix_append _ _)
          (List.prefix_append (octets d.toNat) _) with hp | hp
        · exact char_eq_of_octets_begin hp
        · exact (char_eq_of_octets_begin hp).symm
      subst hc
      rw [List.append_cancel_left_eq] at he
      subst he
      rw [ih h']
    | replaced hs => exact absurd (he ▸ List.prefix_append _ _) (hs.ill c)
  | @replaced s rest t hs _ ih =>
    generalize he : s ++ rest = l at h'
    cases h' with
    | nil => exact absurd (List.append_eq_nil_iff.mp he).1 hs.ne_nil
    | char c => exact absurd (he ▸ List.prefix_append _ _) (hs.ill c)
    | replaced hs' h' =>
      obtain ⟨rfl, rfl⟩ := List.append_inj he (hs.length_eq hs' he)
      rw [ih h']

end Workbench.Utf8
