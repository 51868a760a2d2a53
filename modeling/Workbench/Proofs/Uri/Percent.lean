import Workbench.Proofs.Text.Utf8.Decoding
import Workbench.Uri.Percent

/-! # What percent encoding reads back

An octet is written as one visible ASCII character or as a percent sign with two digits, and
is read as this octet wherever it stands. So an encoding is a single run of ASCII, and gives
back the octets and, where these are the UTF-8 of a text, the text.
-/

namespace Workbench.Percent

/-! ## One octet -/

def hexDigit (n : ℕ) : CodePoint := .char (Nat.digitChar n).toUpper

theorem hexVal?_hexDigit : ∀ n < 16, (hexDigit n).hexVal? = some n := by decide

theorem hexUpper_two : ∀ n < 256, Text.hexUpper 2 n = [hexDigit (n / 16), hexDigit (n % 16)] := by
  decide +kernel

theorem isPlain_ofNat : ∀ n < 256, isPlain (UInt8.ofNat n) →
    (CodePoint.ofNat n).val = n ∧ CodePoint.ofNat n ≠ '%' := by
  decide +kernel

theorem decodeOctets_cons {c : CodePoint} (h : c ≠ '%') (t : Text) :
    decodeOctets (c :: t) = c.val.toUInt8 :: decodeOctets t := by
  rw [decodeOctets]
  rintro a b rest rfl
  exact absurd rfl h

theorem decodeOctets_hex {a b : CodePoint} {x y : ℕ} (ha : a.hexVal? = some x)
    (hb : b.hexVal? = some y) (t : Text) :
    decodeOctets ('%' :: a :: b :: t) = (16 * x + y).toUInt8 :: decodeOctets t := by
  rw [decodeOctets, ha, hb]

theorem decodeOctets_encodeOctet (b : UInt8) (t : Text) :
    decodeOctets (encodeOctet b ++ t) = b :: decodeOctets t := by
  have hb : b.toNat < 256 := b.toNat_lt
  unfold encodeOctet
  split_ifs with h
  · rw [← UInt8.ofNat_toNat (x := b)] at h
    obtain ⟨hv, hne⟩ := isPlain_ofNat _ hb h
    rw [List.singleton_append, decodeOctets_cons hne, hv, Nat.toUInt8_eq, UInt8.ofNat_toNat]
  · rw [hexUpper_two _ hb, List.cons_append, List.cons_append, List.cons_append, List.nil_append,
      decodeOctets_hex (hexVal?_hexDigit _ (by omega)) (hexVal?_hexDigit _ (by omega)),
      Nat.div_add_mod, Nat.toUInt8_eq, UInt8.ofNat_toNat]

/-! ## Octets -/

theorem decodeOctets_encode (bytes : List UInt8) : decodeOctets (encode bytes) = bytes := by
  induction bytes with
  | nil => rfl
  | cons b bytes ih =>
    rw [encode, List.flatMap_cons, decodeOctets_encodeOctet]
    exact congrArg _ ih

def IsVisible (c : CodePoint) : Prop :=
  0x20 < c.val ∧ c.val < 0x7F ∧ c ≠ '?' ∧ c ≠ '#'

instance (c : CodePoint) : Decidable (IsVisible c) :=
  inferInstanceAs (Decidable (_ ∧ _ ∧ _ ∧ _))

theorem isVisible_encodeOctet :
    ∀ n < 256, ∀ c ∈ encodeOctet (UInt8.ofNat n), IsVisible c := by
  decide +kernel

theorem isVisible_of_mem_encode {bytes : List UInt8} {c : CodePoint} (h : c ∈ encode bytes) :
    IsVisible c := by
  obtain ⟨b, -, hc⟩ := List.mem_flatMap.mp h
  rw [← UInt8.ofNat_toNat (x := b)] at hc
  exact isVisible_encodeOctet _ b.toNat_lt c hc

/-! ## Runs -/

theorem runs_of_ascii {t : Text} (h : ∀ c ∈ t, isAscii c) (hn : t ≠ []) : runs t = [t] := by
  induction t with
  | nil => exact absurd rfl hn
  | cons c t ih =>
    rw [List.forall_mem_cons] at h
    cases t with
    | nil => rfl
    | cons d t =>
      have hd := h.2 d List.mem_cons_self
      have ht := ih h.2 (List.cons_ne_nil d t)
      rw [runs, List.foldr_cons]
      rw [runs] at ht
      rw [ht]
      simp only [h.1, hd, beq_self_eq_true, if_true]

theorem decode_of_ascii {t : Text} (h : ∀ c ∈ t, isAscii c) :
    decode t = Utf8.decode (decodeOctets t) := by
  cases t with
  | nil => rfl
  | cons c t =>
    rw [decode, runs_of_ascii h (List.cons_ne_nil c t), List.flatMap_singleton, decodeRun,
      if_pos (List.all_eq_true.mpr h)]

theorem decode_encode (bytes : List UInt8) : decode (encode bytes) = Utf8.decode bytes := by
  rw [decode_of_ascii, decodeOctets_encode]
  intro c hc
  have := (isVisible_of_mem_encode hc).2.1
  exact decide_eq_true (by omega)

end Workbench.Percent
