import Mathlib.Tactic.Positivity
import Workbench.Proofs.Text.Utf8.Sequences

/-! # The decoder against the sequences

Between octets the decoder holds the unfinished piece in the form of a number
and a range: the characters whose encoding begins with the piece are those whose
leading digits lie in the range. So it reads every input as `Decodes` says,
however the input is cut.
-/

namespace Workbench.Utf8

/-! ## Chunks -/

@[simp] theorem feed_nil (s : State) : feed s [] = ([], s) := rfl

theorem foldl_step (s : State) (acc : Array CodePoint) (bytes : List UInt8) :
    let r := bytes.foldl (fun (r : Array CodePoint × State) b =>
      (r.1 ++ (step r.2 b).1.toArray, (step r.2 b).2)) (acc, s)
    r.1.toList = acc.toList ++ (feed s bytes).1 ∧ r.2 = (feed s bytes).2 := by
  induction bytes generalizing s acc with
  | nil => simp
  | cons b bytes ih =>
    have h := ih (step s b).2 (acc ++ (step s b).1.toArray)
    have h₀ := ih (step s b).2 (#[] ++ (step s b).1.toArray)
    simp only [feed, List.foldl_push_eq_append', List.foldl_cons]
    rw [h.1, h₀.1, h.2, h₀.2]
    simp

theorem feed_cons (s : State) (b : UInt8) (bytes : List UInt8) :
    feed s (b :: bytes) =
      ((step s b).1 ++ (feed (step s b).2 bytes).1, (feed (step s b).2 bytes).2) := by
  have h := foldl_step (step s b).2 (#[] ++ (step s b).1.toArray) bytes
  simp only [Array.toList_append, List.nil_append] at h
  rw [feed, Prod.mk.injEq]
  simpa only [List.foldl_push_eq_append', List.foldl_cons] using h

theorem feed_append (s : State) (a b : List UInt8) :
    feed s (a ++ b) = ((feed s a).1 ++ (feed (feed s a).2 b).1, (feed (feed s a).2 b).2) := by
  induction a generalizing s with
  | nil => simp
  | cons x a ih => simp [feed_cons, ih]

/-! ## Unfinished sequences -/

theorem isValidChar_iff {n : ℕ} :
    n.isValidChar ↔ n < 0x110000 ∧ (n < 0xD800 ∨ 0xDFFF < n) := by
  simp only [Nat.isValidChar]; omega

theorem ofNat_of_valid {n : ℕ} (h : n.isValidChar) :
    CodePoint.ofNat n = .char (Char.ofNatAux n h) := by
  have := isValidChar_iff.mp h
  rw [CodePoint.ofNat, dif_neg (by omega), dif_pos h]

theorem toNat_ofNatAux {n : ℕ} (h : n.isValidChar) : (Char.ofNatAux n h).toNat = n := rfl

theorem isValidChar_toNat (c : Char) : c.toNat.isValidChar := c.valid

theorem begins_iff {p : List UInt8} :
    Begins p ↔ ∃ n : ℕ, n.isValidChar ∧ p <+: octets n :=
  ⟨fun ⟨c, h⟩ => ⟨c.toNat, isValidChar_toNat c, h⟩, fun ⟨n, hn, h⟩ => ⟨Char.ofNatAux n hn, h⟩⟩

theorem getElem?_octets {n i k : ℕ} (hi : 0 < i) (h : (octets n).length = i + k + 1) :
    (octets n)[i]? = some (0x80 + n / 64 ^ k % 64).toUInt8 := by
  unfold octets at h ⊢
  split_ifs at h ⊢ <;> simp only [List.length_cons, List.length_nil] at h
  · omega
  · obtain ⟨rfl, rfl⟩ : i = 1 ∧ k = 0 := by omega
    simp
  · obtain ⟨rfl, rfl⟩ | ⟨rfl, rfl⟩ : i = 1 ∧ k = 1 ∨ i = 2 ∧ k = 0 := by omega
    all_goals simp
  · obtain ⟨rfl, rfl⟩ | ⟨rfl, rfl⟩ | ⟨rfl, rfl⟩ :
        i = 1 ∧ k = 2 ∨ i = 2 ∧ k = 1 ∨ i = 3 ∧ k = 0 := by omega
    all_goals simp

/-- The piece `p` stands before an octet from `lo` to `hi`, behind which `owed` octets are
owed: the characters whose encoding begins with `p` are those whose leading digits
are `acc` and the digits of such an octet. -/
structure Pending (p : List UInt8) (acc owed : ℕ) (lo hi : UInt8) : Prop where
  ne_nil : p ≠ []
  length : ∀ n : ℕ, n.isValidChar → p <+: octets n → (octets n).length = p.length + owed + 1
  range : 0x80 ≤ lo.toNat ∧ lo.toNat ≤ hi.toNat ∧ hi.toNat ≤ 0xBF
  prefix_iff : ∀ n : ℕ, n.isValidChar → (p <+: octets n ↔
    64 * acc + (lo.toNat - 0x80) ≤ n / 64 ^ owed ∧ n / 64 ^ owed ≤ 64 * acc + (hi.toNat - 0x80))
  valid : ∀ n : ℕ, 64 * acc + (lo.toNat - 0x80) ≤ n / 64 ^ owed →
    n / 64 ^ owed ≤ 64 * acc + (hi.toNat - 0x80) → n.isValidChar
  surrogate : hi = 0x9F → p = [0xED]

theorem prefix_concat_iff {p l : List UInt8} {b : UInt8} :
    p ++ [b] <+: l ↔ p <+: l ∧ l[p.length]? = some b := by
  constructor
  · rintro ⟨r, rfl⟩
    simp
  · rintro ⟨⟨r, rfl⟩, h⟩
    cases r <;> simp_all

namespace Pending

variable {p : List UInt8} {acc owed : ℕ} {lo hi b : UInt8}

theorem concat_prefix_iff (h : Pending p acc owed lo hi) {n : ℕ} (hn : n.isValidChar) :
    p ++ [b] <+: octets n ↔ p <+: octets n ∧ b.toNat = 0x80 + n / 64 ^ owed % 64 := by
  rw [prefix_concat_iff]
  refine and_congr_right fun hp => ?_
  rw [getElem?_octets (List.length_pos_iff.mpr h.ne_nil) (h.length n hn hp), Option.some.injEq,
    ← UInt8.toNat_inj, Nat.toUInt8_eq, UInt8.toNat_ofNat']
  omega

theorem mem_range (h : Pending p acc owed lo hi) (hb : Begins (p ++ [b])) :
    lo.toNat ≤ b.toNat ∧ b.toNat ≤ hi.toNat := by
  obtain ⟨n, hn, hp⟩ := begins_iff.mp hb
  obtain ⟨hp, hb⟩ := (h.concat_prefix_iff hn).mp hp
  have := (h.prefix_iff n hn).mp hp
  have := h.range
  omega

theorem begins (h : Pending p acc owed lo hi) : Begins p := by
  have hd : (64 * acc + (lo.toNat - 0x80)) * 64 ^ owed / 64 ^ owed =
      64 * acc + (lo.toNat - 0x80) := Nat.mul_div_cancel _ (by positivity)
  have hr := h.range
  have hn := h.valid _ hd.ge (by omega)
  exact begins_iff.mpr ⟨_, hn, (h.prefix_iff _ hn).mpr ⟨hd.ge, by omega⟩⟩

theorem subpart (h : Pending p acc owed lo hi) {rest : List UInt8}
    (hr : ∀ b ∈ rest.head?, ¬ Begins (p ++ [b])) : Subpart p rest := by
  have hlt : ∀ q, q <+: p ++ rest → Begins q → q.length ≤ p.length := by
    intro q hq hb
    by_contra hlt
    obtain ⟨r, rfl⟩ := List.prefix_of_prefix_length_le (List.prefix_append p rest) hq (by omega)
    obtain ⟨b, r, rfl⟩ := List.exists_cons_of_ne_nil (l := r) (by rintro rfl; simp at hlt)
    have hrest : b :: r <+: rest := (List.prefix_append_right_inj p).mp hq
    refine hr b ?_ (hb.mono ⟨r, by simp⟩)
    obtain ⟨r', rfl⟩ := hrest
    simp
  refine ⟨h.ne_nil, fun c hc => ?_, .inr h.begins, hlt⟩
  have hle := hlt _ hc (begins_octets c)
  obtain ⟨d, hd⟩ := h.begins
  have hcp := List.prefix_of_prefix_length_le hc (List.prefix_append p rest) hle
  obtain rfl := char_eq_of_octets_begin (hcp.trans hd)
  have := h.length _ (isValidChar_toNat c) hd
  omega

theorem complete (h : Pending p acc 0 lo hi) (hl : lo.toNat ≤ b.toNat)
    (hh : b.toNat ≤ hi.toNat) :
    ∃ c : Char, octets c.toNat = p ++ [b] ∧
      CodePoint.ofNat (64 * acc + (b.toNat - 0x80)) = .char c := by
  have hr := h.range
  have hn := h.valid (64 * acc + (b.toNat - 0x80)) (by omega) (by omega)
  refine ⟨Char.ofNatAux _ hn, ?_, ofNat_of_valid hn⟩
  rw [toNat_ofNatAux]
  have hp := (h.prefix_iff _ hn).mpr (by omega)
  have hpb := (h.concat_prefix_iff (b := b) hn).mpr ⟨hp, by omega⟩
  have := h.length _ hn hp
  exact (hpb.eq_of_length (by simp; omega)).symm

theorem next (h : Pending p acc (owed + 1) lo hi) (hl : lo.toNat ≤ b.toNat)
    (hh : b.toNat ≤ hi.toNat) :
    Pending (p ++ [b]) (64 * acc + (b.toNat - 0x80)) owed 0x80 0xBF := by
  have hr := h.range
  have hdiv : ∀ n : ℕ, n / 64 ^ (owed + 1) = n / 64 ^ owed / 64 := fun n => by
    rw [pow_succ, Nat.div_div_eq_div_mul]
  have hlo : (0x80 : UInt8).toNat = 0x80 := rfl
  have hhi : (0xBF : UInt8).toNat = 0xBF := rfl
  refine ⟨by simp, fun n hn hp => ?_, by decide, fun n hn => ?_, fun n h₁ h₂ => ?_,
    fun h => absurd h (by decide)⟩
  · have := h.length n hn ((List.prefix_append p [b]).trans hp)
    rw [this]; simp; omega
  · rw [h.concat_prefix_iff hn, h.prefix_iff n hn, hdiv, hlo, hhi]
    omega
  · refine h.valid n ?_ ?_ <;> rw [hdiv] <;> omega

end Pending

def lead (n : ℕ) : ℕ :=
  if n < 0x80 then n else if n < 0x800 then 0xC0 + n / 64
  else if n < 0x10000 then 0xE0 + n / 4096 else 0xF0 + n / 262144

theorem singleton_prefix_iff {b : UInt8} {n : ℕ} (hn : n < 0x110000) :
    [b] <+: octets n ↔ b.toNat = lead n := by
  unfold octets lead
  split_ifs <;> simp only [List.cons_prefix_cons, List.nil_prefix, and_true] <;>
    rw [← UInt8.toNat_inj, Nat.toUInt8_eq, UInt8.toNat_ofNat'] <;> omega

theorem length_octets (n : ℕ) : (octets n).length =
    if n < 0x80 then 1 else if n < 0x800 then 2 else if n < 0x10000 then 3 else 4 := by
  unfold octets; split_ifs <;> rfl

/-- What the first octet of a sequence of `owed + 2` octets leaves open. -/
theorem pending_lead {b lo hi : UInt8} {acc owed : ℕ}
    (hr : 0x80 ≤ lo.toNat ∧ lo.toNat ≤ hi.toNat ∧ hi.toNat ≤ 0xBF)
    (hs : hi = 0x9F → b = 0xED)
    (hlen : ∀ n : ℕ, n.isValidChar → b.toNat = lead n → (octets n).length = owed + 2)
    (hb : ∀ n : ℕ, n.isValidChar → (b.toNat = lead n ↔
      64 * acc + (lo.toNat - 0x80) ≤ n / 64 ^ owed ∧ n / 64 ^ owed ≤ 64 * acc + (hi.toNat - 0x80)))
    (hv : ∀ n : ℕ, 64 * acc + (lo.toNat - 0x80) ≤ n / 64 ^ owed →
      n / 64 ^ owed ≤ 64 * acc + (hi.toNat - 0x80) → n.isValidChar) :
    Pending [b] acc owed lo hi where
  ne_nil := by simp
  length n hn h := by
    rw [hlen n hn ((singleton_prefix_iff (isValidChar_iff.mp hn).1).mp h)]
    simp; omega
  range := hr
  prefix_iff n hn := (singleton_prefix_iff (isValidChar_iff.mp hn).1).trans (hb n hn)
  valid := hv
  surrogate h := by rw [hs h]

theorem pending_two {b : UInt8} (h : 0xC2 ≤ b.toNat ∧ b.toNat ≤ 0xDF) :
    Pending [b] (b.toNat - 0xC0) 0 0x80 0xBF := by
  refine pending_lead (by decide) (fun h => absurd h (by decide)) (fun n hn hb => ?_)
    (fun n hn => ?_) (fun n h₁ h₂ => ?_)
  · rw [length_octets]; unfold lead at hb; split_ifs at hb ⊢ <;> omega
  · have := isValidChar_iff.mp hn
    simp only [lead, UInt8.reduceToNat, pow_zero, Nat.div_one]
    split_ifs <;> omega
  · rw [isValidChar_iff]
    simp only [UInt8.reduceToNat, pow_zero, Nat.div_one] at h₁ h₂
    omega

theorem pending_three {b lo hi : UInt8} (h : 0xE0 ≤ b.toNat ∧ b.toNat ≤ 0xEF)
    (hl : lo.toNat = if b.toNat = 0xE0 then 0xA0 else 0x80)
    (hh : hi.toNat = if b.toNat = 0xED then 0x9F else 0xBF) :
    Pending [b] (b.toNat - 0xE0) 1 lo hi := by
  refine pending_lead (by split_ifs at hl hh <;> omega) (fun he => ?_) (fun n hn hb => ?_)
    (fun n hn => ?_) (fun n h₁ h₂ => ?_)
  · rw [← UInt8.toNat_inj]
    simp only [he, UInt8.reduceToNat] at hh ⊢
    split_ifs at hh <;> omega
  · rw [length_octets]; unfold lead at hb; split_ifs at hb ⊢ <;> omega
  · have := isValidChar_iff.mp hn
    simp only [lead, pow_one, hl, hh]
    split_ifs <;> omega
  · rw [isValidChar_iff]
    simp only [pow_one, hl, hh] at h₁ h₂
    split_ifs at h₁ h₂ <;> omega

theorem pending_four {b lo hi : UInt8} (h : 0xF0 ≤ b.toNat ∧ b.toNat ≤ 0xF4)
    (hl : lo.toNat = if b.toNat = 0xF0 then 0x90 else 0x80)
    (hh : hi.toNat = if b.toNat = 0xF4 then 0x8F else 0xBF) :
    Pending [b] (b.toNat - 0xF0) 2 lo hi := by
  refine pending_lead (by split_ifs at hl hh <;> omega) (fun he => ?_) (fun n hn hb => ?_)
    (fun n hn => ?_) (fun n h₁ h₂ => ?_)
  · simp only [he, UInt8.reduceToNat] at hh
    split_ifs at hh <;> omega
  · rw [length_octets]; unfold lead at hb; split_ifs at hb ⊢ <;> omega
  · have := isValidChar_iff.mp hn
    simp only [lead, Nat.reducePow, hl, hh]
    split_ifs <;> omega
  · rw [isValidChar_iff]
    simp only [Nat.reducePow, hl, hh] at h₁ h₂
    split_ifs at h₁ h₂ <;> omega

theorem begins_singleton {b : UInt8} (h : Begins [b]) :
    b.toNat < 0x80 ∨ 0xC2 ≤ b.toNat ∧ b.toNat ≤ 0xF4 := by
  obtain ⟨n, hn, hp⟩ := begins_iff.mp h
  have hv := isValidChar_iff.mp hn
  have := (singleton_prefix_iff hv.1).mp hp
  unfold lead at this
  split_ifs at this <;> omega

theorem subpart_singleton {b : UInt8} (h : ¬ Begins [b]) (rest : List UInt8) :
    Subpart [b] rest := by
  have hlt : ∀ q, q <+: [b] ++ rest → Begins q → q = [] := by
    rintro (_ | ⟨x, q⟩) hq hb
    · rfl
    · obtain ⟨rfl, -⟩ := List.cons_prefix_cons.mp hq
      exact absurd (hb.mono (by simp)) h
  exact ⟨by simp, fun c hc => octets_ne_nil _ (hlt _ hc (begins_octets c)), .inl rfl,
    fun q hq hb => by simp [hlt q hq hb]⟩

/-! ## Steps -/

theorem first_cases (b : UInt8) :
    (b.toNat < 0x80 ∧ ∃ c : Char, octets c.toNat = [b] ∧ first b = ([.char c], .start)) ∨
    (∃ acc owed lo hi, Pending [b] acc owed lo hi ∧ first b = ([], .inside acc owed lo hi)) ∨
    (¬ Begins [b] ∧ first b = ([replacement], .start)) := by
  -- The cases are split in one place, before `first b` stands in all three.
  generalize hf : first b = r
  unfold first at hf
  simp only [UInt8.lt_iff_toNat_lt, UInt8.le_iff_toNat_le, ← UInt8.toNat_inj,
    UInt8.reduceToNat] at hf
  split_ifs at hf with h₁ h₂ h₃ h₄ h₅ h₆ h₇ h₈ <;> subst hf
  · have hn : b.toNat.isValidChar := isValidChar_iff.mpr (by omega)
    refine .inl ⟨h₁, Char.ofNatAux _ hn, ?_, by rw [ofNat_of_valid hn]⟩
    rw [toNat_ofNatAux, octets, if_pos h₁]
    simp
  · exact .inr (.inl ⟨_, _, _, _, pending_two h₂, rfl⟩)
  · have h : Pending [b] (b.toNat - 0xE0) 1 0xA0 0xBF :=
      pending_three (by omega) (by simp [h₃]) (by simp [h₃])
    exact .inr (.inl ⟨_, _, _, _, h, by simp [h₃]⟩)
  · have h : Pending [b] (b.toNat - 0xE0) 1 0x80 0x9F :=
      pending_three (by omega) (by simp [h₄]) (by simp [h₄])
    exact .inr (.inl ⟨_, _, _, _, h, by simp [h₄]⟩)
  · have h : Pending [b] (b.toNat - 0xE0) 1 0x80 0xBF :=
      pending_three (by omega) (by simp [h₃]) (by simp [h₄])
    exact .inr (.inl ⟨_, _, _, _, h, rfl⟩)
  · have h : Pending [b] (b.toNat - 0xF0) 2 0x90 0xBF :=
      pending_four (by omega) (by simp [h₆]) (by simp [h₆])
    exact .inr (.inl ⟨_, _, _, _, h, by simp [h₆]⟩)
  · have h : Pending [b] (b.toNat - 0xF0) 2 0x80 0x8F :=
      pending_four (by omega) (by simp [h₇]) (by simp [h₇])
    exact .inr (.inl ⟨_, _, _, _, h, by simp [h₇]⟩)
  · have h : Pending [b] (b.toNat - 0xF0) 2 0x80 0xBF :=
      pending_four (by omega) (by simp [h₆]) (by simp [h₇])
    exact .inr (.inl ⟨_, _, _, _, h, rfl⟩)
  · refine .inr (.inr ⟨fun h => ?_, rfl⟩)
    have := begins_singleton h
    omega

/-- The piece of the input that the decoder holds in a state. -/
def Awaits : State → List UInt8 → Prop
  | .start, p => p = []
  | .inside acc owed lo hi, p => Pending p acc owed lo hi
  | .surrogate, p => ∃ a b, p = [a, b] ∧ ∀ rest, Subpart [a] (b :: rest) ∧ Subpart [b] rest

theorem Pending.step_cases {p : List UInt8} {acc owed : ℕ} {lo hi : UInt8}
    (h : Pending p acc owed lo hi) (b : UInt8) :
    (∃ c : Char, octets c.toNat = p ++ [b] ∧
      step (.inside acc owed lo hi) b = ([.char c], .start)) ∨
    (∃ acc' owed' lo' hi', Pending (p ++ [b]) acc' owed' lo' hi' ∧
      step (.inside acc owed lo hi) b = ([], .inside acc' owed' lo' hi')) ∨
    (Awaits .surrogate (p ++ [b]) ∧ step (.inside acc owed lo hi) b = ([], .surrogate)) ∨
    (¬ Begins (p ++ [b]) ∧
      step (.inside acc owed lo hi) b = (replacement :: (first b).1, (first b).2)) := by
  by_cases hb : lo ≤ b ∧ b ≤ hi
  · have hn : lo.toNat ≤ b.toNat ∧ b.toNat ≤ hi.toNat := by
      simpa only [UInt8.le_iff_toNat_le] using hb
    cases owed with
    | zero =>
      obtain ⟨c, hc, he⟩ := h.complete hn.1 hn.2
      exact .inl ⟨c, hc, by simp only [step, if_pos hb, he]⟩
    | succ k =>
      exact .inr (.inl ⟨_, _, _, _, h.next hn.1 hn.2, by simp only [step, if_pos hb]⟩)
  · have hill : ¬ Begins (p ++ [b]) := fun hp =>
      hb (by simpa only [UInt8.le_iff_toNat_le] using h.mem_range hp)
    by_cases hs : startsSurrogate hi b
    · refine .inr (.inr (.inl ⟨?_, by simp only [step, if_neg hb, if_pos hs]⟩))
      simp only [startsSurrogate, Bool.and_eq_true, beq_iff_eq, decide_eq_true_eq,
        UInt8.le_iff_toNat_le, UInt8.reduceToNat] at hs
      obtain rfl := h.surrogate hs.1.1
      refine ⟨0xED, b, rfl, fun rest => ⟨h.subpart ?_, subpart_singleton (fun hb => ?_) rest⟩⟩
      · rintro x hx
        obtain rfl : b = x := by simpa using hx
        exact hill
      · have := begins_singleton hb
        omega
    · exact .inr (.inr (.inr ⟨hill, by simp only [step, if_neg hb, if_neg hs]⟩))

theorem awaits_first (b : UInt8) : ∃ p, Awaits (first b).2 p := by
  rcases first_cases b with ⟨-, c, -, h⟩ | ⟨_, _, _, _, hp, h⟩ | ⟨-, h⟩ <;> rw [h]
  · exact ⟨[], rfl⟩
  · exact ⟨[b], hp⟩
  · exact ⟨[], rfl⟩

theorem awaits_step {s : State} {p : List UInt8} (h : Awaits s p) (b : UInt8) :
    ∃ p, Awaits (step s b).2 p := by
  cases s with
  | start => exact awaits_first b
  | surrogate => exact awaits_first b
  | inside acc owed lo hi =>
    rcases Pending.step_cases h b with ⟨c, -, hs⟩ | ⟨_, _, _, _, hp, hs⟩ | ⟨hp, hs⟩ | ⟨-, hs⟩ <;>
      rw [hs]
    · exact ⟨[], rfl⟩
    · exact ⟨_, hp⟩
    · exact ⟨_, hp⟩
    · exact awaits_first b

theorem awaits_feed {s : State} {p : List UInt8} (h : Awaits s p) (bytes : List UInt8) :
    ∃ p, Awaits (feed s bytes).2 p := by
  induction bytes generalizing s p with
  | nil => exact ⟨p, h⟩
  | cons b bytes ih =>
    obtain ⟨p', h'⟩ := awaits_step h b
    simpa only [feed_cons] using ih h'

/-! ## Whole inputs -/

theorem decodes_feed {s : State} {p : List UInt8} (h : Awaits s p) (bytes : List UInt8) :
    Decodes (p ++ bytes) ((feed s bytes).1 ++ finish (feed s bytes).2) := by
  induction bytes generalizing s p with
  | nil =>
    cases s with
    | start => obtain rfl : p = [] := h; exact .nil
    | inside => exact .replaced (Pending.subpart h (by simp)) .nil
    | surrogate =>
      obtain ⟨a, b, rfl, h⟩ := h
      exact .replaced (s := [a]) (h []).1 (.replaced (h []).2 .nil)
  | cons b bytes ih =>
    have hfirst : Decodes (b :: bytes)
        ((first b).1 ++ (feed (first b).2 bytes).1 ++ finish (feed (first b).2 bytes).2) := by
      rcases first_cases b with ⟨-, c, hc, hf⟩ | ⟨_, _, _, _, hp, hf⟩ | ⟨hb, hf⟩ <;> rw [hf]
      · simpa [hc] using Decodes.char c (ih (s := .start) (p := []) rfl)
      · simpa using ih (s := .inside _ _ _ _) hp
      · simpa using Decodes.replaced (subpart_singleton hb bytes) (ih (s := .start) (p := []) rfl)
    rw [feed_cons]
    cases s with
    | start =>
      obtain rfl : p = [] := h
      exact hfirst
    | surrogate =>
      obtain ⟨x, y, rfl, hxy⟩ := h
      exact .replaced (s := [x]) (hxy _).1 (.replaced (hxy _).2 hfirst)
    | inside acc owed lo hi =>
      rcases Pending.step_cases h b with
          ⟨c, hc, hs⟩ | ⟨_, _, _, _, hp, hs⟩ | ⟨hp, hs⟩ | ⟨hb, hs⟩ <;>
        rw [hs]
      · have := Decodes.char c (ih (s := .start) (p := []) rfl)
        rw [hc] at this
        simpa using this
      · simpa using ih (s := .inside _ _ _ _) hp
      · simpa using ih (s := .surrogate) hp
      · refine .replaced (h.subpart fun x hx => ?_) hfirst
        obtain rfl : b = x := by simpa using hx
        exact hb

/-- The decoder reads every input as the sequences in it say. -/
theorem decodes_decode (bytes : List UInt8) : Decodes bytes (decode bytes) :=
  decodes_feed (s := .start) (p := []) rfl bytes

theorem Decodes.length_le {bytes : List UInt8} {t : Text} (h : Decodes bytes t) :
    t.length ≤ bytes.length := by
  induction h with
  | nil => exact le_rfl
  | char c _ ih =>
    have := List.length_pos_iff.mpr (octets_ne_nil c.toNat)
    simp only [List.length_cons, List.length_append]
    omega
  | replaced hs _ ih =>
    have := List.length_pos_iff.mpr hs.ne_nil
    simp only [List.length_cons, List.length_append]
    omega

theorem decodes_iff {bytes : List UInt8} {t : Text} : Decodes bytes t ↔ t = decode bytes :=
  ⟨fun h => h.unique (decodes_decode bytes), fun h => h ▸ decodes_decode bytes⟩

theorem step_ascii {s : State} {p : List UInt8} (h : Awaits s p) {b : UInt8}
    (hb : b < 0x80) : step s b = (finish s ++ [CodePoint.ofNat b.toNat], .start) := by
  have hf : first b = ([CodePoint.ofNat b.toNat], .start) := if_pos hb
  cases s with
  | start => exact hf
  | surrogate => simp only [step, hf, finish, List.cons_append, List.nil_append]
  | inside acc owed lo hi =>
    have hr := Pending.range h
    simp only [UInt8.lt_iff_toNat_lt, UInt8.reduceToNat] at hb
    have hlo : ¬ (lo ≤ b ∧ b ≤ hi) := by
      simp only [UInt8.le_iff_toNat_le]; omega
    have hs : startsSurrogate hi b = false := by
      simp only [startsSurrogate, Bool.and_eq_false_iff, decide_eq_false_iff_not,
        UInt8.le_iff_toNat_le, UInt8.reduceToNat]
      omega
    simp [step, if_neg hlo, hs, hf, finish]

theorem decode_append_ascii (a : List UInt8) {b : UInt8} (hb : b < 0x80) (c : List UInt8) :
    decode (a ++ b :: c) = decode a ++ CodePoint.ofNat b.toNat :: decode c := by
  obtain ⟨p, hp⟩ := awaits_feed (s := .start) (p := []) rfl a
  simp [decode, feed_append, feed_cons, step_ascii hp hb]

end Workbench.Utf8
