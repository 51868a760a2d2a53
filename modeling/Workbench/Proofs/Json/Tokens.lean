import Workbench.Proofs.Json.Grammar
import Workbench.Proofs.Text.Numeral

/-! # Strings, numbers and literal words are read exactly

Whatever is read off the front has the form that the grammar tells, and whatever has this form
is read off the front: a string and a literal word wherever they stand, a number before the
code points that may stand behind a value.
-/

namespace Workbench.Json

open Text (Opens)

variable {s t u body r : Text} {v : Value} {acc : Text} {opening n : ℕ}

/-! ## Strings -/

theorem exists_of_hex4? (h : hex4? s = some n) :
    ∃ a b c d rest, s = a :: b :: c :: d :: rest ∧ hex4? [a, b, c, d] = some n := by
  match s, h with
  | a :: b :: c :: d :: rest, h => exact ⟨a, b, c, d, rest, rfl, h⟩

theorem unicodeEscape_sound {c : CodePoint} {k : ℕ} (h : unicodeEscape s = .ok (c, k))
    (hb : Spells body t) (hd : s.drop k = body ++ .char '"' :: r) :
    ∃ body', Spells body' (c :: t) ∧
      .char '\\' :: .char 'u' :: s = body' ++ .char '"' :: r := by
  have hunit {m : ℕ} (hm : hex4? s = some m) (hk : s.drop 4 = body ++ .char '"' :: r)
      (hl : isHighSurrogate m → ¬ LowFollows body) :
      ∃ body', Spells body' (CodePoint.ofNat m :: t) ∧
        .char '\\' :: .char 'u' :: s = body' ++ .char '"' :: r := by
    obtain ⟨a, b, c, d, rest, rfl, hn⟩ := exists_of_hex4? hm
    obtain rfl : rest = _ := hk
    exact ⟨_, .unit hn hl hb, rfl⟩
  unfold unicodeEscape at h
  split at h
  · cases h
  · cases h
  · next m more hm hmore =>
    split at h
    · next hhigh =>
      split at h
      · cases h
      · next l hl =>
        split at h
        · next hlow =>
          obtain ⟨rfl, rfl⟩ := Prod.mk.inj (Except.ok.inj h)
          obtain ⟨a, b, c, d, rest, rfl, hn⟩ := exists_of_hex4? hm
          obtain ⟨a', b', c', d', rest', rfl, hn'⟩ := exists_of_hex4? hl
          obtain rfl : rest = _ := hmore
          obtain rfl : rest' = _ := hd
          exact ⟨_, .pair hn hn' hhigh.1 hlow hb, rfl⟩
        · next hlow =>
          cases h
          -- The digits that follow are those that have been read, and they are no low surrogate.
          refine hunit hm hd fun _ hf => hlow ?_
          obtain ⟨a, b, c, d, m', rest, rfl, hm', hlow'⟩ := hf
          cases hmore.symm.trans hd
          cases hm'.symm.trans hl
          exact hlow'
    · next hshort =>
      cases h
      -- What is left is too short for an escape, or the surrogate is no high one.
      refine hunit hm hd fun hhigh hf => hshort ⟨hhigh, ?_⟩
      obtain ⟨a, b, c, d, m', rest, rfl, -, -⟩ := hf
      cases hmore.symm.trans hd
      simp
  · next hm _ hmore =>
    cases h
    refine hunit hm hd fun _ hf => ?_
    obtain ⟨a, b, c, d, m', rest, rfl, -, -⟩ := hf
    exact hmore _ hd

theorem stringFrom_sound {hs : s.length ≤ n} {r : {r : Text // r.length < n}}
    (h : stringFrom opening n s hs acc = .ok (u, r)) :
    ∃ body t, Spells body t ∧ s = body ++ .char '"' :: r.1 ∧ u = acc.reverse ++ t := by
  fun_induction stringFrom opening n s hs acc with
  | case1 | case3 | case4 | case6 | case8 => cases h
  | case2 =>
    cases h
    exact ⟨[], [], .nil, rfl, (List.append_nil _).symm⟩
  | case5 _ rest _ k he _ _ _ ih =>
    obtain ⟨body, t, hb, hs, rfl⟩ := ih h
    obtain ⟨body', hb', hs'⟩ := unicodeEscape_sound he hb hs
    exact ⟨body', _, hb', hs', by simp⟩
  | case7 _ _ _ _ _ hd _ _ _ ih =>
    obtain ⟨body, t, hb, rfl, rfl⟩ := ih h
    exact ⟨_, _, .escape hd hb, rfl, by simp⟩
  | case9 _ _ _ _ hq hb hc _ ih =>
    obtain ⟨body, t, hs, rfl, rfl⟩ := ih h
    exact ⟨_, _, .plain hq hb (Nat.not_lt.mp hc) hs, rfl, by simp⟩

/-- Behind the letter of an escape in a string there are digits of the string. -/
theorem Spells.digits {more : Text} (hb : Spells body t)
    (h : body ++ .char '"' :: r = .char '\\' :: .char 'u' :: more) :
    ∃ a b c d m rest, body = .char '\\' :: .char 'u' :: a :: b :: c :: d :: rest ∧
      hex4? [a, b, c, d] = some m ∧ more = a :: b :: c :: d :: (rest ++ .char '"' :: r) := by
  cases hb with
  | nil => cases h
  | plain _ hb => exact absurd (List.cons.inj h).1 hb
  | escape hd =>
    obtain ⟨rfl, -⟩ := List.cons.inj (List.cons.inj h).2
    cases hd
  | unit hn | pair hn =>
    cases h
    exact ⟨_, _, _, _, _, _, rfl, hn, rfl⟩

theorem unicodeEscape_unit {a b c d : CodePoint} {m : ℕ} (hn : hex4? [a, b, c, d] = some m)
    (hl : isHighSurrogate m → ¬ LowFollows body) (hb : Spells body t) :
    unicodeEscape (a :: b :: c :: d :: (body ++ .char '"' :: r)) = .ok (CodePoint.ofNat m, 4) := by
  have hhex : hex4? (a :: b :: c :: d :: (body ++ .char '"' :: r)) = some m := hn
  unfold unicodeEscape
  rw [hhex]
  split
  · next h => cases h
  · next h => simp at h
  · next hm hmore =>
    cases hm
    obtain ⟨a', b', c', d', l, rest, rfl, hl', rfl⟩ := hb.digits hmore
    split
    · next hhigh =>
      have hlow : ¬ isLowSurrogate l := fun hlow =>
        hl hhigh.1 ⟨a', b', c', d', l, rest, rfl, hl', hlow⟩
      have hmore : hex4? (a' :: b' :: c' :: d' :: (rest ++ .char '"' :: r)) = some l := hl'
      rw [hmore]
      simp [hlow]
    · rfl
  · next hm _ _ =>
    cases hm
    rfl

theorem unicodeEscape_pair {a b c d a' b' c' d' : CodePoint} {m l : ℕ}
    (hn : hex4? [a, b, c, d] = some m) (hm : hex4? [a', b', c', d'] = some l)
    (hh : isHighSurrogate m) (hl : isLowSurrogate l) :
    unicodeEscape (a :: b :: c :: d :: .char '\\' :: .char 'u' :: a' :: b' :: c' :: d' ::
        (body ++ .char '"' :: r)) =
      .ok (CodePoint.ofNat (0x10000 + (m - 0xD800) * 1024 + (l - 0xDC00)), 10) := by
  have hfirst : hex4? (a :: b :: c :: d :: .char '\\' :: .char 'u' :: a' :: b' :: c' :: d' ::
      (body ++ .char '"' :: r)) = some m := hn
  have hsecond : hex4? (a' :: b' :: c' :: d' :: (body ++ .char '"' :: r)) = some l := hm
  unfold unicodeEscape
  rw [hfirst]
  simp [hh, hl, hsecond]

section Steps

variable {c d : CodePoint}

theorem stringFrom_quote (h : (.char '"' :: s : Text).length ≤ n) :
    stringFrom opening n (.char '"' :: s) h acc = .ok (acc.reverse, ⟨s, h⟩) := by
  unfold stringFrom
  exact if_pos rfl

theorem stringFrom_plain (hq : c ≠ .char '"') (hb : c ≠ .char '\\') (hc : 0x20 ≤ c.val)
    (h : (c :: s).length ≤ n) (hs : s.length ≤ n) :
    stringFrom opening n (c :: s) h acc = stringFrom opening n s hs (c :: acc) := by
  conv_lhs => unfold stringFrom
  simp only [if_neg hq, if_neg hb, if_neg (Nat.not_lt.mpr hc)]

theorem stringFrom_escape {e : Char} (hd : simpleEscape? d = some e)
    (h : (.char '\\' :: d :: s : Text).length ≤ n) (hs : s.length ≤ n) :
    stringFrom opening n (.char '\\' :: d :: s) h acc =
      stringFrom opening n s hs (.char e :: acc) := by
  have hu : d ≠ .char 'u' := by
    rintro rfl
    cases hd
  rw [stringFrom, if_neg (by decide), if_pos rfl]
  simp only [if_neg hu, hd]

theorem stringFrom_unicode {k : ℕ} (he : unicodeEscape s = .ok (c, k))
    (h : (.char '\\' :: .char 'u' :: s : Text).length ≤ n) (hk : (s.drop k).length ≤ n) :
    stringFrom opening n (.char '\\' :: .char 'u' :: s) h acc =
      stringFrom opening n (s.drop k) hk (c :: acc) := by
  rw [stringFrom, if_neg (by decide), if_pos rfl]
  simp only [if_true, he]

end Steps

theorem stringFrom_complete (hb : Spells body t) (acc : Text)
    (hs : (body ++ .char '"' :: r).length ≤ n) :
    ∃ r', stringFrom opening n (body ++ .char '"' :: r) hs acc = .ok (acc.reverse ++ t, r') ∧
      r'.1 = r := by
  have shorter {a b : Text} (h : (a ++ b).length ≤ n) : b.length ≤ n :=
    (List.length_append ▸ Nat.le_add_left _ _ : b.length ≤ (a ++ b).length).trans h
  induction hb generalizing acc with
  | nil => exact ⟨⟨r, hs⟩, by rw [List.append_nil]; exact stringFrom_quote hs, rfl⟩
  | plain hq hb hc _ ih =>
    have hs' := shorter (a := [_]) hs
    obtain ⟨r', hr, hrest⟩ := ih (_ :: acc) hs'
    exact ⟨r', (stringFrom_plain hq hb hc hs hs').trans (by simpa using hr), hrest⟩
  | escape hd _ ih =>
    have hs' := shorter (a := [_, _]) hs
    obtain ⟨r', hr, hrest⟩ := ih (_ :: acc) hs'
    exact ⟨r', (stringFrom_escape hd hs hs').trans (by simpa using hr), hrest⟩
  | unit hn hl hu ih =>
    have hs' := shorter (a := [_, _, _, _, _, _]) hs
    obtain ⟨r', hr, hrest⟩ := ih (_ :: acc) hs'
    exact ⟨r', (stringFrom_unicode (unicodeEscape_unit hn hl hu) hs hs').trans
      (by simpa using hr), hrest⟩
  | pair hn hm hh hl _ ih =>
    have hs' := shorter (a := [_, _, _, _, _, _, _, _, _, _, _, _]) hs
    obtain ⟨r', hr, hrest⟩ := ih (_ :: acc) hs'
    exact ⟨r', (stringFrom_unicode (unicodeEscape_pair hn hm hh hl) hs hs').trans
      (by simpa using hr), hrest⟩

/-! ## Numbers -/

def endsValue (c : CodePoint) : Bool := isSpace c || c == ',' || c == ']' || c == '\x7d'

def endsDigits (c : CodePoint) : Bool := !c.isDigit

def endsWhole (c : CodePoint) : Bool := !c.isDigit && c != '.'

theorem endsNumber {c : CodePoint} (h : endsValue c) :
    endsWhole c ∧ endsDigits c ∧ c ≠ .char 'e' ∧ c ≠ .char 'E' := by
  simp only [endsValue, isSpace, Bool.or_eq_true, beq_iff_eq] at h
  rcases h with ((((((rfl | rfl) | rfl) | rfl) | rfl) | rfl) | rfl) <;> decide

theorem takeWhile_digits (hd : s.isNumeral) (hr : Opens endsDigits r) :
    (s ++ r).takeWhile CodePoint.isDigit = s ∧ (s ++ r).dropWhile CodePoint.isDigit = r :=
  ⟨Text.takeWhile_append_of_opens (Text.isNumeral_iff.mp hd).2 hr,
    Text.dropWhile_append_of_opens (Text.isNumeral_iff.mp hd).2 hr⟩

theorem isNumeral_takeWhile (h : s.takeWhile CodePoint.isDigit ≠ []) :
    Text.isNumeral (s.takeWhile CodePoint.isDigit) :=
  Text.isNumeral_iff.mpr ⟨h, fun _ => List.mem_takeWhile_imp⟩

theorem digits_append_rest (s : Text) :
    s = s.takeWhile CodePoint.isDigit ++ s.dropWhile CodePoint.isDigit :=
  List.takeWhile_append_dropWhile.symm

theorem head_isDigit (h : s.isNumeral) : ∃ c rest, s = c :: rest ∧ c.isDigit := by
  obtain ⟨hn, hd⟩ := Text.isNumeral_iff.mp h
  obtain ⟨c, rest, rfl⟩ := List.exists_cons_of_ne_nil hn
  exact ⟨c, rest, rfl, hd c List.mem_cons_self⟩

theorem wholeDigits_sound (h : (wholeDigits s).1 ≠ []) :
    IsWhole (wholeDigits s).1 ∧ s = (wholeDigits s).1 ++ (wholeDigits s).2 := by
  unfold wholeDigits at h ⊢
  split at h
  · exact ⟨⟨rfl, fun _ => rfl⟩, rfl⟩
  · next hzero =>
    dsimp only at h ⊢
    refine ⟨⟨isNumeral_takeWhile h, fun hhead => ?_⟩, digits_append_rest s⟩
    obtain ⟨c, ds, hc⟩ := List.exists_cons_of_ne_nil h
    rw [hc] at hhead
    obtain rfl : c = .char '0' := Option.some.inj hhead
    have hs := digits_append_rest s
    rw [hc] at hs
    exact absurd hs (hzero _)

theorem wholeDigits_complete (hw : IsWhole s) (hr : Opens endsDigits r) :
    wholeDigits (s ++ r) = (s, r) := by
  obtain ⟨htake, hdrop⟩ := takeWhile_digits hw.1 hr
  unfold wholeDigits
  split
  · next rest hrest =>
    have hhead : s.head? = some (.char '0') := by
      cases s with
      | nil => exact absurd hw.1 (by decide)
      | cons c s => rw [(List.cons.inj hrest).1]; rfl
    rw [hw.2 hhead] at hrest ⊢
    exact congrArg (Prod.mk _) (List.cons.inj hrest).2.symm
  · rw [htake, hdrop]

theorem fraction_sound (s : Text) :
    ∃ t, FractionText (fraction s).1 t ∧ s = t ++ (fraction s).2 := by
  unfold fraction
  split
  · next rest =>
    split
    · exact ⟨[], .absent, rfl⟩
    · next h =>
      exact ⟨_, .digits (isNumeral_takeWhile h), congrArg _ (digits_append_rest rest)⟩
  · exact ⟨[], .absent, rfl⟩

theorem fraction_complete (hf : FractionText s t) (hr : Opens endsWhole r) :
    fraction (t ++ r) = (s, r) := by
  cases hf with
  | absent =>
    unfold fraction
    split
    · next h =>
      rw [List.nil_append] at h
      rw [h] at hr
      exact absurd (Text.opens_cons.mp hr) (by decide)
    · rfl
  | digits hd =>
    obtain ⟨htake, hdrop⟩ :=
      takeWhile_digits hd (hr.mono fun c hc => ((Bool.and_eq_true _ _).mp hc).1)
    unfold fraction
    simp only [List.cons_append, htake, hdrop]
    split
    · exact absurd hd (by decide)
    · rfl

theorem exponent_sound (s : Text) :
    ∃ t, ExponentText (exponent s).1 t ∧ s = t ++ (exponent s).2 := by
  unfold exponent
  split
  · next e rest =>
    split
    · next he =>
      split <;> dsimp only <;> split
      · exact ⟨[], .absent, rfl⟩
      · next ds _ h =>
        rw [one_mul]
        exact ⟨_, .plus he (isNumeral_takeWhile h),
          congrArg (_ :: _ :: ·) (digits_append_rest ds)⟩
      · exact ⟨[], .absent, rfl⟩
      · next ds _ h =>
        rw [neg_one_mul]
        exact ⟨_, .minus he (isNumeral_takeWhile h),
          congrArg (_ :: _ :: ·) (digits_append_rest ds)⟩
      · exact ⟨[], .absent, rfl⟩
      · next h =>
        rw [one_mul]
        exact ⟨_, .unsigned he (isNumeral_takeWhile h), congrArg _ (digits_append_rest rest)⟩
    · exact ⟨[], .absent, rfl⟩
  · exact ⟨[], .absent, rfl⟩

theorem exponent_complete {e : Option ℤ} (he : ExponentText e t) (hr : Opens endsValue r) :
    exponent (t ++ r) = (e, r) := by
  have hdigits {ds : Text} (hd : ds.isNumeral) :=
    takeWhile_digits hd (hr.mono fun c hc => (endsNumber hc).2.1)
  have hnil {ds : Text} (hd : ds.isNumeral) : ds ≠ [] := (Text.isNumeral_iff.mp hd).1
  unfold exponent
  cases he with
  | absent =>
    split
    · next c rest h =>
      rw [List.nil_append] at h
      rw [h] at hr
      have hc := endsNumber (Text.opens_cons.mp hr)
      rw [if_neg]
      · rw [List.nil_append, h]
      · rintro (rfl | rfl)
        · exact hc.2.2.1 rfl
        · exact hc.2.2.2 rfl
    · rfl
  | unsigned hx hd =>
    -- The first digit is no sign, so the digits are taken as they stand.
    obtain ⟨c, ds, rfl, hc⟩ := head_isDigit hd
    simp only [List.cons_append, if_pos hx]
    split
    · next h =>
      rw [(List.cons.inj h).1] at hc
      cases hc
    · next h =>
      rw [(List.cons.inj h).1] at hc
      cases hc
    · rw [← List.cons_append, (hdigits hd).1, (hdigits hd).2]
      simp only [one_mul]
  | plus hx hd =>
    simp only [List.cons_append, if_pos hx, (hdigits hd).1, (hdigits hd).2, one_mul]
    split
    · exact absurd rfl (hnil hd)
    · rfl
  | minus hx hd =>
    simp only [List.cons_append, if_pos hx, (hdigits hd).1, (hdigits hd).2, neg_one_mul]
    split
    · exact absurd rfl (hnil hd)
    · rfl

theorem number_sound {r : Rest s} (h : number s = .ok (v, r)) :
    ∃ t, NumberText v t ∧ s = t ++ r.1 := by
  have hbody : s = (if decide (s.head? = some (.char '-')) then [.char '-'] else []) ++
      if s.head? = some (.char '-') then s.drop 1 else s := by
    by_cases hneg : s.head? = some (.char '-')
    · obtain ⟨rest, rfl⟩ : ∃ rest, s = .char '-' :: rest := List.head?_eq_some_iff.mp hneg
      simp
    · simp [hneg]
  simp only [number] at h
  generalize (if s.head? = some (.char '-') then s.drop 1 else s) = body at h hbody
  split_ifs at h with hempty hlen
  · split at h <;> cases h
    next hv =>
    obtain ⟨hwhole, hw⟩ := wholeDigits_sound (s := body) (by simpa using hempty)
    obtain ⟨ft, hft, hf⟩ := fraction_sound (wholeDigits body).2
    obtain ⟨et, het, he⟩ := exponent_sound (fraction (wholeDigits body).2).2
    refine ⟨_, .mk hwhole hft het hv, ?_⟩
    dsimp only
    rw [List.append_assoc, List.append_assoc, List.append_assoc, ← he, ← hf, ← hw]
    exact hbody
  · split at h <;> cases h

theorem opens_exponent {e : Option ℤ} (he : ExponentText e t) (hr : Opens endsValue r) :
    Opens endsWhole (t ++ r) := by
  cases he with
  | absent => exact hr.mono fun _ hc => (endsNumber hc).1
  | unsigned hx | plus hx | minus hx => rcases hx with rfl | rfl <;> exact Text.opens_cons.mpr rfl

theorem opens_fraction {e : Option ℤ} {frac ft : Text} (hf : FractionText frac ft)
    (he : ExponentText e t) (hr : Opens endsValue r) : Opens endsDigits (ft ++ (t ++ r)) := by
  cases hf with
  | absent => exact (opens_exponent he hr).mono fun _ hc => ((Bool.and_eq_true _ _).mp hc).1
  | digits => exact Text.opens_cons.mpr rfl

theorem number_complete (ht : NumberText v t) (hr : Opens endsValue r) :
    ∃ r', number (t ++ r) = .ok (v, r') ∧ r'.1 = r := by
  obtain @⟨negative, whole, frac, ft, et, e, v, hw, hf, he, hv⟩ := ht
  obtain ⟨c, ds, hc, hdigit⟩ := head_isDigit hw.1
  have hminus : c ≠ .char '-' := CodePoint.ne_of_isDigit hdigit rfl
  have hwhole := wholeDigits_complete hw (opens_fraction hf he hr)
  have hfrac := fraction_complete hf (opens_exponent he hr)
  have hexp := exponent_complete he hr
  have hlen : r.length < ((if negative then [.char '-'] else []) ++
      (whole ++ (ft ++ et)) ++ r : Text).length := by
    simp [hc]
    omega
  have hnegative : ((if negative then [.char '-'] else []) ++ (whole ++ (ft ++ et)) ++ r :
      Text).head? = some (.char '-') ↔ negative = true := by
    cases negative <;> simp [hc, hminus]
  have hbody : (if negative = true then
      ((if negative then [.char '-'] else []) ++ (whole ++ (ft ++ et)) ++ r : Text).drop 1
      else (if negative then [.char '-'] else []) ++ (whole ++ (ft ++ et)) ++ r) =
        whole ++ (ft ++ (et ++ r)) := by
    cases negative <;> simp
  refine ⟨⟨r, hlen⟩, ?_, rfl⟩
  simp only [number, hnegative, hbody, hwhole, hfrac, hexp, Bool.decide_eq_true, hv, dif_pos hlen]
  simp [hc]

/-! ## Literal words -/

theorem literal_sound {r : Rest s} (h : literal? s = some (v, r)) :
    ∃ t, (t, v) ∈ literals ∧ s = t ++ r.1 := by
  obtain ⟨⟨t, w⟩, hmem, hl⟩ := List.exists_of_findSome?_eq_some h
  obtain ⟨r', hr, heq⟩ := Option.map_eq_some_iff.mp hl
  cases heq
  refine ⟨t, hmem, ?_⟩
  simp only [expect] at hr
  split_ifs at hr with hp
  cases hr
  exact (List.prefix_iff_eq_append.mp (List.isPrefixOf_iff_prefix.mp hp.1)).symm

theorem mem_literals_iff : (t, v) ∈ literals ↔
    t = "null" ∧ v = .null ∨ t = "true" ∧ v = .bool true ∨ t = "false" ∧ v = .bool false ∨
      t = "NaN" ∧ v = .float .nan ∨ t = "Infinity" ∧ v = .float (.infinite false) ∨
      t = "-Infinity" ∧ v = .float (.infinite true) := by
  simp [literals]

theorem literal_complete (ht : (t, v) ∈ literals) (r : Text) :
    ∃ r', literal? (t ++ r) = some (v, r') ∧ r'.1 = r := by
  have hlen : r.length < (t ++ r).length := by
    have hword : ∀ l ∈ literals, 0 < l.1.length := by decide
    have : 0 < t.length := hword (t, v) ht
    rw [List.length_append]
    omega
  refine ⟨⟨r, hlen⟩, ?_, rfl⟩
  rcases mem_literals_iff.mp ht with
      ⟨rfl, rfl⟩ | ⟨rfl, rfl⟩ | ⟨rfl, rfl⟩ | ⟨rfl, rfl⟩ | ⟨rfl, rfl⟩ | ⟨rfl, rfl⟩ <;>
    simp [literal?, literals, expect, Text.ofString]

theorem literal_of_number (ht : NumberText v t) (r : Text) : literal? (t ++ r) = none := by
  obtain @⟨negative, whole, frac, ft, et, e, v, hw, hf, he, hv⟩ := ht
  obtain ⟨c, ds, rfl, hdigit⟩ := head_isDigit hw.1
  refine Option.eq_none_iff_forall_ne_some.mpr fun l hl => ?_
  obtain ⟨word, hword, heq⟩ := literal_sound hl
  rcases mem_literals_iff.mp hword with
      ⟨rfl, -⟩ | ⟨rfl, -⟩ | ⟨rfl, -⟩ | ⟨rfl, -⟩ | ⟨rfl, -⟩ | ⟨rfl, -⟩ <;>
    cases negative <;> simp [Text.ofString] at heq <;>
    exact CodePoint.ne_of_isDigit hdigit (by decide) heq.1

end Workbench.Json
