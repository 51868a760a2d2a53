import Mathlib.Data.List.Infix
import Mathlib.Data.List.TakeWhile
import Workbench.Json.Reader

/-! # Where reading is given up

A reader leaves an end of what it was given. So a limit that was reached, other
than a fault of the grammar, tells of the text: it holds an integer of too many
digits, or more opening brackets than containers may nest.
-/

namespace Workbench.Json

def Stop.IsLimit : Stop → Prop
  | .fault .. => False
  | .longInteger _ => True
  | .tooDeep _ => True

/-- What the reader leaves is an end of what it was given. -/
def LeavesEnd {α : Type} (item : Reader α) : Prop :=
  ∀ s v r, item s = .ok (v, r) → r.1 <:+ s

theorem skipSpace_suffix (s : Text) : skipSpace s <:+ s := List.dropWhile_suffix _

theorem suffix_of_skipSpace {s t : Text} {c : CodePoint} (h : skipSpace s = c :: t) : t <:+ s :=
  (List.suffix_cons c t).trans (h ▸ skipSpace_suffix s)

/-! ## Strings and names -/

theorem unicodeEscape_error {s : Text} {e : Stop} (h : unicodeEscape s = .error e) :
    ¬ e.IsLimit := by
  unfold unicodeEscape at h
  split at h <;> (try split at h) <;> (try split at h) <;> (try split at h) <;> cases h <;>
    exact id

theorem stringFrom_error {opening n : ℕ} {s : Text} {hs : s.length ≤ n} {acc : Text} {e : Stop}
    (h : stringFrom opening n s hs acc = .error e) : ¬ e.IsLimit := by
  fun_induction stringFrom opening n s hs acc with
  | case1 | case3 | case6 | case8 => cases h; exact id
  | case2 => cases h
  | case4 _ _ _ he => cases h; exact unicodeEscape_error he
  | case5 _ _ _ _ _ _ _ _ ih => exact ih h
  | case7 _ _ _ _ _ _ _ _ _ ih => exact ih h
  | case9 _ _ _ _ _ _ _ _ ih => exact ih h

theorem stringFrom_suffix {opening n : ℕ} {s : Text} {hs : s.length ≤ n} {acc t : Text}
    {r : {r : Text // r.length < n}}
    (h : stringFrom opening n s hs acc = .ok (t, r)) : r.1 <:+ s := by
  fun_induction stringFrom opening n s hs acc with
  | case1 | case3 | case4 | case6 | case8 => cases h
  | case2 => cases h; exact List.suffix_cons _ _
  | case5 _ rest _ k _ _ _ _ ih =>
    exact (ih h).trans (((List.drop_suffix k rest).trans (List.suffix_cons _ _)).trans
      (List.suffix_cons _ _))
  | case7 _ _ _ _ _ _ _ _ _ ih =>
    exact ((ih h).trans (List.suffix_cons _ _)).trans (List.suffix_cons _ _)
  | case9 _ _ _ _ _ _ _ _ ih => exact (ih h).trans (List.suffix_cons _ _)

theorem memberName_error {s : Text} {e : Stop} (h : memberName s = .error e) : ¬ e.IsLimit := by
  unfold memberName at h
  split at h
  · split at h
    · next he => cases h; exact stringFrom_error he
    · split at h <;> cases h
      exact id
  · cases h; exact id

theorem memberName_leavesEnd : LeavesEnd memberName := by
  intro s v r h
  unfold memberName at h
  split at h
  · split at h
    · cases h
    · next hr =>
      split at h
      · next hc =>
        cases h
        exact ((skipSpace_suffix _).trans (suffix_of_skipSpace hc)).trans
          ((stringFrom_suffix hr).trans (List.suffix_cons _ _))
      · cases h
  · cases h

/-! ## Numbers -/

theorem fraction_suffix (s : Text) : (fraction s).2 <:+ s := by
  unfold fraction
  split
  · split
    · exact List.suffix_rfl
    · exact (List.dropWhile_suffix _).trans (List.suffix_cons _ _)
  · exact List.suffix_rfl

theorem exponent_suffix (s : Text) : (exponent s).2 <:+ s := by
  have after {rest : Text} (h : rest <:+ s) : rest.dropWhile CodePoint.isDigit <:+ s :=
    (List.dropWhile_suffix _).trans h
  unfold exponent
  split
  · next e rest =>
    have hr := List.suffix_cons (CodePoint.char e) rest
    split
    · split <;> dsimp only <;> split
      · exact List.suffix_rfl
      · exact after ((List.suffix_cons _ _).trans hr)
      · exact List.suffix_rfl
      · exact after ((List.suffix_cons _ _).trans hr)
      · exact List.suffix_rfl
      · exact after hr
    · exact List.suffix_rfl
  · exact List.suffix_rfl

theorem wholeDigits_suffix (s : Text) : (wholeDigits s).2 <:+ s := by
  unfold wholeDigits
  split
  · exact List.suffix_cons _ _
  · exact List.dropWhile_suffix _

def HasDigits (n : ℕ) (s : Text) : Prop :=
  ∃ ds : Text, ds.length = n ∧ (∀ c ∈ ds, c.isDigit) ∧ ds <:+: s

theorem HasDigits.mono {n : ℕ} {s t : Text} (h : HasDigits n s) (hs : s <:+: t) :
    HasDigits n t :=
  h.imp fun _ h => ⟨h.1, h.2.1, h.2.2.trans hs⟩

theorem HasDigits.le_length {n : ℕ} {s : Text} (h : HasDigits n s) : n ≤ s.length := by
  obtain ⟨ds, rfl, -, hs⟩ := h
  exact hs.length_le

theorem wholeDigits_hasDigits (s : Text) : HasDigits (wholeDigits s).1.length s := by
  refine ⟨_, rfl, ?_⟩
  unfold wholeDigits
  split
  · next rest => exact ⟨by simp [Text.ofString, CodePoint.isDigit], [], rest, rfl⟩
  · exact ⟨fun c => List.mem_takeWhile_imp, (List.takeWhile_prefix _).isInfix⟩

theorem numberOf_error {negative : Bool} {whole frac : Text} {exp : Option ℤ} {e : Stop}
    (h : numberOf negative whole frac exp = .error e) :
    e = .longInteger whole.length ∧ integerLimit < whole.length := by
  unfold numberOf at h
  split at h
  · split_ifs at h with hl
    cases h
    exact ⟨rfl, hl⟩
  · cases h

theorem unsigned_suffix (s : Text) :
    (if s.head? = some (.char '-') then s.drop 1 else s) <:+ s := by
  split
  · exact List.drop_suffix _ _
  · exact List.suffix_rfl

theorem number_error {s : Text} {e : Stop} (h : number s = .error e) (he : e.IsLimit) :
    ∃ n, e = .longInteger n ∧ integerLimit < n ∧ HasDigits n s := by
  have hb := unsigned_suffix s
  simp only [number] at h
  generalize (if s.head? = some (.char '-') then s.drop 1 else s) = body at h hb
  split_ifs at h
  · cases h; exact he.elim
  all_goals
    split at h
    · next hn =>
      cases h
      obtain ⟨rfl, hl⟩ := numberOf_error hn
      exact ⟨_, rfl, hl, (wholeDigits_hasDigits body).mono hb.isInfix⟩
    · cases h <;> exact he.elim

theorem number_leavesEnd : LeavesEnd number := by
  intro s v r h
  have hb := unsigned_suffix s
  simp only [number] at h
  generalize (if s.head? = some (.char '-') then s.drop 1 else s) = body at h hb
  split_ifs at h
  all_goals
    split at h <;> cases h
  exact ((exponent_suffix _).trans (fraction_suffix _)).trans
    ((wholeDigits_suffix body).trans hb)

/-! ## Containers -/

theorem of_map_eq_ok {ε α β : Type} {f : α → β} {x : Except ε α} {b : β}
    (h : x.map f = .ok b) : ∃ a, x = .ok a ∧ f a = b := by
  cases x <;> cases h
  exact ⟨_, rfl, rfl⟩

theorem of_map_eq_error {ε α β : Type} {f : α → β} {x : Except ε α} {e : ε}
    (h : x.map f = .error e) : x = .error e := by
  cases x <;> cases h
  rfl

section Containers

variable {item : Reader Value} {n : ℕ} {s : Text}

theorem LeavesEnd.behind (hi : LeavesEnd item) {v : Value} {r : Rest s} {c : CodePoint}
    {t : Text} (h : item s = .ok (v, r)) (hc : skipSpace r.1 = c :: t) : t <:+ s :=
  (suffix_of_skipSpace hc).trans (hi _ _ _ h)

theorem elements_leavesEnd (hi : LeavesEnd item) {hs : s.length ≤ n} {acc vs : List Value}
    {r : {r : Text // r.length < n}} (h : elements item n s hs acc = .ok (vs, r)) : r.1 <:+ s := by
  fun_induction elements item n s hs acc with
  | case1 | case4 => cases h
  | case2 _ _ _ _ _ _ hv _ hc => cases h; exact hi.behind hv hc
  | case3 _ _ _ _ _ _ hv _ hc _ ih =>
    exact (ih h).trans ((skipSpace_suffix _).trans (hi.behind hv hc))

theorem elements_error (hi : LeavesEnd item) {hs : s.length ≤ n} {acc : List Value} {e : Stop}
    (h : elements item n s hs acc = .error e) (he : e.IsLimit) :
    ∃ t, t <:+ s ∧ item t = .error e := by
  fun_induction elements item n s hs acc with
  | case1 _ _ _ _ hv => cases h; exact ⟨_, List.suffix_rfl, hv⟩
  | case2 => cases h
  | case3 _ _ _ _ _ _ hv _ hc _ ih =>
    obtain ⟨t, ht, hv'⟩ := ih h
    exact ⟨t, ht.trans ((skipSpace_suffix _).trans (hi.behind hv hc)), hv'⟩
  | case4 => cases h; exact he.elim

theorem members_leavesEnd (hi : LeavesEnd item) {hs : s.length ≤ n} {acc ms : List (Text × Value)}
    {r : {r : Text // r.length < n}} (h : members item n s hs acc = .ok (ms, r)) : r.1 <:+ s := by
  fun_induction members item n s hs acc with
  | case1 | case2 | case5 => cases h
  | case3 _ _ _ _ _ _ hn _ _ _ hv _ hc =>
    cases h; exact (hi.behind hv hc).trans (memberName_leavesEnd _ _ _ hn)
  | case4 _ _ _ _ _ _ hn _ _ _ hv _ hc _ ih =>
    exact (ih h).trans ((skipSpace_suffix _).trans
      ((hi.behind hv hc).trans (memberName_leavesEnd _ _ _ hn)))

theorem members_error (hi : LeavesEnd item) {hs : s.length ≤ n} {acc : List (Text × Value)}
    {e : Stop} (h : members item n s hs acc = .error e) (he : e.IsLimit) :
    ∃ t, t <:+ s ∧ item t = .error e := by
  fun_induction members item n s hs acc with
  | case1 _ _ _ _ hn => cases h; exact absurd he (memberName_error hn)
  | case2 _ _ _ _ _ _ hn _ hv => cases h; exact ⟨_, memberName_leavesEnd _ _ _ hn, hv⟩
  | case3 => cases h
  | case4 _ _ _ _ _ _ hn _ _ _ hv _ hc _ ih =>
    obtain ⟨t, ht, hv'⟩ := ih h
    exact ⟨t, ht.trans ((skipSpace_suffix _).trans
      ((hi.behind hv hc).trans (memberName_leavesEnd _ _ _ hn))), hv'⟩
  | case5 => cases h; exact he.elim

theorem array_leavesEnd (hi : LeavesEnd item) {v : Value}
    {r : {r : Text // r.length < s.length + 1}} (h : array item s = .ok (v, r)) : r.1 <:+ s := by
  unfold array at h
  split at h
  · next hc => cases h; exact suffix_of_skipSpace hc
  · obtain ⟨⟨vs, r'⟩, hv, heq⟩ := of_map_eq_ok h
    cases heq
    exact (elements_leavesEnd hi hv).trans (skipSpace_suffix s)

theorem array_error (hi : LeavesEnd item) {e : Stop} (h : array item s = .error e)
    (he : e.IsLimit) : ∃ t, t <:+ s ∧ item t = .error e := by
  unfold array at h
  split at h
  · cases h
  · obtain ⟨t, ht, hv⟩ := elements_error hi (of_map_eq_error h) he
    exact ⟨t, ht.trans (skipSpace_suffix s), hv⟩

theorem object_leavesEnd (hi : LeavesEnd item) {v : Value}
    {r : {r : Text // r.length < s.length + 1}} (h : object item s = .ok (v, r)) : r.1 <:+ s := by
  unfold object at h
  split at h
  · next hc => cases h; exact suffix_of_skipSpace hc
  · obtain ⟨⟨ms, r'⟩, hm, heq⟩ := of_map_eq_ok h
    cases heq
    exact (members_leavesEnd hi hm).trans (skipSpace_suffix s)

theorem object_error (hi : LeavesEnd item) {e : Stop} (h : object item s = .error e)
    (he : e.IsLimit) : ∃ t, t <:+ s ∧ item t = .error e := by
  unfold object at h
  split at h
  · cases h
  · obtain ⟨t, ht, hv⟩ := members_error hi (of_map_eq_error h) he
    exact ⟨t, ht.trans (skipSpace_suffix s), hv⟩

end Containers

/-! ## Values -/

theorem expect_leavesEnd {word s : Text} {r : Rest s} (h : expect word s = some r) :
    r.1 <:+ s := by
  simp only [expect] at h
  split_ifs at h
  cases h
  exact List.drop_suffix _ _

theorem literal_leavesEnd {s : Text} {v : Value} {r : Rest s} (h : literal? s = some (v, r)) :
    r.1 <:+ s := by
  obtain ⟨l, -, hl⟩ := List.exists_of_findSome?_eq_some h
  obtain ⟨r', hr, heq⟩ := Option.map_eq_some_iff.mp hl
  cases heq
  exact expect_leavesEnd hr

theorem valueWith_leavesEnd {inner : Option (Reader Value)}
    (hi : ∀ item ∈ inner, LeavesEnd item) : LeavesEnd (valueWith inner) := by
  intro s v r h
  unfold valueWith at h
  split at h
  · obtain ⟨⟨t, r'⟩, ht, heq⟩ := of_map_eq_ok h
    cases heq
    exact (stringFrom_suffix ht).trans (List.suffix_cons _ _)
  · cases inner with
    | none => cases h
    | some item => exact (array_leavesEnd (hi item rfl) h).trans (List.suffix_cons _ _)
  · cases inner with
    | none => cases h
    | some item => exact (object_leavesEnd (hi item rfl) h).trans (List.suffix_cons _ _)
  · split at h
    · next hl => cases h; exact literal_leavesEnd hl
    · exact number_leavesEnd _ _ _ h

theorem value_leavesEnd (depth : ℕ) : LeavesEnd (value depth) := by
  induction depth with
  | zero => exact valueWith_leavesEnd (by simp)
  | succ depth ih => exact valueWith_leavesEnd (by simpa using ih)

def opens (c : CodePoint) : Bool := c == '[' || c == '{'

/-- A value is given up for an integer of too many digits, or for a container that may
not open, or where what stands in its container is given up. -/
theorem valueWith_error {inner : Option (Reader Value)} (hi : ∀ item ∈ inner, LeavesEnd item)
    {s : Text} {e : Stop} (h : valueWith inner s = .error e) (he : e.IsLimit) :
    (∃ n, e = .longInteger n ∧ integerLimit < n ∧ HasDigits n s) ∨
      ∃ c rest, s = c :: rest ∧ opens c ∧
        ((inner = none ∧ ∃ k, e = .tooDeep k) ∨
          ∃ item ∈ inner, ∃ t, t <:+ rest ∧ item t = .error e) := by
  unfold valueWith at h
  split at h
  · exact absurd he (stringFrom_error (of_map_eq_error h))
  · refine .inr ⟨_, _, rfl, rfl, ?_⟩
    cases inner with
    | none => cases h; exact .inl ⟨rfl, _, rfl⟩
    | some item => exact .inr ⟨item, rfl, array_error (hi item rfl) h he⟩
  · refine .inr ⟨_, _, rfl, rfl, ?_⟩
    cases inner with
    | none => cases h; exact .inl ⟨rfl, _, rfl⟩
    | some item => exact .inr ⟨item, rfl, object_error (hi item rfl) h he⟩
  · split at h
    · cases h
    · exact .inl (number_error h he)

/-- Reading is given up only at an integer of too many digits, or behind more opening
brackets than containers may nest. -/
theorem value_error {depth : ℕ} {s : Text} {e : Stop} (h : value depth s = .error e)
    (he : e.IsLimit) :
    (∃ n, e = .longInteger n ∧ integerLimit < n ∧ HasDigits n s) ∨
      ((∃ k, e = .tooDeep k) ∧ depth < s.countP opens) := by
  induction depth generalizing s with
  | zero =>
    refine (valueWith_error (by simp) h he).imp id ?_
    rintro ⟨c, rest, rfl, hc, ⟨-, hk⟩ | ⟨_, ⟨⟩, _⟩⟩
    exact ⟨hk, by simp [hc]⟩
  | succ depth ih =>
    rcases valueWith_error (by simpa using value_leavesEnd depth) h he with hl | hc
    · exact .inl hl
    · obtain ⟨c, rest, rfl, hc, ⟨⟨⟩, -⟩ | ⟨item, hm, t, ht, hv⟩⟩ := hc
      cases hm
      have hs : t <:+ c :: rest := ht.trans (List.suffix_cons c rest)
      refine (ih hv).imp (fun ⟨n, h₁, h₂, h₃⟩ => ⟨n, h₁, h₂, h₃.mono hs.isInfix⟩) ?_
      rintro ⟨hk, hd⟩
      have hle := ht.sublist.countP_le (p := opens)
      exact ⟨hk, by simp only [List.countP_cons, hc, if_true]; omega⟩

theorem elements_of_error {item : Reader Value} {n : ℕ} {s : Text} {hs : s.length ≤ n}
    {acc : List Value} {e : Stop} (h : item s = .error e) :
    elements item n s hs acc = .error e := by
  rw [elements]
  split <;> simp_all

theorem array_of_error {item : Reader Value} {s : Text} {e : Stop}
    (h : item (skipSpace s) = .error e) (hs : (skipSpace s).head? ≠ some (.char ']')) :
    array item s = .error e := by
  unfold array
  split
  · next hc => exact absurd (by rw [hc]; rfl) hs
  · rw [elements_of_error h]
    rfl

/-- Opening brackets past the depth that containers may have. -/
theorem value_brackets {depth n : ℕ} (h : depth < n) :
    value depth (List.replicate n (.char '[')) = .error (.tooDeep .array) := by
  induction depth generalizing n with
  | zero =>
    obtain ⟨m, rfl⟩ := Nat.exists_eq_succ_of_ne_zero h.ne'
    rfl
  | succ depth ih =>
    obtain ⟨m, rfl⟩ : ∃ m, n = m + 2 := ⟨n - 2, by omega⟩
    have hm : value depth (skipSpace (List.replicate (m + 1) (.char '['))) = _ :=
      ih (n := m + 1) (by omega)
    exact array_of_error (s := List.replicate (m + 1) (.char '[')) hm
      (show some (CodePoint.char '[') ≠ _ by decide)

theorem expect_of_digit {word s : Text} {c : CodePoint} (hw : ∀ d ∈ word.head?, ¬ d.isDigit)
    (hn : word ≠ []) (hs : s.head? = some c) (hc : c.isDigit) : expect word s = none := by
  have hp : ¬ word.isPrefixOf s := by
    rw [List.isPrefixOf_iff_prefix]
    rintro ⟨t, rfl⟩
    obtain ⟨d, w, rfl⟩ := List.exists_cons_of_ne_nil hn
    cases hs
    exact hw _ rfl hc
  exact dif_neg fun h => hp h.1

theorem valueWith_of_digit {inner : Option (Reader Value)} {s : Text} {c : CodePoint}
    (hs : s.head? = some c) (hc : c.isDigit) : valueWith inner s = number s := by
  have hl : literal? s = none := by
    rw [literal?, List.findSome?_eq_none_iff]
    intro l hm
    have hw : (∀ d ∈ l.1.head?, ¬ d.isDigit) ∧ l.1 ≠ [] := by
      revert l
      decide
    rw [expect_of_digit hw.1 hw.2 hs hc]
    rfl
  unfold valueWith
  split
  · cases hs; exact absurd hc (by decide)
  · cases hs; exact absurd hc (by decide)
  · cases hs; exact absurd hc (by decide)
  · rw [hl]

theorem wholeDigits_digits {c : CodePoint} {ds : Text} (hc : c ≠ '0')
    (hd : ∀ d ∈ c :: ds, d.isDigit) : wholeDigits (c :: ds) = (c :: ds, []) := by
  unfold wholeDigits
  split
  · next h => cases h; exact absurd rfl hc
  · rw [List.takeWhile_eq_self_iff.mpr hd, List.dropWhile_eq_nil_iff.mpr hd]

theorem value_digits {depth : ℕ} {c : CodePoint} {ds : Text} (hc : c ≠ '0')
    (hd : ∀ d ∈ c :: ds, d.isDigit) (hn : integerLimit < (c :: ds).length) :
    value depth (c :: ds) = .error (.longInteger (c :: ds).length) := by
  have hh : c.isDigit := hd c List.mem_cons_self
  have hm : ¬ (c :: ds).head? = some (.char '-') := by
    rintro ⟨⟩
    exact absurd hh (by decide)
  have hnum : number (c :: ds) = .error (.longInteger (c :: ds).length) := by
    simp only [number, hm, decide_false, if_false, wholeDigits_digits hc hd]
    rw [show numberOf false (c :: ds) (fraction []).1 (exponent (fraction []).2).1 =
      .error (.longInteger (c :: ds).length) from if_pos hn]
    rfl
  cases depth <;> exact (valueWith_of_digit rfl hh).trans hnum

/-! ## Whole texts -/

def ReadError.IsLimit : ReadError → Prop
  | .fault .. => False
  | .longInteger _ => True
  | .tooDeep _ => True

theorem ReadError.ofStop_isLimit {s : Text} {stop : Stop} :
    (ReadError.ofStop s stop).IsLimit ↔ stop.IsLimit := by
  cases stop <;> exact Iff.rfl

variable [Nesting]

/-- Reading the text is given up at a limit. -/
def GivenUp (s : Text) : Prop := ∃ e, read s = .error e ∧ e.IsLimit

theorem read_error {s : Text} {e : ReadError} (h : read s = .error e) (he : e.IsLimit) :
    ∃ stop, value depthLimit (skipSpace s) = .error stop ∧ e = ReadError.ofStop s stop := by
  unfold read at h
  split_ifs at h
  · cases h; exact he.elim
  · split at h
    · next stop hv => cases h; exact ⟨stop, hv, rfl⟩
    · split at h <;> cases h
      exact he.elim

/-- A text that is given up holds an integer of too many digits, or too many brackets. -/
theorem GivenUp.cause {s : Text} (h : GivenUp s) :
    (∃ n, integerLimit < n ∧ HasDigits n s) ∨ depthLimit < s.countP opens := by
  obtain ⟨e, hr, he⟩ := h
  obtain ⟨stop, hv, rfl⟩ := read_error hr he
  have hs := skipSpace_suffix s
  rcases value_error hv (ReadError.ofStop_isLimit.mp he) with ⟨n, -, hn, hd⟩ | ⟨-, hd⟩
  · exact .inl ⟨n, hn, hd.mono hs.isInfix⟩
  · exact .inr (hd.trans_le hs.sublist.countP_le)

theorem read_of_value_error {s : Text} {stop : Stop} (hb : s.head? ≠ some (.char '\uFEFF'))
    (h : value depthLimit (skipSpace s) = .error stop) :
    read s = .error (ReadError.ofStop s stop) := by
  rw [read, if_neg hb]
  split <;> simp_all

theorem read_brackets {n : ℕ} (h : depthLimit < n) :
    read (List.replicate n (.char '[')) = .error (.tooDeep .array) := by
  obtain ⟨m, rfl⟩ := Nat.exists_eq_succ_of_ne_zero (Nat.ne_zero_of_lt h)
  exact read_of_value_error (s := List.replicate (m + 1) (.char '['))
    (by simp [List.replicate_succ]) (value_brackets h)

theorem read_digits {c : CodePoint} {ds : Text} (hc : c ≠ '0')
    (hd : ∀ d ∈ c :: ds, d.isDigit) (hn : integerLimit < (c :: ds).length) :
    read (c :: ds) = .error (.longInteger (c :: ds).length) := by
  have hh : c.isDigit := hd c List.mem_cons_self
  have hs : skipSpace (c :: ds) = c :: ds := by
    refine List.dropWhile_cons_of_neg fun h => ?_
    simp only [isSpace, Bool.or_eq_true, beq_iff_eq] at h
    rcases h with ((rfl | rfl) | rfl) | rfl <;> exact absurd hh (by decide)
  have hv : value depthLimit (skipSpace (c :: ds)) = .error (.longInteger (c :: ds).length) := by
    rw [hs]
    exact value_digits hc hd hn
  refine read_of_value_error ?_ hv
  rintro ⟨⟩
  exact absurd hh (by decide)

end Workbench.Json
