import Workbench.Json.Writer
import Workbench.Proofs.Json.Exact
import Workbench.Proofs.OrderedMap
import Workbench.Proofs.Text.Numeral
import Workbench.Proofs.Text.Scalar

/-! # What is written is read back

Escapes spell the text that is written with them, digits the number, and brackets hold what is
between them, however they are laid out. So a value that keeps to the limits of the reader is
read back from its text.
-/

namespace Workbench.Json

variable {s t u sp : Text} {v : Value} {n : ℕ}

/-! ## Strings -/

def hexDigit (n : ℕ) : CodePoint := .char (Nat.digitChar n)

theorem hexVal?_hexDigit : ∀ n < 16, (hexDigit n).hexVal? = some n := by decide

theorem hex_one (h : n < 16) : Text.hex 1 n = [hexDigit n] := by
  rw [Text.hex, Nat.toDigits_of_lt_base h]
  rfl

theorem hex_succ {k : ℕ} (hk : 0 < k) (n : ℕ) :
    Text.hex (k + 1) n = Text.hex k (n / 16) ++ [hexDigit (n % 16)] := by
  unfold Text.hex Text.padLeft
  by_cases hn : n < 16
  · rw [Nat.toDigits_of_lt_base hn, Nat.div_eq_of_lt hn, Nat.mod_eq_of_lt hn,
      Nat.toDigits_of_lt_base (by decide)]
    obtain ⟨k, rfl⟩ := Nat.exists_eq_succ_of_ne_zero hk.ne'
    simp only [List.map_cons, List.map_nil, List.length_singleton, Nat.succ_eq_add_one,
      Nat.add_sub_cancel, List.replicate_succ']
    rfl
  · rw [Nat.toDigits_of_base_le (by decide) (by omega)]
    simp only [List.map_append, List.map_cons, List.map_nil, List.length_append,
      List.length_singleton, Nat.add_sub_add_right, List.append_assoc]
    rfl

theorem exists_hex_four (h : n < 0x10000) :
    ∃ a b c d, Text.hex 4 n = [a, b, c, d] ∧ hex4? [a, b, c, d] = some n := by
  refine ⟨hexDigit (n / 16 / 16 / 16), hexDigit (n / 16 / 16 % 16), hexDigit (n / 16 % 16),
    hexDigit (n % 16), ?_, ?_⟩
  · rw [hex_succ (by decide), hex_succ (by decide), hex_succ (by decide), hex_one (by omega)]
    rfl
  · simp only [hex4?, hexVal?_hexDigit _ (Nat.mod_lt _ (by decide : 16 > 0)),
      hexVal?_hexDigit (n / 16 / 16 / 16) (by omega)]
    simp only [bind, pure, Option.bind]
    congr 1
    omega

theorem exists_unitEscape (h : n < 0x10000) : ∃ a b c d, hex4? [a, b, c, d] = some n ∧
    unitEscape n = [.char '\\', .char 'u', a, b, c, d] := by
  obtain ⟨a, b, c, d, hx, hn⟩ := exists_hex_four h
  exact ⟨a, b, c, d, hn, by rw [unitEscape, hx]; rfl⟩

theorem spells_escaped (c : Char) (h : Spells s t) :
    Spells (escaped (.char c) ++ s) (.char c :: t) := by
  have hbound : (CodePoint.char c).val < 0xD800 ∨
      0xE000 ≤ (CodePoint.char c).val ∧ (CodePoint.char c).val < 0x110000 :=
    CodePoint.val_char_lt c
  have hhigh : ¬ isHighSurrogate (CodePoint.char c).val := by
    simp only [isHighSurrogate, Bool.and_eq_true, decide_eq_true_eq]
    omega
  fun_cases escaped (.char c) with
  | case1 hq =>
    rw [hq]
    exact .escape rfl h
  | case2 _ hb =>
    rw [hb]
    exact .escape rfl h
  | case3 _ _ hn =>
    rw [hn]
    exact .escape rfl h
  | case4 _ _ _ hr =>
    rw [hr]
    exact .escape rfl h
  | case5 _ _ _ _ ht =>
    rw [ht]
    exact .escape rfl h
  | case6 _ _ _ _ _ _ h8 =>
    rw [show CodePoint.char c = .char '\x08' from CodePoint.val_inj.mp h8]
    exact .escape rfl h
  | case7 _ _ _ _ _ _ _ h12 =>
    rw [show CodePoint.char c = .char '\x0c' from CodePoint.val_inj.mp h12]
    exact .escape rfl h
  | case8 _ hq hb _ _ _ _ _ hp => exact .plain hq hb hp.1 h
  | case9 _ _ _ _ _ _ _ _ _ hu =>
    obtain ⟨_, _, _, _, hx, he⟩ := exists_unitEscape hu
    rw [he, ← CodePoint.ofNat_val (.char c)]
    exact .unit hx (fun hh => absurd hh hhigh) h
  | case10 n =>
    have hval : (CodePoint.char c).val = n := rfl
    clear_value n
    rw [hval] at hbound
    obtain ⟨_, _, _, _, hx, he⟩ := exists_unitEscape
      (n := 0xD800 + (n - 0x10000) / 1024) (by omega)
    obtain ⟨_, _, _, _, hy, hf⟩ := exists_unitEscape
      (n := 0xDC00 + (n - 0x10000) % 1024) (by omega)
    -- A character beyond the first plane is spelt by two surrogates, which join again.
    have hpair := Spells.pair hx hy (by simp [isHighSurrogate]; omega)
      (by simp [isLowSurrogate]; omega) h
    have hjoin : 0x10000 + (0xD800 + (n - 0x10000) / 1024 - 0xD800) * 1024 +
        (0xDC00 + (n - 0x10000) % 1024 - 0xDC00) = n := by omega
    rw [hjoin, ← hval, CodePoint.ofNat_val] at hpair
    rw [he, hf]
    exact hpair

theorem spells_of_scalar (h : t.Scalar) : Spells (t.flatMap escaped) t := by
  induction t with
  | nil => exact .nil
  | cons c t ih =>
    have ht := ih (h.mono fun _ => List.mem_cons_of_mem c)
    cases c with
    | char c => exact spells_escaped c ht
    | surrogate s => exact absurd List.mem_cons_self (h s)

theorem stringText_quoted (h : t.Scalar) : StringText t (quoted t) :=
  ⟨_, spells_of_scalar h, rfl⟩

/-- A unit before what spells some text: it joins the unit behind it or stands alone. -/
theorem exists_spells_unit (hn : n < 0x10000) (h : Spells s t) :
    ∃ u, Spells (unitEscape n ++ s) u := by
  obtain ⟨_, _, _, _, hx, he⟩ := exists_unitEscape hn
  rw [he]
  by_cases hl : isHighSurrogate n ∧ LowFollows s
  · obtain ⟨hh, a, b, c, d, m, rest, rfl, hm, hlow⟩ := hl
    cases h with
    | plain _ hb => exact absurd rfl hb
    | escape hd => cases hd
    | unit _ _ hs => exact ⟨_, .pair hx hm hh hlow hs⟩
    | pair hm' _ hh' =>
      obtain rfl := Option.some_inj.mp (hm.symm.trans hm')
      simp only [isHighSurrogate, isLowSurrogate, Bool.and_eq_true, decide_eq_true_eq] at hh' hlow
      omega
  · exact ⟨_, .unit hx (fun hh hf => hl ⟨hh, hf⟩) h⟩

theorem exists_spells (t : Text) : ∃ u, Spells (t.flatMap escaped) u := by
  induction t with
  | nil => exact ⟨_, .nil⟩
  | cons c t ih =>
    obtain ⟨u, hu⟩ := ih
    cases c with
    | char c => exact ⟨_, spells_escaped c hu⟩
    | surrogate s =>
      have hs : escaped (.surrogate s) = unitEscape (0xD800 + s.val) := by
        have := s.isLt
        unfold escaped
        dsimp only [CodePoint.val]
        rw [if_neg nofun, if_neg nofun, if_neg nofun, if_neg nofun, if_neg nofun,
          if_neg (by omega), if_neg (by omega), if_neg (by omega), if_pos (by omega)]
      rw [List.flatMap_cons, hs]
      exact exists_spells_unit (by have := s.isLt; omega) hu

/-! ## Integers -/

theorem isWhole_ofNat (n : ℕ) : IsWhole (Text.ofNat n) := by
  have hnum := Text.isNumeral_ofNat n
  refine ⟨hnum, fun h => ?_⟩
  obtain ⟨c, ds, hds, -⟩ := head_isDigit hnum
  rw [hds] at h
  cases h
  rw [hds, Text.isNumeral_iff] at hnum
  -- Without the zero the digits are those of the same number, so there are too few of them.
  have hval : Text.digitsVal ds = n := (congrArg Text.digitsVal hds).symm.trans (by simp)
  by_contra hne
  have hpos : 0 < ds.length := List.length_pos_iff.mpr fun h => hne (by rw [hds, h])
  have hlt := Text.digitsVal_lt (Text.isNumeral_iff.mpr
    ⟨List.length_pos_iff.mp hpos, fun c hc => hnum.2 c (List.mem_cons_of_mem _ hc)⟩)
  rw [hval, ← Text.length_ofNat_le_iff hpos, hds, List.length_cons] at hlt
  omega

theorem numberText_ofNat (negative : Bool) (h : n < 10 ^ integerLimit) :
    NumberText (.int (if negative then -(n : ℤ) else n))
      ((if negative then [.char '-'] else []) ++ Text.ofNat n) := by
  have hlen : (Text.ofNat n).length ≤ integerLimit :=
    (Text.length_ofNat_le_iff (by decide)).mpr h
  have hv : numberOf negative (Text.ofNat n) [] none =
      .ok (.int (if negative then -(n : ℤ) else n)) := by
    rw [numberOf, if_neg (by omega), Text.digitsVal_ofNat]
  have := NumberText.mk (isWhole_ofNat n) .absent .absent hv
  rwa [List.append_nil, List.append_nil] at this

theorem numberText_ofInt {n : ℤ} (h : n.natAbs < 10 ^ integerLimit) :
    NumberText (.int n) (Text.ofInt n) := by
  cases n with
  | ofNat n => exact numberText_ofNat false h
  | negSucc n => exact numberText_ofNat true h

/-! ## Layout -/

theorem spaces_nil : Spaces [] := nofun

theorem spaces_lineBreak (layout : Layout) (level : ℕ) : Spaces (layout.lineBreak level) := by
  intro c hc
  cases layout with
  | oneLine => cases hc
  | lines =>
    rcases List.mem_cons.mp hc with rfl | hc
    · rfl
    · rw [List.eq_of_mem_replicate hc]
      rfl

def Layout.gap : Layout → ℕ → Text
  | .oneLine, _ => [.char ' ']
  | .lines, level => lineBreak .lines level

theorem separator_eq (layout : Layout) (level : ℕ) :
    layout.separator level = .char ',' :: layout.gap level := by
  cases layout <;> rfl

theorem spaces_gap (layout : Layout) (level : ℕ) : Spaces (layout.gap level) := by
  cases layout with
  | oneLine => simp [Spaces, Layout.gap, isSpace]
  | lines => exact spaces_lineBreak .lines level

theorem listed_of_separated {α : Type} (closing : CodePoint) {I : α → Text → Prop} {f : α → Text}
    (layout : Layout) (level : ℕ) (hsp : Spaces sp) {x : α} {xs : List α}
    (h : ∀ y ∈ x :: xs, I y (f y)) : Listed closing I (x :: xs)
      (f x ++ (xs.flatMap (fun y => layout.separator level ++ f y) ++ (sp ++ [closing]))) := by
  induction xs generalizing x with
  | nil => exact .last (h x List.mem_cons_self) hsp
  | cons y ys ih =>
    rw [List.forall_mem_cons] at h
    have hy := Listed.more h.1 spaces_nil (spaces_gap layout level) (ih h.2)
    rw [List.flatMap_cons]
    simpa [separator_eq] using hy

theorem writeItems_eq (layout : Layout) (level : ℕ) (vs : List Value) :
    writeItems layout level vs =
      vs.flatMap fun v => layout.separator level ++ v.write layout level := by
  induction vs with
  | nil => rfl
  | cons v vs ih => rw [writeItems, ih, List.flatMap_cons]

def writeMember (layout : Layout) (level : ℕ) (m : Text × Value) : Text :=
  quoted m.1 ++ ": " ++ m.2.write layout level

theorem writeMembers_eq (layout : Layout) (level : ℕ) (ms : List (Text × Value)) :
    writeMembers layout level ms =
      ms.flatMap fun m => layout.separator level ++ writeMember layout level m := by
  induction ms with
  | nil => rfl
  | cons m ms ih => simp [writeMembers, writeMember, ih]

/-! ## Values -/

/-- A value that the reader takes: its texts hold no lone surrogate, its integers are not too
long, its objects name each member once, and its containers nest at most `depth` deep. -/
inductive Value.Plain : ℕ → Value → Prop where
  | null {depth : ℕ} : Plain depth .null
  | bool {depth : ℕ} (b : Bool) : Plain depth (.bool b)
  | int {depth : ℕ} {n : ℤ} (h : n.natAbs < 10 ^ integerLimit) : Plain depth (.int n)
  | str {depth : ℕ} {t : Text} (h : t.Scalar) : Plain depth (.str t)
  | arr {depth : ℕ} {vs : List Value} (h : ∀ v ∈ vs, Plain depth v) : Plain (depth + 1) (.arr vs)
  | obj {depth : ℕ} {ms : List (Text × Value)} (hn : (ms.map Prod.fst).Nodup)
      (hk : ∀ m ∈ ms, m.1.Scalar) (h : ∀ m ∈ ms, Plain depth m.2) : Plain (depth + 1) (.obj ms)

theorem Value.Plain.mono {d d' : ℕ} {v : Value} (h : v.Plain d) (hd : d ≤ d') : v.Plain d' := by
  induction h generalizing d' with
  | null => exact .null
  | bool b => exact .bool b
  | int h => exact .int h
  | str h => exact .str h
  | arr _ ih =>
    obtain ⟨d', rfl⟩ := Nat.exists_eq_add_one.mpr (Nat.zero_lt_of_lt hd)
    exact .arr fun v hv => ih v hv (Nat.le_of_succ_le_succ hd)
  | obj hn hk _ ih =>
    obtain ⟨d', rfl⟩ := Nat.exists_eq_add_one.mpr (Nat.zero_lt_of_lt hd)
    exact .obj hn hk fun m hm => ih m hm (Nat.le_of_succ_le_succ hd)

theorem object_of_nodup {ms : List (Text × Value)} (h : (ms.map Prod.fst).Nodup) :
    Value.object ms = .obj ms := by
  rw [Value.object, OrderedMap.ofList_of_nodup h]

theorem WrittenWithin.of_written (depth : ℕ) (h : ∀ I, Written I v t) :
    WrittenWithin depth v t := by
  cases depth <;> exact h _

theorem memberText_quoted {I : Value → Text → Prop} {m : Text × Value} {w : Text}
    (hk : m.1.Scalar) (hw : I m.2 w) : MemberText I m (quoted m.1 ++ ": " ++ w) :=
  ⟨_, [], [.char ' '], _, stringText_quoted hk, spaces_nil, by simp [Spaces, isSpace], hw,
    by simp [Text.ofString]⟩

theorem written_members (layout : Layout) (level : ℕ) (f : Text × Value → Text) {depth : ℕ}
    {m : Text × Value} {ms : List (Text × Value)} (hn : ((m :: ms).map Prod.fst).Nodup)
    (h : ∀ u ∈ m :: ms, MemberText (WrittenWithin depth) u (f u)) :
    WrittenWithin (depth + 1) (.obj (m :: ms)) (.char '\x7b' :: (layout.lineBreak (level + 1) ++
      (f m ++ (ms.flatMap (fun u => layout.separator (level + 1) ++ f u) ++
        (layout.lineBreak level ++ [.char '\x7d']))))) := by
  rw [← object_of_nodup hn]
  exact .object rfl (spaces_lineBreak layout (level + 1))
    (listed_of_separated _ layout (level + 1) (spaces_lineBreak layout level) h)

theorem Value.Plain.written {depth : ℕ} (h : v.Plain depth) (layout : Layout) (level : ℕ) :
    WrittenWithin depth v (v.write layout level) := by
  induction h generalizing level with
  | null => exact .of_written _ fun _ => .literal (by simp [literals, Value.write])
  | bool b => exact .of_written _ fun _ => .literal (by cases b <;> simp [literals, Value.write])
  | int h => exact .of_written _ fun _ => .number (numberText_ofInt h)
  | str h => exact .of_written _ fun _ => .string (stringText_quoted h)
  | @arr depth vs h ih =>
    cases vs with
    | nil => exact .emptyArray rfl spaces_nil
    | cons v vs =>
      have hl := listed_of_separated (.char ']') layout (level + 1) (spaces_lineBreak layout level)
        (fun u hu => ih u hu (level + 1))
      have ht := Written.array rfl (spaces_lineBreak layout (level + 1)) hl
      rw [Value.write, writeItems_eq]
      simpa [WrittenWithin, Text.ofString] using ht
  | @obj depth ms hn hk h ih =>
    cases ms with
    | nil => exact .emptyObject rfl spaces_nil
    | cons m ms =>
      have ht := written_members layout level (writeMember layout (level + 1)) hn
        fun u hu => memberText_quoted (hk u hu) (ih u hu (level + 1))
      rw [Value.write, writeMembers_eq]
      simpa [writeMember, Text.ofString] using ht

variable [Nesting]

/-- A plain value is read back from its text, on one line or over lines. -/
theorem read_write (h : v.Plain depthLimit) (layout : Layout) :
    read (v.write layout 0) = .ok v :=
  read_eq_ok_iff.mpr ⟨[], _, [], spaces_nil, spaces_nil, h.written layout 0, by simp⟩

/-- An object with one text for a member is read back as such, also if lone surrogates in the
text join. -/
theorem exists_read_write (hd : 0 < depthLimit) (hk : s.Scalar) (t : Text) (layout : Layout) :
    ∃ u, read ((Value.obj [(s, .str t)]).write layout 0) = .ok (.obj [(s, .str u)]) := by
  obtain ⟨u, hu⟩ := exists_spells t
  obtain ⟨depth, hdepth⟩ := Nat.exists_eq_add_one.mpr hd
  have hm : ∀ m ∈ [(s, Value.str u)],
      MemberText (WrittenWithin depth) m (quoted s ++ ": " ++ quoted t) := by
    intro m hm
    cases List.mem_singleton.mp hm
    exact memberText_quoted hk (.of_written _ fun _ => .string ⟨_, hu, rfl⟩)
  have ht := written_members layout 0 (fun _ => quoted s ++ ": " ++ quoted t) (by simp) hm
  rw [← hdepth] at ht
  refine ⟨u, read_eq_ok_iff.mpr ⟨[], _, [], spaces_nil, spaces_nil, ht, ?_⟩⟩
  simp [Value.write, writeMembers, Text.ofString]

end Workbench.Json
