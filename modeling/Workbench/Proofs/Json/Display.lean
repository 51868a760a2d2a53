import Workbench.Json.Display
import Workbench.Json.Writer
import Workbench.Proofs.Text.Scalar

/-! # Shown values hold no lone surrogate

What is shown of a value is made of its texts, of numerals and of ASCII. So no surrogate stands
alone in it, unless one does in a text of the value.
-/

namespace Workbench

variable {t : Text}

namespace Text

theorem scalar_quotedAs (q c : Char) : Scalar (CodePoint.quotedAs q (.char c)) := by
  unfold CodePoint.quotedAs
  dsimp only
  split_ifs <;> simp

theorem scalar_quoted (h : t.Scalar) : t.quoted.Scalar := by
  unfold quoted
  dsimp only
  rw [List.cons_append, scalar_char_cons, scalar_append]
  refine ⟨scalar_flatMap fun c hc => ?_, by simp⟩
  cases c with
  | char c => exact scalar_quotedAs _ c
  | surrogate s => exact absurd hc (h s)

end Text

/-! ## Numbers -/

namespace Decimal

theorem scalar_figures (d : Decimal) : d.figures.Scalar := by
  unfold figures
  split
  · simp
  · refine (Text.scalar_ofNat d.digits).mono fun c hc => ?_
    exact List.mem_reverse.mp ((List.dropWhile_sublist _).subset (List.mem_reverse.mp hc))

theorem scalar_exponentText (e : ℤ) : Text.Scalar (exponentText e) := by
  unfold exponentText
  split_ifs <;> simp

theorem scalar_scientific (d : Decimal) : d.scientific.Scalar := by
  have hf := d.scalar_figures
  unfold scientific
  split
  · simp
  · next c hc =>
    rw [hc] at hf
    rw [Text.scalar_cons]
    simp [hf, scalar_exponentText]
  · next c cs _ hc =>
    rw [hc, Text.scalar_cons] at hf
    rw [List.cons_append, Text.scalar_cons]
    simp [hf.1, hf.2, scalar_exponentText]

theorem scalar_positional (d : Decimal) : d.positional.Scalar := by
  have hf := d.scalar_figures
  unfold positional
  dsimp only
  split_ifs
  · simp [hf]
  · simp [hf]
  · have ht : Text.Scalar (d.figures.take d.point.toNat) := hf.mono fun _ => List.mem_of_mem_take
    have hd : Text.Scalar (d.figures.drop d.point.toNat) := hf.mono fun _ => List.mem_of_mem_drop
    simp [ht, hd]

end Decimal

theorem Binary64.scalar_text (x : Binary64) : x.text.Scalar := by
  unfold text
  split
  · simp
  · split_ifs <;> simp
  · dsimp only
    split_ifs <;> simp [Decimal.scalar_scientific, Decimal.scalar_positional]

/-! ## Written values -/

namespace Json

theorem scalar_unitEscape (n : ℕ) : (unitEscape n).Scalar := by
  simp [unitEscape]

theorem scalar_escaped (c : CodePoint) : (escaped c).Scalar := by
  fun_cases escaped c with
  | case8 n _ _ _ _ _ _ _ hp =>
    rintro s hs
    cases List.mem_singleton.mp hs
    simp only [n, CodePoint.val] at hp
    omega
  | case9 => exact scalar_unitEscape _
  | case10 => simp [scalar_unitEscape]
  | _ => simp

theorem scalar_quoted (t : Text) : (quoted t).Scalar := by
  simp [quoted, Text.scalar_flatMap fun c _ => scalar_escaped c]

theorem scalar_lineBreak (layout : Layout) (level : ℕ) : (layout.lineBreak level).Scalar := by
  cases layout <;> simp [Layout.lineBreak]

theorem scalar_separator (layout : Layout) (level : ℕ) : (layout.separator level).Scalar := by
  cases layout <;> simp [Layout.separator, scalar_lineBreak]

theorem scalar_floatText (x : Binary64) : (floatText x).Scalar := by
  unfold floatText
  split
  · simp
  · split_ifs <;> simp
  · exact x.scalar_text

mutual

/-- What is written can be sent, also if surrogates stand alone in the value. -/
theorem scalar_write (layout : Layout) (level : ℕ) (v : Value) :
    (v.write layout level).Scalar := by
  match v with
  | .null => simp [Value.write]
  | .bool b => cases b <;> simp [Value.write]
  | .int n => simp [Value.write]
  | .float x => exact scalar_floatText x
  | .str t => exact scalar_quoted t
  | .arr [] => simp [Value.write]
  | .arr (v :: vs) =>
    simp [Value.write, scalar_lineBreak, scalar_write layout (level + 1) v,
      scalar_writeItems layout (level + 1) vs]
  | .obj [] => simp [Value.write]
  | .obj ((k, v) :: ms) =>
    simp [Value.write, scalar_lineBreak, scalar_quoted, scalar_write layout (level + 1) v,
      scalar_writeMembers layout (level + 1) ms]

theorem scalar_writeItems (layout : Layout) (level : ℕ) (vs : List Value) :
    (writeItems layout level vs).Scalar := by
  match vs with
  | [] => simp [writeItems]
  | v :: vs =>
    simp [writeItems, scalar_separator, scalar_write layout level v,
      scalar_writeItems layout level vs]

theorem scalar_writeMembers (layout : Layout) (level : ℕ) (ms : List (Text × Value)) :
    (writeMembers layout level ms).Scalar := by
  match ms with
  | [] => simp [writeMembers]
  | (k, v) :: ms =>
    simp [writeMembers, scalar_separator, scalar_quoted, scalar_write layout level v,
      scalar_writeMembers layout level ms]

end

/-! ## Shown values -/

/-- No surrogate stands alone in a text inside the value. -/
inductive Value.Scalar : Value → Prop where
  | null : Scalar .null
  | bool (b : Bool) : Scalar (.bool b)
  | int (n : ℤ) : Scalar (.int n)
  | float (x : Binary64) : Scalar (.float x)
  | str {t : Text} (h : t.Scalar) : Scalar (.str t)
  | arr {vs : List Value} (h : ∀ v ∈ vs, Scalar v) : Scalar (.arr vs)
  | obj {ms : List (Text × Value)} (hk : ∀ m ∈ ms, m.1.Scalar) (h : ∀ m ∈ ms, Scalar m.2) :
      Scalar (.obj ms)

theorem scalar_displayItems {vs : List Value} (h : ∀ v ∈ vs, v.display.Scalar) :
    (displayItems vs).Scalar := by
  induction vs with
  | nil => simp [displayItems]
  | cons v vs ih =>
    rw [List.forall_mem_cons] at h
    simp [displayItems, h.1, ih h.2]

theorem scalar_displayMembers {ms : List (Text × Value)} (hk : ∀ m ∈ ms, m.1.Scalar)
    (h : ∀ m ∈ ms, m.2.display.Scalar) : (displayMembers ms).Scalar := by
  induction ms with
  | nil => simp [displayMembers]
  | cons m ms ih =>
    rw [List.forall_mem_cons] at hk h
    simp [displayMembers, Text.scalar_quoted hk.1, h.1, ih hk.2 h.2]

namespace Value.Scalar

variable {v : Value}

theorem display (h : v.Scalar) : v.display.Scalar := by
  induction h with
  | null => simp [Value.display]
  | bool b => cases b <;> simp [Value.display, displayConstant]
  | int n => simp [Value.display]
  | float x => exact x.scalar_text
  | str h => exact Text.scalar_quoted h
  | @arr vs _ ih =>
    cases vs with
    | nil => simp [Value.display]
    | cons v vs =>
      rw [List.forall_mem_cons] at ih
      simp [Value.display, ih.1, scalar_displayItems ih.2]
  | @obj ms hk _ ih =>
    cases ms with
    | nil => simp [Value.display]
    | cons m ms =>
      rw [List.forall_mem_cons] at hk ih
      simp [Value.display, Text.scalar_quoted hk.1, ih.1, scalar_displayMembers hk.2 ih.2]

theorem shown (h : v.Scalar) : v.shown.Scalar := by
  cases h with
  | str h => exact h
  | null => exact Scalar.null.display
  | bool b => exact (Scalar.bool b).display
  | int n => exact (Scalar.int n).display
  | float x => exact (Scalar.float x).display
  | arr h => exact (Scalar.arr h).display
  | obj hk h => exact (Scalar.obj hk h).display

end Value.Scalar

end Json

end Workbench
