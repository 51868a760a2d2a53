import Workbench.Proofs.Record.Classification

/-! # Coordinates have few digits

The reader gives up on an integer of too many digits, and what else counts for an integer does
not count for one that is longer. So the coordinates of a record that was read are below a power
of ten.
-/

namespace Workbench

open Json (Value WrittenWithin Written Listed)
open Workbench.Field (Members lookup Counts LaxIntegers)

variable {ms : Members} {s t line name : Text} {v : Value}

/-! ## Integers of a value that was read -/

namespace Json

/-- The integers in a value are not too long for the reader. -/
inductive Value.Bounded : Value → Prop where
  | null : Bounded .null
  | bool (b : Bool) : Bounded (.bool b)
  | int {n : ℤ} (h : n.natAbs < 10 ^ integerLimit) : Bounded (.int n)
  | float (x : Binary64) : Bounded (.float x)
  | str (t : Text) : Bounded (.str t)
  | arr {vs : List Value} (h : ∀ v ∈ vs, Bounded v) : Bounded (.arr vs)
  | obj {ms : List (Text × Value)} (h : ∀ m ∈ ms, Bounded m.2) : Bounded (.obj ms)

theorem NumberText.bounded (h : NumberText v s) : v.Bounded := by
  obtain ⟨hw, -, -, hv⟩ := h
  unfold numberOf at hv
  split at hv
  · split at hv
    · cases hv
    · next hlen =>
      cases hv
      have hlt := Text.digitsVal_lt hw.1
      have hle := Nat.pow_le_pow_right (by decide : 10 > 0) (Nat.le_of_not_lt hlen)
      refine .int ?_
      split <;> omega
  · cases hv
    exact .float _

theorem bounded_of_literal (h : (s, v) ∈ literals) : v.Bounded := by
  simp only [literals, List.mem_cons, Prod.mk.injEq, List.not_mem_nil, or_false] at h
  rcases h with ⟨-, rfl⟩ | ⟨-, rfl⟩ | ⟨-, rfl⟩ | ⟨-, rfl⟩ | ⟨-, rfl⟩ | ⟨-, rfl⟩ <;> constructor

theorem Listed.exists_text {α : Type} {closing : CodePoint} {I : α → Text → Prop} {xs : List α}
    (h : Listed closing I xs s) : ∀ x ∈ xs, ∃ t, I x t := by
  induction h with
  | last hx =>
    rw [List.forall_mem_singleton]
    exact ⟨_, hx⟩
  | more hx _ _ _ ih => exact List.forall_mem_cons.mpr ⟨⟨_, hx⟩, ih⟩

theorem Written.bounded {inner : Option (Value → Text → Prop)} (h : Written inner v s)
    (hi : ∀ I, inner = some I → ∀ v s, I v s → v.Bounded) : v.Bounded := by
  cases h with
  | string => exact .str _
  | literal hs => exact bounded_of_literal hs
  | number hs => exact hs.bounded
  | emptyArray => exact .arr nofun
  | emptyObject => exact .obj nofun
  | array he _ hu =>
    refine .arr fun v hv => ?_
    obtain ⟨t, ht⟩ := hu.exists_text v hv
    exact hi _ he v t ht
  | object he _ hu =>
    refine .obj fun m hm => ?_
    obtain ⟨t, name, -, -, u, -, -, -, hu, -⟩ := hu.exists_text m (OrderedMap.mem_ofList hm)
    exact hi _ he m.2 u hu

theorem WrittenWithin.bounded {depth : ℕ} (h : WrittenWithin depth v s) : v.Bounded := by
  induction depth generalizing v s with
  | zero => exact Written.bounded h nofun
  | succ depth ih =>
    refine Written.bounded h ?_
    rintro I ⟨⟩ v s hv
    exact ih hv

theorem bounded_of_read [Nesting] (h : read s = .ok v) : v.Bounded := by
  obtain ⟨_, _, _, _, _, hv, _⟩ := read_eq_ok_iff.mp h
  exact hv.bounded

end Json

/-! ## Coordinates -/

theorem Field.Counts.natAbs_lt [Field.Coercion] (hlax : LaxIntegers) {n : ℤ} (h : Counts v n)
    (hv : v.Bounded) : n.natAbs < 10 ^ Json.integerLimit := by
  rcases hlax.size ((integer_eq_ok_iff hlax).mpr h) with ⟨m, rfl⟩ | hsize
  · cases h
    cases hv with
    | int h => exact h
  · exact hsize

structure Range.Bounded (r : Range) : Prop where
  lineStart : r.lineStart < 10 ^ Json.integerLimit
  colStart : r.colStart < 10 ^ Json.integerLimit
  lineEnd : r.lineEnd < 10 ^ Json.integerLimit
  colEnd : r.colEnd < 10 ^ Json.integerLimit

theorem bounded_of_lookup (h : (Value.obj ms).Bounded) (hl : lookup ms name = some v) :
    v.Bounded := by
  cases h with
  | obj h => exact h _ (OrderedMap.mem_of_get? hl)

theorem HasCoordinate.lt [Field.Coercion] (hlax : LaxIntegers) {n : ℕ}
    (h : HasCoordinate ms name n) (hms : (Value.obj ms).Bounded) :
    n < 10 ^ Json.integerLimit := by
  obtain ⟨v, hl, hc⟩ := h
  exact hc.natAbs_lt hlax (bounded_of_lookup hms hl)

theorem HasRange.bounded [Field.Coercion] (hlax : LaxIntegers) {r : Range}
    (h : HasRange ms name r) (hms : (Value.obj ms).Bounded) :
    r.Bounded := by
  obtain ⟨inner, hl, hls, hcs, hle, hce⟩ := h
  have hi := bounded_of_lookup hms hl
  exact ⟨hls.lt hlax hi, hcs.lt hlax hi, hle.lt hlax hi, hce.lt hlax hi⟩

def Record.Bounded : Record → Prop
  | .diagnostic r => r.range.Bounded
  | .symbol r => r.range.Bounded
  | .log _ => True
  | .unknown .. => True

theorem bounded_of_ofLine [Json.Nesting] [Field.Coercion] (hlax : LaxIntegers) {r : Record}
    (h : Item.ofLine line = .ok (.record r)) : r.Bounded := by
  obtain ⟨ms, hr, hs⟩ := (ofLine_record_iff hlax).mp h
  have hms := Json.bounded_of_read hr
  cases hs with
  | diagnostic _ _ hr => exact hr.bounded hlax hms
  | symbol _ _ _ _ _ hr => exact hr.bounded hlax hms
  | log | unknown => trivial

end Workbench
