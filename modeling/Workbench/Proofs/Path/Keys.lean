import Mathlib.Logic.Relation
import Workbench.Proofs.Path.Within

/-! # Identities of roots

The identity of a root has one leading slash or two, and behind them only names, so it is
told by its text. Spellings that differ in slashes, in `.` and in detours have one identity,
except that exactly two leading slashes are another beginning than one.
-/

namespace Workbench.Path

variable {dir k p q t : Text}

/-! ## The working directory -/

def absoluteFrom (dir t : Text) : Text := normal (join dir t)

def keyFrom (dir t : Text) : Text := normal (absoluteFrom dir t)

theorem rootKey_eq_keyFrom [WorkingDirectory] (t : Text) : rootKey t = keyFrom workingDirectory t :=
  rfl

theorem keyFrom_eq_absoluteFrom (dir t : Text) : keyFrom dir t = absoluteFrom dir t :=
  normal_normal _

theorem keyFrom_eq_render (hd : isAbsolute dir) (t : Text) :
    keyFrom dir t = render (leading (join dir t)) (resolve true (components (join dir t))) := by
  rw [keyFrom_eq_absoluteFrom, absoluteFrom, normal_eq, isAbsolute_join hd]

/-! ## The form of identities -/

/-- One leading slash or exactly two, and behind them nothing, or names between slashes. -/
def IsKey (k : Text) : Prop :=
  ∃ n rest, (n = 1 ∨ n = 2) ∧ k = slashes n ++ rest ∧
    (rest = [] ∨ ∀ c ∈ pieces rest, c ≠ [] ∧ c ≠ dot ∧ c ≠ dotDot)

theorem leading_eq_of_isAbsolute (h : isAbsolute t) : leading t = 1 ∨ leading t = 2 := by
  have hpos : 0 < leading t := of_decide_eq_true h
  have hle := leading_le t
  omega

theorem isKey_render {n : ℕ} {cs : List Text} (hn : n = 1 ∨ n = 2) (hc : ∀ c ∈ cs, IsName c)
    (hd : dotDot ∉ cs) : IsKey (render n cs) := by
  refine ⟨n, Text.join [slash] cs, hn, render_of_pos (by omega) cs, ?_⟩
  by_cases hnil : cs = []
  · exact .inl (hnil ▸ rfl)
  · right
    rw [pieces, Text.splitOn_join (fun c h => (hc c h).slash_not_mem) hnil]
    intro c h
    exact ⟨(hc c h).ne_nil, (hc c h).ne_dot, fun he => hd (he ▸ h)⟩

theorem isKey_keyFrom (hd : isAbsolute dir) (t : Text) : IsKey (keyFrom dir t) := by
  rw [keyFrom_eq_render hd]
  apply isKey_render
  · exact leading_eq_of_isAbsolute (isAbsolute_join hd t)
  · exact fun c hc => isName_of_mem_components (mem_of_mem_resolve hc)
  · exact dotDot_not_mem_resolve _

theorem IsKey.exists_render (h : IsKey k) : ∃ n cs, (n = 1 ∨ n = 2) ∧ (∀ c ∈ cs, IsName c) ∧
    dotDot ∉ cs ∧ k = render n cs := by
  obtain ⟨n, rest, hn, rfl, hr⟩ := h
  have hpos : 0 < n := by omega
  rcases hr with rfl | hr
  · exact ⟨n, [], hn, nofun, List.not_mem_nil, (render_of_pos hpos []).symm⟩
  · refine ⟨n, pieces rest, hn, ?_, fun hm => (hr _ hm).2.2 rfl, ?_⟩
    · exact fun c hc => ⟨Text.not_mem_of_mem_splitOn hc, (hr c hc).1, (hr c hc).2.1⟩
    · rw [render_of_pos hpos, pieces, Text.splitOn_eq_listSplitOn, Text.join,
        List.intercalate_splitOn]

theorem IsKey.keyFrom_eq (h : IsKey k) (dir : Text) : keyFrom dir k = k := by
  obtain ⟨n, cs, hn, hc, hd, rfl⟩ := h.exists_render
  have hl : leading (render n cs) = n := leading_render (by omega) hc
  have ha : isAbsolute (render n cs) := by
    rw [isAbsolute, hl]
    exact decide_eq_true (by omega)
  rw [keyFrom_eq_absoluteFrom, absoluteFrom, join_of_isAbsolute ha, normal_eq, ha, hl,
    components_render hc, resolve, foldl_resolveStep_names true hd, List.append_nil,
    List.reverse_reverse]

theorem isKey_iff_keyFrom_eq (hd : isAbsolute dir) : IsKey k ↔ keyFrom dir k = k := by
  constructor
  · exact fun h => h.keyFrom_eq dir
  · intro h
    rw [← h]
    exact isKey_keyFrom hd k

theorem IsKey.eq_slash_of_getLast? (h : IsKey k) (hl : k.getLast? = some slash) :
    ∀ c ∈ k, c = slash := by
  obtain ⟨n, rest, -, rfl, hr⟩ := h
  rcases hr with rfl | hr
  · rw [List.append_nil]
    exact fun c hc => List.eq_of_mem_replicate hc
  · rcases List.eq_nil_or_concat' rest with rfl | ⟨front, c, rfl⟩
    · exact absurd rfl (hr [] List.mem_cons_self).1
    · rw [← List.append_assoc, List.getLast?_concat] at hl
      obtain rfl := Option.some.inj hl
      have hm : [] ∈ pieces (front ++ [slash]) := by
        rw [pieces, Text.splitOn_append_cons]
        exact List.mem_append_right _ List.mem_cons_self
      exact absurd rfl (hr [] hm).1

structure IsKeyOf (dir t k : Text) : Prop where
  form : IsKey k
  ending : k.getLast? = some slash → ∀ c ∈ k, c = slash
  settled : keyFrom dir k = k
  absolute : k = absoluteFrom dir t

theorem isKeyOf_keyFrom (hd : isAbsolute dir) (t : Text) : IsKeyOf dir t (keyFrom dir t) where
  form := isKey_keyFrom hd t
  ending := (isKey_keyFrom hd t).eq_slash_of_getLast?
  settled := (isKey_keyFrom hd t).keyFrom_eq dir
  absolute := keyFrom_eq_absoluteFrom dir t

/-! ## Respelling -/

/-- One way to spell the same directory otherwise: a slash is doubled, `.` or a detour into
another directory and back is put before a slash, or a slash is put at the end. -/
inductive Respelled : Text → Text → Prop where

  | double (a b : Text) : Respelled (a ++ slash :: b) (a ++ slash :: slash :: b)

  | here (a b : Text) : Respelled (a ++ slash :: b) (a ++ slash :: dot ++ slash :: b)

  | detour (a b : Text) {x : Text} : IsName x → x ≠ dotDot →
      Respelled (a ++ slash :: b) (a ++ slash :: x ++ slash :: dotDot ++ slash :: b)

  | trailing {p : Text} : p ≠ [] → Respelled p (p ++ [slash])

/-- Exactly two leading slashes, which are kept. -/
def DoubleSlashed (t : Text) : Prop := ∃ rest, t = slashes 2 ++ rest ∧ rest.head? ≠ some slash

/-- Two spellings lead the same way: from the same beginning, whatever has been resolved. -/
structure SameWay (p q : Text) : Prop where
  anchored : isAbsolute p = isAbsolute q
  foldl : ∀ anchored st, (components p).foldl (resolveStep anchored) st =
    (components q).foldl (resolveStep anchored) st

theorem isAbsolute_append_slash (a b c : Text) :
    isAbsolute (a ++ slash :: b) = isAbsolute (a ++ slash :: c) := by
  rw [Bool.eq_iff_iff, isAbsolute_iff, isAbsolute_iff]
  cases a <;> rfl

theorem components_of_isName {x : Text} (h : IsName x) : components x = [x] := by
  have hx : ∀ c ∈ [x], IsName c := by
    simpa using h
  have hj := components_join hx
  rwa [Text.join, List.intercalate_singleton] at hj

theorem foldl_detour (anchored : Bool) (st : List Text) {x : Text} (h : x ≠ dotDot) :
    [x, dotDot].foldl (resolveStep anchored) st = st := by
  rw [List.foldl_cons, List.foldl_cons, List.foldl_nil, resolveStep_name h, resolveStep_cons,
    if_neg h]

namespace SameWay

theorem of_components (h : isAbsolute p = isAbsolute q) (hc : components p = components q) :
    SameWay p q :=
  ⟨h, fun _ _ => by rw [hc]⟩

theorem of_respelled (h : Respelled p q) : SameWay p q := by
  cases h with
  | double a b =>
    refine .of_components (isAbsolute_append_slash a _ _) ?_
    rw [components_append_slash, components_append_slash]
    exact congrArg _ (components_append_slash [] b).symm
  | here a b =>
    apply of_components
    · rw [List.append_assoc]
      exact isAbsolute_append_slash a _ _
    · rw [components_append_slash, components_append_slash, components_append_slash]
      exact congrArg (· ++ _) (List.append_nil _).symm
  | detour a b hx hne =>
    constructor
    · rw [List.append_assoc, List.append_assoc]
      exact isAbsolute_append_slash a _ _
    · intro anchored st
      have hd : components dotDot = [dotDot] := by decide
      rw [components_append_slash, components_append_slash, components_append_slash,
        components_append_slash, components_of_isName hx, hd, List.append_assoc _ [_] [_],
        List.foldl_append, List.foldl_append, List.foldl_append, List.singleton_append,
        foldl_detour anchored _ hne]
  | trailing hp =>
    refine .of_components ?_ (components_concat_slash p).symm
    obtain ⟨c, p, rfl⟩ := List.exists_cons_of_ne_nil hp
    rw [Bool.eq_iff_iff, isAbsolute_iff, isAbsolute_iff]
    rfl

theorem of_eqvGen (h : Relation.EqvGen Respelled p q) : SameWay p q := by
  induction h with
  | rel _ _ hr => exact .of_respelled hr
  | refl => exact ⟨rfl, fun _ _ => rfl⟩
  | symm _ _ _ ih => exact ⟨ih.anchored.symm, fun a st => (ih.foldl a st).symm⟩
  | trans _ _ _ _ _ ih₁ ih₂ =>
    exact ⟨ih₁.anchored.trans ih₂.anchored, fun a st => (ih₁.foldl a st).trans (ih₂.foldl a st)⟩

theorem resolve_join (h : SameWay p q) (dir : Text) :
    resolve true (components (join dir p)) = resolve true (components (join dir q)) := by
  rw [resolve, resolve]
  by_cases hp : isAbsolute p
  · rw [join_of_isAbsolute hp, join_of_isAbsolute (h.anchored ▸ hp), h.foldl]
  · rw [components_join_relative hp, components_join_relative (h.anchored ▸ hp),
      List.foldl_append, List.foldl_append, h.foldl]

end SameWay

theorem doubleSlashed_iff : DoubleSlashed t ↔ leading t = 2 := by
  constructor
  · rintro ⟨rest, rfl, hr⟩
    exact leading_slashes hr (Nat.le_refl 2)
  · intro h
    have hl : (t.takeWhile (· == slash)).length = 2 := by
      unfold leading at h
      split at h <;> omega
    have hs : t.takeWhile (· == slash) = slashes 2 := by
      refine List.eq_replicate_iff.mpr ⟨hl, fun c hc => ?_⟩
      simpa using List.mem_takeWhile_imp hc
    refine ⟨t.dropWhile (· == slash), ?_, ?_⟩
    · rw [← hs, List.takeWhile_append_dropWhile]
    · intro hh
      have hnot := List.head?_dropWhile_not (· == slash) t
      rw [hh] at hnot
      simp at hnot

theorem leading_join_eq_iff (h : SameWay p q) (dir : Text) :
    leading (join dir p) = leading (join dir q) ↔ (DoubleSlashed p ↔ DoubleSlashed q) := by
  rw [doubleSlashed_iff, doubleSlashed_iff]
  by_cases hp : isAbsolute p
  · have hq : isAbsolute q := h.anchored ▸ hp
    rw [join_of_isAbsolute hp, join_of_isAbsolute hq]
    rcases leading_eq_of_isAbsolute hp with hp | hp <;>
      rcases leading_eq_of_isAbsolute hq with hq | hq <;> simp [hp, hq]
  · have hq : ¬ isAbsolute q := h.anchored ▸ hp
    rw [leading_join hp, leading_join hq]
    simp only [isAbsolute, decide_eq_true_eq] at hp hq
    simp [Nat.eq_zero_of_not_pos hp, Nat.eq_zero_of_not_pos hq]

/-- Spellings of one directory have one identity just if exactly two leading slashes are
kept of both or of neither. -/
theorem keyFrom_eq_iff (h : Relation.EqvGen Respelled p q) (hd : isAbsolute dir) :
    keyFrom dir p = keyFrom dir q ↔ (DoubleSlashed p ↔ DoubleSlashed q) := by
  have hs := SameWay.of_eqvGen h
  -- What is resolved is the same in any case, so it is the leading slashes that decide.
  rw [← leading_join_eq_iff hs dir, keyFrom_eq_render hd, keyFrom_eq_render hd,
    ← hs.resolve_join dir]
  constructor
  · intro he
    have hn (c : Text) (hc : c ∈ resolve true (components (join dir p))) : IsName c :=
      isName_of_mem_components (mem_of_mem_resolve hc)
    rw [← leading_render (leading_le (join dir p)) hn, he, leading_render (leading_le _) hn]
  · intro he
    rw [he]

end Workbench.Path
