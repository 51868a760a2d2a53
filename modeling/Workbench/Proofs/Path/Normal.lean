import Mathlib.Tactic.IntervalCases
import Workbench.Path.Name
import Workbench.Proofs.Text.Pieces

/-! # Normal paths are settled

A path is its leading slashes and its components, and both can be read off its normal
form again. The components of a normal form have nothing left to resolve, so the normal
form of a normal form is the same, and so is the identity of a root.
-/

namespace Workbench.Path

structure IsName (c : Text) : Prop where
  slash_not_mem : slash ∉ c
  ne_nil : c ≠ []
  ne_dot : c ≠ dot

theorem isName_of_mem_components {t c : Text} (h : c ∈ components t) : IsName c := by
  obtain ⟨hp, hc⟩ := List.mem_filter.mp h
  rw [Bool.and_eq_true, bne_iff_ne, bne_iff_ne] at hc
  exact ⟨Text.not_mem_of_mem_splitOn hp, hc.1, hc.2⟩

/-! ## Reading a path -/

theorem takeWhile_slashes {j : Text} (h : j.head? ≠ some slash) (n : ℕ) :
    (slashes n ++ j).takeWhile (· == slash) = slashes n := by
  induction n with
  | zero =>
    cases j with
    | nil => rfl
    | cons c j => exact List.takeWhile_cons_of_neg (by simpa using h)
  | succ n ih =>
    rw [slashes, List.replicate_succ, List.cons_append, List.takeWhile_cons_of_pos (by simp)]
    exact congrArg _ ih

theorem leading_slashes {j : Text} (h : j.head? ≠ some slash) {n : ℕ} (hn : n ≤ 2) :
    leading (slashes n ++ j) = n := by
  rw [leading, takeWhile_slashes h, slashes, List.length_replicate]
  interval_cases n <;> rfl

theorem components_slashes (n : ℕ) (j : Text) : components (slashes n ++ j) = components j := by
  induction n with
  | zero => rfl
  | succ n ih =>
    rw [← ih, slashes, List.replicate_succ, List.cons_append, components, pieces]
    rw [show slash :: (List.replicate n slash ++ j) = [] ++ slash :: (slashes n ++ j) from rfl,
      Text.splitOn_append_cons, List.filter_append]
    rfl

theorem leading_le (t : Text) : leading t ≤ 2 := by
  unfold leading
  split <;> omega

theorem isAbsolute_iff {t : Text} : isAbsolute t ↔ t.head? = some slash := by
  have key : isAbsolute t ↔ t.takeWhile (· == slash) ≠ [] := by
    rw [isAbsolute, decide_eq_true_iff, leading]
    split
    · next h => simp [List.length_eq_zero_iff.mp h]
    · next h => exact iff_of_true (by decide) (fun hn => by simp [hn] at h)
    · next h _ => exact iff_of_true (by decide) (fun hn => h (by simp [hn]))
  rw [key]
  cases t with
  | nil => simp
  | cons c t => by_cases h : c = slash <;> simp [h]

theorem head?_join {cs : List Text} (h : ∀ c ∈ cs, IsName c) :
    (Text.join [slash] cs).head? ≠ some slash := by
  cases cs with
  | nil => exact nofun
  | cons c cs =>
    have hc := h c List.mem_cons_self
    obtain ⟨x, c, rfl⟩ := List.exists_cons_of_ne_nil hc.ne_nil
    have hx : x ≠ slash := fun hx => hc.slash_not_mem (hx ▸ List.mem_cons_self)
    cases cs <;> simpa [Text.join, List.intercalate] using hx

theorem components_join {cs : List Text} (h : ∀ c ∈ cs, IsName c) :
    components (Text.join [slash] cs) = cs := by
  by_cases hn : cs = []
  · rw [hn]
    rfl
  · rw [components, pieces, Text.splitOn_join (fun c hc => (h c hc).slash_not_mem) hn,
      List.filter_eq_self]
    intro c hc
    simp [(h c hc).ne_nil, (h c hc).ne_dot]

def render (n : ℕ) (cs : List Text) : Text := PathName.text ⟨n, cs⟩

theorem leading_render {n : ℕ} {cs : List Text} (hn : n ≤ 2) (h : ∀ c ∈ cs, IsName c) :
    leading (render n cs) = n := by
  have hl := leading_slashes (head?_join h) hn
  rw [render, PathName.text]
  split
  · next he => rw [he] at hl; exact hl
  · exact hl

theorem components_render {n : ℕ} {cs : List Text} (h : ∀ c ∈ cs, IsName c) :
    components (render n cs) = cs := by
  have hc := (components_slashes n _).trans (components_join h)
  rw [render, PathName.text]
  split
  · next he => rw [he] at hc; exact hc
  · exact hc

/-! ## Resolving -/

theorem resolveStep_name {anchored : Bool} {st : List Text} {c : Text} (h : c ≠ dotDot) :
    resolveStep anchored st c = c :: st := if_neg h

theorem resolveStep_nil (anchored : Bool) :
    resolveStep anchored [] dotDot = if anchored then [] else [dotDot] := rfl

theorem resolveStep_cons (anchored : Bool) (top : Text) (rest : List Text) :
    resolveStep anchored (top :: rest) dotDot =
      if top = dotDot then dotDot :: top :: rest else rest := rfl

theorem foldl_resolveStep_names (anchored : Bool) {cs : List Text} (h : dotDot ∉ cs)
    (st : List Text) : cs.foldl (resolveStep anchored) st = cs.reverse ++ st := by
  induction cs generalizing st with
  | nil => rfl
  | cons c cs ih =>
    rw [List.mem_cons, not_or] at h
    rw [List.foldl_cons, resolveStep_name (Ne.symm h.1), ih h.2, List.reverse_cons,
      List.append_assoc]
    rfl

theorem foldl_resolveStep_dotDots (k : ℕ) :
    (List.replicate k dotDot).foldl (resolveStep false) [] = List.replicate k dotDot := by
  induction k with
  | zero => rfl
  | succ k ih =>
    rw [List.replicate_succ', List.foldl_append, ih, ← List.replicate_succ']
    cases k <;> rfl

/-- A stack holds names on top of what cannot be resolved, and of that there is nothing
in an absolute path. -/
def IsStack (anchored : Bool) (st : List Text) : Prop :=
  ∃ names k, st = names ++ List.replicate k dotDot ∧ dotDot ∉ names ∧ (anchored → k = 0)

theorem IsStack.step {anchored : Bool} {st : List Text} (h : IsStack anchored st) (c : Text) :
    IsStack anchored (resolveStep anchored st c) := by
  obtain ⟨names, k, rfl, hn, hk⟩ := h
  by_cases hc : c = dotDot
  · subst hc
    cases names with
    | cons top names =>
      rw [List.mem_cons, not_or] at hn
      rw [List.cons_append, resolveStep_cons, if_neg (Ne.symm hn.1)]
      exact ⟨names, k, rfl, hn.2, hk⟩
    | nil =>
      cases k with
      | zero =>
        cases anchored with
        | true => exact ⟨[], 0, rfl, hn, hk⟩
        | false => exact ⟨[], 1, rfl, hn, nofun⟩
      | succ k =>
        have ha : anchored = false := by
          cases anchored with
          | true => exact absurd (hk rfl) (Nat.succ_ne_zero k)
          | false => rfl
        subst ha
        exact ⟨[], k + 2, rfl, hn, nofun⟩
  · rw [resolveStep_name hc]
    exact ⟨c :: names, k, rfl, by simp [Ne.symm hc, hn], hk⟩

theorem isStack_foldl {anchored : Bool} (cs : List Text) {st : List Text}
    (h : IsStack anchored st) : IsStack anchored (cs.foldl (resolveStep anchored) st) := by
  induction cs generalizing st with
  | nil => exact h
  | cons c cs ih => exact ih (h.step c)

theorem isStack_nil (anchored : Bool) : IsStack anchored [] :=
  ⟨[], 0, rfl, List.not_mem_nil, fun _ => rfl⟩

/-- A stack that is read from the bottom builds itself again. -/
theorem IsStack.resolve_reverse {anchored : Bool} {st : List Text} (h : IsStack anchored st) :
    resolve anchored st.reverse = st.reverse := by
  obtain ⟨names, k, rfl, hn, hk⟩ := h
  have hr : dotDot ∉ names.reverse := by simpa using hn
  have hd : (List.replicate k dotDot).foldl (resolveStep anchored) [] =
      List.replicate k dotDot := by
    cases anchored with
    | true => rw [hk rfl]; rfl
    | false => exact foldl_resolveStep_dotDots k
  rw [resolve, List.reverse_append, List.reverse_replicate, List.foldl_append, hd,
    foldl_resolveStep_names anchored hr, List.reverse_reverse, List.reverse_append,
    List.reverse_replicate]

theorem resolve_resolve (anchored : Bool) (cs : List Text) :
    resolve anchored (resolve anchored cs) = resolve anchored cs :=
  (isStack_foldl cs (isStack_nil anchored)).resolve_reverse

theorem dotDot_not_mem_resolve (cs : List Text) : dotDot ∉ resolve true cs := by
  obtain ⟨names, k, he, hn, hk⟩ := isStack_foldl cs (isStack_nil true)
  rw [resolve, he, hk rfl]
  simpa using hn

theorem mem_of_mem_resolveStep {anchored : Bool} {st : List Text} {c d : Text}
    (h : d ∈ resolveStep anchored st c) : d = c ∨ d ∈ st := by
  by_cases hc : c = dotDot
  · subst hc
    cases st with
    | nil =>
      rw [resolveStep_nil] at h
      split_ifs at h
      · exact .inr h
      · exact List.mem_cons.mp h
    | cons top rest =>
      rw [resolveStep_cons] at h
      split_ifs at h
      · exact List.mem_cons.mp h
      · exact .inr (List.mem_cons_of_mem _ h)
  · rw [resolveStep_name hc] at h
    exact List.mem_cons.mp h

theorem mem_of_mem_resolve {anchored : Bool} {cs : List Text} {c : Text}
    (h : c ∈ resolve anchored cs) : c ∈ cs := by
  have key : ∀ st : List Text, c ∈ cs.foldl (resolveStep anchored) st → c ∈ cs ∨ c ∈ st := by
    clear h
    induction cs with
    | nil => exact fun _ => .inr
    | cons d cs ih =>
      intro st hc
      rcases ih _ hc with hm | hm
      · exact .inl (List.mem_cons_of_mem _ hm)
      · rcases mem_of_mem_resolveStep hm with rfl | hm
        · exact .inl List.mem_cons_self
        · exact .inr hm
  exact (key [] (List.mem_reverse.mp h)).resolve_right List.not_mem_nil

/-! ## Normal forms -/

theorem normal_eq (t : Text) :
    normal t = render (leading t) (resolve (isAbsolute t) (components t)) := rfl

theorem isName_of_mem_resolve {t c : Text} (h : c ∈ resolve (isAbsolute t) (components t)) :
    IsName c :=
  isName_of_mem_components (mem_of_mem_resolve h)

theorem leading_normal (t : Text) : leading (normal t) = leading t := by
  rw [normal_eq, leading_render (leading_le t) fun _ => isName_of_mem_resolve]

theorem isAbsolute_normal (t : Text) : isAbsolute (normal t) = isAbsolute t := by
  rw [isAbsolute, leading_normal, isAbsolute]

theorem components_normal (t : Text) :
    components (normal t) = resolve (isAbsolute t) (components t) := by
  rw [normal_eq, components_render fun _ => isName_of_mem_resolve]

theorem normal_normal (t : Text) : normal (normal t) = normal t := by
  rw [normal_eq (normal t), leading_normal, isAbsolute_normal, components_normal,
    resolve_resolve, normal_eq]

/-! ## Absolute paths -/

theorem isAbsolute_append {a : Text} (h : isAbsolute a) (b : Text) : isAbsolute (a ++ b) := by
  rw [isAbsolute_iff] at h ⊢
  rw [List.head?_append, h]
  rfl

theorem isAbsolute_join {dir : Text} (hd : isAbsolute dir) (t : Text) :
    isAbsolute (join dir t) := by
  unfold join
  split_ifs with h
  · exact h
  · exact isAbsolute_append hd t
  · exact isAbsolute_append (isAbsolute_append hd _) t

theorem join_of_isAbsolute {dir t : Text} (h : isAbsolute t) : join dir t = t := if_pos h

variable [WorkingDirectory]

theorem isAbsolute_absolute (t : Text) : isAbsolute (absolute t) := by
  rw [absolute, isAbsolute_normal]
  exact isAbsolute_join isAbsolute_workingDirectory t

theorem rootKey_eq_absolute (t : Text) : rootKey t = absolute t := normal_normal _

theorem rootKey_absolute (t : Text) : rootKey (absolute t) = rootKey t := by
  rw [rootKey_eq_absolute, rootKey_eq_absolute, absolute,
    join_of_isAbsolute (isAbsolute_absolute t)]
  exact normal_normal _

theorem absolute_absolute (t : Text) : absolute (absolute t) = absolute t := by
  rw [← rootKey_eq_absolute (absolute t), rootKey_absolute, rootKey_eq_absolute]

theorem rootKey_rootKey (t : Text) : rootKey (rootKey t) = rootKey t := by
  rw [rootKey_eq_absolute t, rootKey_absolute, rootKey_eq_absolute]

end Workbench.Path
