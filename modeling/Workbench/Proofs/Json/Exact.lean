import Workbench.Proofs.Json.Tokens

/-! # Texts of one value are read exactly

A reader of values is exact if it takes off the front just what has the form of a value, wherever
a value may end behind it. Containers keep exactness of what is in them, so by induction on the
depth every value is read exactly, and with it the whole text.
-/

namespace Workbench.Json

open Text (Opens)

variable {s t u r after sp : Text} {v : Value} {n : ℕ}

/-! ## Spaces -/

theorem skipSpace_append (hsp : Spaces sp) (hr : Opens (fun c => !isSpace c) r) :
    skipSpace (sp ++ r) = r :=
  Text.dropWhile_append_of_opens hsp hr

theorem exists_spaces (s : Text) : ∃ sp, Spaces sp ∧ s = sp ++ skipSpace s :=
  ⟨s.takeWhile isSpace, fun _ => List.mem_takeWhile_imp, List.takeWhile_append_dropWhile.symm⟩

/-! ## What a reader of values is to do -/

def startsValue (c : CodePoint) : Bool :=
  !isSpace c && c != ']' && c != '\x7d' && c != '\uFEFF'

def Starts (t : Text) : Prop := ∃ c rest, t = c :: rest ∧ startsValue c

theorem Starts.append (h : Starts t) (r : Text) : Starts (t ++ r) := by
  obtain ⟨c, rest, rfl, hc⟩ := h
  exact ⟨c, rest ++ r, rfl, hc⟩

theorem Starts.not_space (h : Starts t) : Opens (fun c => !isSpace c) t := by
  obtain ⟨c, rest, rfl, hc⟩ := h
  simp only [startsValue, Bool.and_eq_true] at hc
  exact Text.opens_cons.mpr hc.1.1.1

theorem Starts.ne_cons (h : Starts t) {c : CodePoint} (hc : startsValue c = false) (r : Text) :
    t ≠ c :: r := by
  obtain ⟨d, rest, rfl, hd⟩ := h
  rintro ⟨⟩
  cases hc.symm.trans hd

/-- The reader takes off the front what has the form, and nothing else. -/
structure Exact (item : Reader Value) (I : Value → Text → Prop) : Prop where
  starts {v : Value} {t : Text} : I v t → Starts t
  sound {s : Text} {v : Value} {r : Rest s} : item s = .ok (v, r) → ∃ t, I v t ∧ s = t ++ r.1
  complete {v : Value} {t r : Text} : I v t → Opens endsValue r →
    ∃ r', item (t ++ r) = .ok (v, r') ∧ r'.1 = r

theorem opens_behind (hsp : Spaces sp) (hr : Opens endsValue r) : Opens endsValue (sp ++ r) := by
  cases sp with
  | nil => exact hr
  | cons c sp =>
    have hc : isSpace c := hsp c List.mem_cons_self
    exact Text.opens_cons.mpr (by simp [endsValue, hc])

section Containers

variable {item : Reader Value} {I : Value → Text → Prop}

theorem Listed.starts {α : Type} {closing : CodePoint} {J : α → Text → Prop} {xs : List α}
    (hJ : ∀ {x t}, J x t → Starts t) (hu : Listed closing J xs u) : Starts u := by
  cases hu <;> exact (hJ ‹_›).append _

/-! ## Elements -/

theorem Exact.elements_sound (hi : Exact item I) {hs : s.length ≤ n} {acc vs : List Value}
    {r : {r : Text // r.length < n}} (h : elements item n s hs acc = .ok (vs, r)) :
    ∃ us u, Listed (.char ']') I us u ∧ s = u ++ r.1 ∧ vs = acc.reverse ++ us := by
  fun_induction elements item n s hs acc with
  | case1 | case4 => cases h
  | case2 s _ acc v rest _ hv after hc =>
    cases h
    obtain ⟨t, ht, hs⟩ := hi.sound hv
    obtain ⟨sp, hsp, hrest⟩ := exists_spaces rest
    rw [hc] at hrest
    refine ⟨[v], _, .last ht hsp, ?_, by simp⟩
    simp [hs, hrest]
  | case3 s _ acc v rest _ hv after hc _ ih =>
    obtain ⟨us, u, hu, hrest', rfl⟩ := ih h
    obtain ⟨t, ht, hs⟩ := hi.sound hv
    obtain ⟨sp, hsp, hrest⟩ := exists_spaces rest
    obtain ⟨sp', hsp', hafter⟩ := exists_spaces after
    rw [hc] at hrest
    rw [hrest'] at hafter
    refine ⟨v :: us, _, .more ht hsp hsp' hu, ?_, by simp⟩
    simp [hs, hrest, hafter]

theorem elements_last {r : Rest s} (acc : List Value) (hv : item s = .ok (v, r))
    (hc : skipSpace r.1 = .char ']' :: after) (hs : s.length ≤ n) :
    ∃ r', elements item n s hs acc = .ok ((v :: acc).reverse, r') ∧ r'.1 = after := by
  rw [elements]
  split
  · next h => cases hv.symm.trans h
  · next h =>
    cases hv.symm.trans h
    split
    · next h =>
      cases hc.symm.trans h
      exact ⟨_, rfl, rfl⟩
    · next h => cases hc.symm.trans h
    · next h _ => exact absurd hc (h after)

theorem elements_more {r : Rest s} {acc : List Value} (hv : item s = .ok (v, r))
    (hc : skipSpace r.1 = .char ',' :: after) (ha : skipSpace after = u) (hs : s.length ≤ n)
    (hu : u.length ≤ n) :
    elements item n s hs acc = elements item n u hu (v :: acc) := by
  subst ha
  conv_lhs => unfold elements
  split
  · next h => cases hv.symm.trans h
  · next h =>
    cases hv.symm.trans h
    split
    · next h => cases hc.symm.trans h
    · next h =>
      cases hc.symm.trans h
      rfl
    · next h => exact absurd hc (h after)

theorem Exact.elements_complete (hi : Exact item I) {us : List Value}
    (hu : Listed (.char ']') I us u) (acc : List Value) (hs : (u ++ r).length ≤ n) :
    ∃ r', elements item n (u ++ r) hs acc = .ok (acc.reverse ++ us, r') ∧ r'.1 = r := by
  induction hu generalizing acc with
  | @last v t sp ht hsp =>
    have htext : t ++ (sp ++ [.char ']']) ++ r = t ++ (sp ++ .char ']' :: r) := by simp
    -- The bound is on the length of the text, so it is put aside while the text is regrouped.
    revert hs
    rw [htext]
    intro hs
    obtain ⟨r', hv, hr'⟩ := hi.complete ht
      (opens_behind (r := .char ']' :: r) hsp (Text.opens_cons.mpr (by decide)))
    have hc : skipSpace r'.1 = .char ']' :: r := by
      rw [hr', skipSpace_append hsp (Text.opens_cons.mpr (by decide))]
    obtain ⟨r'', hl, hr''⟩ := elements_last acc hv hc hs
    exact ⟨r'', by simpa using hl, hr''⟩
  | @more v us t sp sp' u ht hsp hsp' hu ih =>
    have htext : t ++ (sp ++ .char ',' :: (sp' ++ u)) ++ r =
        t ++ (sp ++ .char ',' :: (sp' ++ (u ++ r))) := by simp
    revert hs
    rw [htext]
    intro hs
    obtain ⟨r', hv, hr'⟩ := hi.complete ht
      (opens_behind (r := .char ',' :: (sp' ++ (u ++ r))) hsp (Text.opens_cons.mpr (by decide)))
    have hc : skipSpace r'.1 = .char ',' :: (sp' ++ (u ++ r)) := by
      rw [hr', skipSpace_append hsp (Text.opens_cons.mpr (by decide))]
    have ha : skipSpace (sp' ++ (u ++ r)) = u ++ r :=
      skipSpace_append hsp' ((hu.starts hi.starts).append r).not_space
    have hlen : (u ++ r).length ≤ n := by
      simp only [List.length_append, List.length_cons] at hs ⊢
      omega
    obtain ⟨r'', hl, hr''⟩ := ih (v :: acc) hlen
    rw [elements_more hv hc ha hs hlen]
    exact ⟨r'', by simpa using hl, hr''⟩

/-! ## Members -/

theorem memberName_sound {name : Text} {r : Rest s} (h : memberName s = .ok (name, r)) :
    ∃ t sp sp', StringText name t ∧ Spaces sp ∧ Spaces sp' ∧
      s = t ++ (sp ++ .char ':' :: (sp' ++ r.1)) := by
  unfold memberName at h
  split at h
  · split at h
    · cases h
    · next rest _ r _ hr =>
      split at h
      · next after hc =>
        cases h
        obtain ⟨body, t, hb, hs, ht⟩ := stringFrom_sound hr
        obtain ⟨sp, hsp, hrest⟩ := exists_spaces r
        obtain ⟨sp', hsp', hafter⟩ := exists_spaces after
        rw [hc] at hrest
        refine ⟨_, sp, sp', ⟨body, ?_, rfl⟩, hsp, hsp', ?_⟩
        · simpa [ht] using hb
        · simp only [List.cons_append, List.append_assoc, List.nil_append]
          rw [← hafter, ← hrest]
          exact congrArg _ hs
      · cases h
  · cases h

theorem memberName_of_string {name rest : Text} {hl : rest.length ≤ rest.length}
    {r : {r : Text // r.length < rest.length}} (hs : s = .char '"' :: rest)
    (hr : stringFrom s.length rest.length rest hl [] = .ok (name, r))
    (hc : skipSpace r.1 = .char ':' :: after) :
    ∃ r', memberName s = .ok (name, r') ∧ r'.1 = skipSpace after := by
  unfold memberName
  split
  · cases hs
    split
    · next h => cases hr.symm.trans h
    · next h =>
      cases hr.symm.trans h
      split
      · next h =>
        cases hc.symm.trans h
        exact ⟨_, rfl, rfl⟩
      · next h => exact absurd hc (h _)
  · next h => exact absurd hs (h _)

theorem memberName_complete {name sp' : Text} (ht : StringText name t) (hsp : Spaces sp)
    (hsp' : Spaces sp') (hr : Opens (fun c => !isSpace c) r) :
    ∃ r', memberName (t ++ (sp ++ .char ':' :: (sp' ++ r))) = .ok (name, r') ∧ r'.1 = r := by
  obtain ⟨body, hb, rfl⟩ := ht
  obtain ⟨r', hs, hr'⟩ := stringFrom_complete (r := sp ++ .char ':' :: (sp' ++ r)) hb []
    (Nat.le_refl _)
  have hc : skipSpace r'.1 = .char ':' :: (sp' ++ r) := by
    rw [hr', skipSpace_append hsp (Text.opens_cons.mpr (by decide))]
  have htext : .char '"' :: (body ++ [.char '"']) ++ (sp ++ .char ':' :: (sp' ++ r)) =
      .char '"' :: (body ++ .char '"' :: (sp ++ .char ':' :: (sp' ++ r))) := by simp
  obtain ⟨r'', hm, hr''⟩ := memberName_of_string htext hs hc
  exact ⟨r'', hm, hr''.trans (skipSpace_append hsp' hr)⟩

theorem MemberText.starts {m : Text × Value} (hm : MemberText I m s) : Starts s := by
  obtain ⟨name, sp, sp', u, ⟨body, -, rfl⟩, -, -, -, rfl⟩ := hm
  exact ⟨_, _, rfl, rfl⟩

theorem Exact.members_sound (hi : Exact item I) {hs : s.length ≤ n} {acc ms : List (Text × Value)}
    {r : {r : Text // r.length < n}} (h : members item n s hs acc = .ok (ms, r)) :
    ∃ us u, Listed (.char '\x7d') (MemberText I) us u ∧ s = u ++ r.1 ∧ ms = acc.reverse ++ us := by
  fun_induction members item n s hs acc with
  | case1 | case2 | case5 => cases h
  | case3 s _ acc name start _ hn v rest _ hv after hc =>
    cases h
    obtain ⟨k, sp₁, sp₂, hk, hsp₁, hsp₂, hs⟩ := memberName_sound hn
    obtain ⟨t, ht, hstart⟩ := hi.sound hv
    obtain ⟨sp, hsp, hrest⟩ := exists_spaces rest
    rw [hc] at hrest
    refine ⟨[(name, v)], _, .last ⟨k, sp₁, sp₂, t, hk, hsp₁, hsp₂, ht, rfl⟩ hsp, ?_, by simp⟩
    simp [hs, hstart, hrest]
  | case4 s _ acc name start _ hn v rest _ hv after hc _ ih =>
    obtain ⟨us, u, hu, hrest', rfl⟩ := ih h
    obtain ⟨k, sp₁, sp₂, hk, hsp₁, hsp₂, hs⟩ := memberName_sound hn
    obtain ⟨t, ht, hstart⟩ := hi.sound hv
    obtain ⟨sp, hsp, hrest⟩ := exists_spaces rest
    obtain ⟨sp', hsp', hafter⟩ := exists_spaces after
    rw [hc] at hrest
    rw [hrest'] at hafter
    refine ⟨(name, v) :: us, _,
      .more ⟨k, sp₁, sp₂, t, hk, hsp₁, hsp₂, ht, rfl⟩ hsp hsp' hu, ?_, by simp⟩
    simp [hs, hstart, hrest, hafter]

section Steps

variable {name : Text} {start : Rest s} {r : Rest start.1} {acc : List (Text × Value)}

theorem members_last (acc : List (Text × Value)) (hn : memberName s = .ok (name, start))
    (hv : item start.1 = .ok (v, r)) (hc : skipSpace r.1 = .char '\x7d' :: after)
    (hs : s.length ≤ n) :
    ∃ r', members item n s hs acc = .ok (((name, v) :: acc).reverse, r') ∧ r'.1 = after := by
  rw [members]
  split
  · next h => cases hn.symm.trans h
  · next h =>
    cases hn.symm.trans h
    split
    · next h => cases hv.symm.trans h
    · next h =>
      cases hv.symm.trans h
      split
      · next h =>
        cases hc.symm.trans h
        exact ⟨_, rfl, rfl⟩
      · next h => cases hc.symm.trans h
      · next h _ => exact absurd hc (h after)

theorem members_more (hn : memberName s = .ok (name, start)) (hv : item start.1 = .ok (v, r))
    (hc : skipSpace r.1 = .char ',' :: after) (ha : skipSpace after = u) (hs : s.length ≤ n)
    (hu : u.length ≤ n) :
    members item n s hs acc = members item n u hu ((name, v) :: acc) := by
  subst ha
  conv_lhs => unfold members
  split
  · next h => cases hn.symm.trans h
  · next h =>
    cases hn.symm.trans h
    split
    · next h => cases hv.symm.trans h
    · next h =>
      cases hv.symm.trans h
      split
      · next h => cases hc.symm.trans h
      · next h =>
        cases hc.symm.trans h
        rfl
      · next h => exact absurd hc (h after)

end Steps

theorem Exact.member_complete (hi : Exact item I) {m : Text × Value} (hm : MemberText I m t)
    (hr : Opens endsValue r) : ∃ (start : Rest (t ++ r)) (r' : Rest start.1),
      memberName (t ++ r) = .ok (m.1, start) ∧ item start.1 = .ok (m.2, r') ∧ r'.1 = r := by
  obtain ⟨k, sp, sp', u, hk, hsp, hsp', hu, rfl⟩ := hm
  have htext : k ++ (sp ++ .char ':' :: (sp' ++ u)) ++ r =
      k ++ (sp ++ .char ':' :: (sp' ++ (u ++ r))) := by simp
  rw [htext]
  obtain ⟨⟨start, hlt⟩, hn, rfl⟩ :=
    memberName_complete hk hsp hsp' ((hi.starts hu).append r).not_space
  obtain ⟨r', hv, hr'⟩ := hi.complete hu hr
  exact ⟨_, r', hn, hv, hr'⟩

theorem Exact.members_complete (hi : Exact item I) {us : List (Text × Value)}
    (hu : Listed (.char '\x7d') (MemberText I) us u) (acc : List (Text × Value))
    (hs : (u ++ r).length ≤ n) :
    ∃ r', members item n (u ++ r) hs acc = .ok (acc.reverse ++ us, r') ∧ r'.1 = r := by
  induction hu generalizing acc with
  | @last m t sp hm hsp =>
    have htext : t ++ (sp ++ [.char '\x7d']) ++ r = t ++ (sp ++ .char '\x7d' :: r) := by simp
    revert hs
    rw [htext]
    intro hs
    obtain ⟨start, r', hn, hv, hr'⟩ := hi.member_complete hm
      (opens_behind (r := .char '\x7d' :: r) hsp (Text.opens_cons.mpr (by decide)))
    have hc : skipSpace r'.1 = .char '\x7d' :: r := by
      rw [hr', skipSpace_append hsp (Text.opens_cons.mpr (by decide))]
    obtain ⟨r'', hl, hr''⟩ := members_last acc hn hv hc hs
    exact ⟨r'', by simpa using hl, hr''⟩
  | @more m us t sp sp' u hm hsp hsp' hu ih =>
    have htext : t ++ (sp ++ .char ',' :: (sp' ++ u)) ++ r =
        t ++ (sp ++ .char ',' :: (sp' ++ (u ++ r))) := by simp
    revert hs
    rw [htext]
    intro hs
    obtain ⟨start, r', hn, hv, hr'⟩ := hi.member_complete hm
      (opens_behind (r := .char ',' :: (sp' ++ (u ++ r))) hsp (Text.opens_cons.mpr (by decide)))
    have hc : skipSpace r'.1 = .char ',' :: (sp' ++ (u ++ r)) := by
      rw [hr', skipSpace_append hsp (Text.opens_cons.mpr (by decide))]
    have ha : skipSpace (sp' ++ (u ++ r)) = u ++ r :=
      skipSpace_append hsp' ((hu.starts MemberText.starts).append r).not_space
    have hlen : (u ++ r).length ≤ n := by
      simp only [List.length_append, List.length_cons] at hs ⊢
      omega
    obtain ⟨r'', hl, hr''⟩ := ih (m :: acc) hlen
    rw [members_more hn hv hc ha hs hlen]
    exact ⟨r'', by simpa using hl, hr''⟩

/-! ## Arrays and objects -/

theorem array_of_close (item : Reader Value) (hc : skipSpace s = .char ']' :: after) :
    ∃ r', array item s = .ok (.arr [], r') ∧ r'.1 = after := by
  unfold array
  split
  · next h =>
    cases hc.symm.trans h
    exact ⟨_, rfl, rfl⟩
  · next h => exact absurd hc (h _)

theorem array_of_elements {vs : List Value} {r : {r : Text // r.length < s.length + 1}}
    {ht : t.length ≤ s.length + 1} (hc : skipSpace s = t) (hs : Starts t)
    (hv : elements item (s.length + 1) t ht [] = .ok (vs, r)) :
    array item s = .ok (.arr vs, r) := by
  subst hc
  unfold array
  split
  · next h => exact absurd h (hs.ne_cons (by decide) _)
  · rw [hv]
    rfl

theorem Exact.array_sound (hi : Exact item I) {r : {r : Text // r.length < s.length + 1}}
    (h : array item s = .ok (v, r)) :
    ∃ t, Written (some I) v (.char '[' :: t) ∧ s = t ++ r.1 := by
  obtain ⟨sp, hsp, hs⟩ := exists_spaces s
  unfold array at h
  split at h
  · next hc =>
    cases h
    rw [hc] at hs
    exact ⟨_, .emptyArray rfl hsp, by simpa using hs⟩
  · obtain ⟨⟨vs, r'⟩, hv, heq⟩ := of_map_eq_ok h
    cases heq
    obtain ⟨us, u, hu, hrest, rfl⟩ := hi.elements_sound hv
    rw [hrest] at hs
    exact ⟨_, .array rfl hsp hu, by simpa using hs⟩

theorem Exact.array_complete (hi : Exact item I) {vs : List Value} (hsp : Spaces sp)
    (hu : Listed (.char ']') I vs u) (r : Text) :
    ∃ r', array item (sp ++ (u ++ r)) = .ok (.arr vs, r') ∧ r'.1 = r := by
  have hstarts := (hu.starts hi.starts).append r
  have hlen : (u ++ r).length ≤ (sp ++ (u ++ r)).length + 1 := by
    simp only [List.length_append]
    omega
  obtain ⟨r', hv, hr'⟩ := hi.elements_complete hu [] hlen
  exact ⟨r', array_of_elements (skipSpace_append hsp hstarts.not_space) hstarts hv, hr'⟩

theorem object_of_close (item : Reader Value) (hc : skipSpace s = .char '\x7d' :: after) :
    ∃ r', object item s = .ok (.obj [], r') ∧ r'.1 = after := by
  unfold object
  split
  · next h =>
    cases hc.symm.trans h
    exact ⟨_, rfl, rfl⟩
  · next h => exact absurd hc (h _)

theorem object_of_members {ms : List (Text × Value)} {r : {r : Text // r.length < s.length + 1}}
    {ht : t.length ≤ s.length + 1} (hc : skipSpace s = t) (hs : Starts t)
    (hm : members item (s.length + 1) t ht [] = .ok (ms, r)) :
    object item s = .ok (Value.object ms, r) := by
  subst hc
  unfold object
  split
  · next h => exact absurd h (hs.ne_cons (by decide) _)
  · rw [hm]
    rfl

theorem Exact.object_sound (hi : Exact item I) {r : {r : Text // r.length < s.length + 1}}
    (h : object item s = .ok (v, r)) :
    ∃ t, Written (some I) v (.char '\x7b' :: t) ∧ s = t ++ r.1 := by
  obtain ⟨sp, hsp, hs⟩ := exists_spaces s
  unfold object at h
  split at h
  · next hc =>
    cases h
    rw [hc] at hs
    exact ⟨_, .emptyObject rfl hsp, by simpa using hs⟩
  · obtain ⟨⟨ms, r'⟩, hm, heq⟩ := of_map_eq_ok h
    cases heq
    obtain ⟨us, u, hu, hrest, rfl⟩ := hi.members_sound hm
    rw [hrest] at hs
    exact ⟨_, .object rfl hsp hu, by simpa using hs⟩

theorem Exact.object_complete (hi : Exact item I) {ms : List (Text × Value)} (hsp : Spaces sp)
    (hu : Listed (.char '\x7d') (MemberText I) ms u) (r : Text) :
    ∃ r', object item (sp ++ (u ++ r)) = .ok (Value.object ms, r') ∧ r'.1 = r := by
  have hstarts := (hu.starts MemberText.starts).append r
  have hlen : (u ++ r).length ≤ (sp ++ (u ++ r)).length + 1 := by
    simp only [List.length_append]
    omega
  obtain ⟨r', hm, hr'⟩ := hi.members_complete hu [] hlen
  exact ⟨r', object_of_members (skipSpace_append hsp hstarts.not_space) hstarts hm, hr'⟩

end Containers

/-! ## Values -/

section Values

variable {inner : Option (Reader Value)} {J : Option (Value → Text → Prop)}

theorem NumberText.head (ht : NumberText v t) :
    ∃ c rest, t = c :: rest ∧ (c = .char '-' ∨ c.isDigit) := by
  obtain @⟨negative, whole, frac, ft, et, e, v, hw, hf, he, hv⟩ := ht
  obtain ⟨c, ds, rfl, hdigit⟩ := head_isDigit hw.1
  cases negative with
  | true => exact ⟨_, _, rfl, .inl rfl⟩
  | false => exact ⟨c, _, rfl, .inr hdigit⟩

theorem NumberText.starts (ht : NumberText v t) : Starts t := by
  obtain ⟨c, rest, rfl, rfl | hdigit⟩ := ht.head
  · exact ⟨_, _, rfl, rfl⟩
  · have hne {x : Char} (hx : x.isDigit = false) : c ≠ .char x :=
      CodePoint.ne_of_isDigit hdigit hx
    refine ⟨c, _, rfl, ?_⟩
    simp only [startsValue, isSpace, bne_iff_ne, Bool.and_eq_true, Bool.not_eq_true',
      Bool.or_eq_false_iff, beq_eq_false_iff_ne]
    exact ⟨⟨⟨⟨⟨⟨hne rfl, hne rfl⟩, hne rfl⟩, hne rfl⟩, hne rfl⟩, hne rfl⟩, hne (by decide)⟩

theorem Written.starts (h : Written J v t) : Starts t := by
  cases h with
  | string hs =>
    obtain ⟨body, -, rfl⟩ := hs
    exact ⟨_, _, rfl, rfl⟩
  | literal hs =>
    rcases mem_literals_iff.mp hs with
        ⟨rfl, -⟩ | ⟨rfl, -⟩ | ⟨rfl, -⟩ | ⟨rfl, -⟩ | ⟨rfl, -⟩ | ⟨rfl, -⟩ <;>
      exact ⟨_, _, rfl, rfl⟩
  | number hs => exact hs.starts
  | emptyArray | array | emptyObject | object => exact ⟨_, _, rfl, rfl⟩

theorem valueWith_sound (hi : Option.Rel Exact inner J) {r : Rest s}
    (h : valueWith inner s = .ok (v, r)) : ∃ t, Written J v t ∧ s = t ++ r.1 := by
  unfold valueWith at h
  split at h
  · obtain ⟨⟨t, r'⟩, ht, heq⟩ := of_map_eq_ok h
    cases heq
    obtain ⟨body, u, hb, hs, rfl⟩ := stringFrom_sound ht
    exact ⟨_, .string ⟨body, by simpa using hb, rfl⟩, by simp [hs]⟩
  · cases hi with
    | none => cases h
    | some hi =>
      obtain ⟨t, ht, hs⟩ := hi.array_sound h
      exact ⟨_, ht, congrArg _ hs⟩
  · cases hi with
    | none => cases h
    | some hi =>
      obtain ⟨t, ht, hs⟩ := hi.object_sound h
      exact ⟨_, ht, congrArg _ hs⟩
  · split at h
    · next hl =>
      cases h
      obtain ⟨t, ht, hs⟩ := literal_sound hl
      exact ⟨t, .literal ht, hs⟩
    · obtain ⟨t, ht, hs⟩ := number_sound h
      exact ⟨t, .number ht, hs⟩

theorem valueWith_quote (inner : Option (Reader Value)) (rest : Text) :
    valueWith inner (.char '"' :: rest) =
      (stringFrom (rest.length + 1) (rest.length + 1) rest (Nat.le_succ _) []).map
        fun r => (.str r.1, r.2) := rfl

theorem valueWith_bracket (item : Reader Value) (rest : Text) :
    valueWith (some item) (.char '[' :: rest) = array item rest := rfl

theorem valueWith_brace (item : Reader Value) (rest : Text) :
    valueWith (some item) (.char '\x7b' :: rest) = object item rest := rfl

theorem valueWith_other (inner : Option (Reader Value)) (hq : s.head? ≠ some (.char '"'))
    (hb : s.head? ≠ some (.char '[')) (ho : s.head? ≠ some (.char '\x7b')) :
    valueWith inner s = match literal? s with
      | some r => .ok r
      | none => number s := by
  unfold valueWith
  split
  · exact absurd rfl hq
  · exact absurd rfl hb
  · exact absurd rfl ho
  · rfl

theorem head?_of_literal (h : (t, v) ∈ literals) {c : Char}
    (hc : ∀ l ∈ literals, l.1 ≠ [] ∧ l.1.head? ≠ some (.char c)) (r : Text) :
    (t ++ r).head? ≠ some (.char c) := by
  rw [List.head?_append_of_ne_nil _ (hc (t, v) h).1]
  exact (hc (t, v) h).2

theorem NumberText.head? (h : NumberText v t) {c : Char} (hc : c ≠ '-') (hd : c.isDigit = false)
    (r : Text) : (t ++ r).head? ≠ some (.char c) := by
  obtain ⟨d, rest, rfl, rfl | hdigit⟩ := h.head
  · simpa using Ne.symm hc
  · simpa using CodePoint.ne_of_isDigit hdigit hd

theorem valueWith_complete (hi : Option.Rel Exact inner J) (ht : Written J v t)
    (hr : Opens endsValue r) : ∃ r', valueWith inner (t ++ r) = .ok (v, r') ∧ r'.1 = r := by
  cases ht with
  | string hs =>
    obtain ⟨body, hb, rfl⟩ := hs
    have htext : .char '"' :: (body ++ [.char '"']) ++ r =
        .char '"' :: (body ++ .char '"' :: r) := by simp
    rw [htext]
    obtain ⟨r', hs, hr'⟩ := stringFrom_complete (r := r) hb [] (Nat.le_succ _)
    rw [valueWith_quote, hs]
    exact ⟨r', rfl, hr'⟩
  | literal hs =>
    obtain ⟨r', hl, hr'⟩ := literal_complete hs r
    rw [valueWith_other inner (head?_of_literal hs (by decide) r)
      (head?_of_literal hs (by decide) r) (head?_of_literal hs (by decide) r), hl]
    exact ⟨r', rfl, hr'⟩
  | number hs =>
    rw [valueWith_other inner (hs.head? (by decide) (by decide) r)
      (hs.head? (by decide) (by decide) r) (hs.head? (by decide) (by decide) r),
      literal_of_number hs]
    exact number_complete hs hr
  | @emptyArray I sp hJ hsp =>
    subst hJ
    cases hi with | @some item _ hi =>
    have htext : .char '[' :: (sp ++ [.char ']']) ++ r = .char '[' :: (sp ++ .char ']' :: r) := by
      simp
    rw [htext, valueWith_bracket]
    exact array_of_close item (skipSpace_append hsp (Text.opens_cons.mpr (by decide)))
  | @array I vs sp u hJ hsp hu =>
    subst hJ
    cases hi with | @some item _ hi =>
    rw [List.cons_append, List.append_assoc, valueWith_bracket]
    exact hi.array_complete hsp hu r
  | @emptyObject I sp hJ hsp =>
    subst hJ
    cases hi with | @some item _ hi =>
    have htext : .char '\x7b' :: (sp ++ [.char '\x7d']) ++ r =
        .char '\x7b' :: (sp ++ .char '\x7d' :: r) := by simp
    rw [htext, valueWith_brace]
    exact object_of_close item (skipSpace_append hsp (Text.opens_cons.mpr (by decide)))
  | @object I ms sp u hJ hsp hu =>
    subst hJ
    cases hi with | @some item _ hi =>
    rw [List.cons_append, List.append_assoc, valueWith_brace]
    exact hi.object_complete hsp hu r

theorem exact_valueWith (hi : Option.Rel Exact inner J) : Exact (valueWith inner) (Written J) where
  starts := Written.starts
  sound := valueWith_sound hi
  complete := valueWith_complete hi

end Values

/-- Values that nest to any limited depth are read exactly. -/
theorem exact_value (depth : ℕ) : Exact (value depth) (WrittenWithin depth) := by
  induction depth with
  | zero => exact exact_valueWith .none
  | succ depth ih => exact exact_valueWith (.some ih)

/-! ## Whole texts -/

theorem Starts.not_mark {lead : Text} (hl : Spaces lead) (ht : Starts t) :
    ¬ (lead ++ t).head? = some (.char '\uFEFF') := by
  intro h
  cases lead with
  | nil =>
    obtain ⟨rest, hrest⟩ := List.head?_eq_some_iff.mp h
    exact ht.ne_cons rfl rest hrest
  | cons c lead =>
    have hc := hl c List.mem_cons_self
    rw [Option.some.inj h] at hc
    exact absurd hc (by decide)

variable [Nesting]

theorem read_of_value {r : Rest t} (hmark : ¬ s.head? = some (.char '\uFEFF'))
    (hs : skipSpace s = t) (hv : value depthLimit t = .ok (v, r)) (hnil : skipSpace r.1 = []) :
    read s = .ok v := by
  subst hs
  rw [read, if_neg hmark, hv]
  dsimp only
  rw [hnil]

theorem holds_of_read (h : read s = .ok v) : Holds v s := by
  obtain ⟨lead, hl, hs⟩ := exists_spaces s
  unfold read at h
  split at h
  · cases h
  · split at h
    · cases h
    · next r hr =>
      obtain ⟨t, ht, hbody⟩ := (exact_value depthLimit).sound hr
      obtain ⟨trail, htrail, hrest⟩ := exists_spaces r.1
      split at h
      · next hnil =>
        cases h
        rw [hnil, List.append_nil] at hrest
        exact ⟨lead, t, trail, hl, htrail, ht, by rw [← hrest, ← hbody]; exact hs⟩
      · cases h

/-- A text is read as a value just when it holds this value. -/
theorem read_eq_ok_iff : read s = .ok v ↔ Holds v s := by
  refine ⟨holds_of_read, ?_⟩
  rintro ⟨lead, body, trail, hl, ht, hb, rfl⟩
  have hexact := exact_value depthLimit
  have hstarts := (hexact.starts hb).append trail
  have htrail : Opens endsValue trail := by
    simpa using opens_behind ht (Text.opens_nil endsValue)
  obtain ⟨r', hr, hrest⟩ := hexact.complete hb htrail
  have hnil : skipSpace r'.1 = [] := by
    rw [hrest]
    simpa using skipSpace_append ht (Text.opens_nil _)
  exact read_of_value (hstarts.not_mark hl) (skipSpace_append hl hstarts.not_space) hr hnil

end Workbench.Json
