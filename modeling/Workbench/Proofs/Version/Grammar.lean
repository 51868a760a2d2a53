import Workbench.Proofs.Json.Limits
import Workbench.Proofs.Text.Numeral
import Workbench.Proofs.Text.Words
import Workbench.Version

/-! # The grammar of versions

Three numerals between dots are a version; a report names the tool and then has a word that
begins with three numerals between dots or hyphens. Nothing else is read, the numerals of a
version lead back to it, and only a numeral of too many digits stops the reading.
-/

namespace Workbench.Version

open Text (Opens Unbroken)

structure Spelling where
  major : Text
  minor : Text
  patch : Text
  isNumeral_major : major.isNumeral
  isNumeral_minor : minor.isNumeral
  isNumeral_patch : patch.isNumeral

def spelling (v : Version) : Spelling :=
  ⟨.ofNat v.major, .ofNat v.minor, .ofNat v.patch, Text.isNumeral_ofNat _, Text.isNumeral_ofNat _,
    Text.isNumeral_ofNat _⟩

def isMark (c : CodePoint) : Bool := c == '.' || c == '-'

theorem isMark_of_isDigit {c : CodePoint} (h : c.isDigit) : isMark c = false := by
  rw [← Bool.not_eq_true]
  intro hm
  rcases (Bool.or_eq_true _ _).mp hm with hc | hc <;>
    rw [beq_iff_eq.mp hc] at h <;> exact absurd h (by decide)

namespace Spelling

variable {s : Spelling} {tool output word : Text} {v : Version} {f : Fault}

def parts (s : Spelling) : List Text := [s.major, s.minor, s.patch]

def version (s : Spelling) : Version :=
  ⟨s.major.digitsVal, s.minor.digitsVal, s.patch.digitsVal⟩

def Short (s : Spelling) : Prop := ∀ t ∈ s.parts, t.length ≤ Json.integerLimit

instance (s : Spelling) : Decidable s.Short :=
  inferInstanceAs (Decidable (∀ t ∈ s.parts, t.length ≤ Json.integerLimit))

/-- A numeral of `n` digits is the first that has too many. -/
def Long (s : Spelling) (n : Nat) : Prop :=
  ∃ t, s.parts.find? (fun t => Json.integerLimit < t.length) = some t ∧ t.length = n

def dotted (s : Spelling) : Text := s.major ++ .char '.' :: (s.minor ++ .char '.' :: s.patch)

/-- The word is the numerals between marks, and another mark if it goes on. -/
def Begins (s : Spelling) (word : Text) : Prop :=
  ∃ x y tail, isMark x ∧ isMark y ∧ Opens isMark tail ∧
    word = s.major ++ x :: (s.minor ++ y :: (s.patch ++ tail))

def ReportedBy (s : Spelling) (tool output : Text) : Prop :=
  ∃ word rest, output.words = tool :: word :: rest ∧ s.Begins word

@[simp] theorem version_spelling (v : Version) : v.spelling.version = v := by
  simp [spelling, version]

theorem dotted_spelling (v : Version) : v.spelling.dotted = v.text := by
  simp only [dotted, spelling, Version.text, List.append_assoc]
  rfl

theorem isDigit_of_mem_parts {t : Text} {c : CodePoint} (ht : t ∈ s.parts) (hc : c ∈ t) :
    c.isDigit := by
  simp only [parts, List.mem_cons, List.not_mem_nil, or_false] at ht
  rcases ht with rfl | rfl | rfl
  · exact (Text.isNumeral_iff.mp s.isNumeral_major).2 c hc
  · exact (Text.isNumeral_iff.mp s.isNumeral_minor).2 c hc
  · exact (Text.isNumeral_iff.mp s.isNumeral_patch).2 c hc

theorem isMark_of_mem_parts {t : Text} (ht : t ∈ s.parts) : ∀ c ∈ t, isMark c = false :=
  fun _ hc => isMark_of_isDigit (isDigit_of_mem_parts ht hc)

theorem unbroken_of_mem_parts {t : Text} (ht : t ∈ s.parts) : t.Unbroken :=
  fun _ hc => CodePoint.isBlank_of_isDigit (isDigit_of_mem_parts ht hc)

theorem isNumeral_parts (s : Spelling) :
    (s.major.isNumeral && s.minor.isNumeral && s.patch.isNumeral) = true := by
  rw [s.isNumeral_major, s.isNumeral_minor, s.isNumeral_patch]
  rfl

/-! ## Components -/

def read (s : Spelling) : Except Fault Version := ofComponents s.major s.minor s.patch

theorem short_or_long (s : Spelling) : s.Short ∨ ∃ n, s.Long n := by
  cases h : s.parts.find? (fun t => Json.integerLimit < t.length) with
  | none => exact .inl fun t ht => by simpa using List.find?_eq_none.mp h t ht
  | some t => exact .inr ⟨t.length, t, h, rfl⟩

theorem read_of_short (h : s.Short) : s.read = .ok s.version := by
  have hcomponent {t : Text} (ht : t ∈ s.parts) : component t = .ok t.digitsVal :=
    if_neg (Nat.not_lt.mpr (h t ht))
  rw [read, ofComponents, hcomponent (by simp [parts]), hcomponent (by simp [parts]),
    hcomponent (by simp [parts])]
  rfl

theorem read_of_long {n : Nat} (h : s.Long n) : s.read = .error (.longComponent n) := by
  obtain ⟨t, ht, rfl⟩ := h
  simp only [parts, List.find?_cons] at ht
  simp only [read, ofComponents, component]
  by_cases ha : Json.integerLimit < s.major.length
  · obtain rfl : s.major = t := by simpa [ha] using ht
    simp [ha]
    rfl
  by_cases hb : Json.integerLimit < s.minor.length
  · obtain rfl : s.minor = t := by simpa [ha, hb] using ht
    simp [ha, hb]
    rfl
  by_cases hc : Json.integerLimit < s.patch.length
  · obtain rfl : s.patch = t := by simpa [ha, hb, hc] using ht
    simp [ha, hb, hc]
    rfl
  · simp [ha, hb, hc] at ht

theorem read_eq_ok_iff : s.read = .ok v ↔ s.Short ∧ s.version = v := by
  constructor
  · intro h
    rcases s.short_or_long with hs | ⟨n, hn⟩
    · rw [read_of_short hs] at h
      exact ⟨hs, Except.ok.inj h⟩
    · rw [read_of_long hn] at h
      cases h
  · rintro ⟨hs, rfl⟩
    exact read_of_short hs

theorem read_eq_error_iff : s.read = .error f ↔ ∃ n, s.Long n ∧ f = .longComponent n := by
  constructor
  · intro h
    rcases s.short_or_long with hs | ⟨n, hn⟩
    · rw [read_of_short hs] at h
      cases h
    · rw [read_of_long hn] at h
      exact ⟨n, hn, (Except.error.inj h).symm⟩
  · rintro ⟨n, hn, rfl⟩
    exact read_of_long hn

end Spelling

/-! ## Versions -/

namespace Spelling

theorem splitOn_dotted (s : Spelling) : s.dotted.splitOn '.' = s.parts := by
  have hfree {t : Text} (ht : t ∈ s.parts) : (.char '.' : CodePoint) ∉ t :=
    fun hc => absurd (isMark_of_mem_parts ht _ hc) (by decide)
  rw [dotted, Text.splitOn_append_cons, Text.splitOn_append_cons,
    Text.splitOn_eq_singleton (hfree (by simp [parts])),
    Text.splitOn_eq_singleton (hfree (by simp [parts])),
    Text.splitOn_eq_singleton (hfree (by simp [parts]))]
  rfl

theorem unbroken_dotted (s : Spelling) : s.dotted.Unbroken := by
  have hpart {t : Text} (ht : t ∈ s.parts) : t.Unbroken := unbroken_of_mem_parts ht
  intro c hc
  simp only [dotted, List.mem_append, List.mem_cons] at hc
  rcases hc with hc | rfl | hc | rfl | hc
  · exact hpart (by simp [parts]) c hc
  · rfl
  · exact hpart (by simp [parts]) c hc
  · rfl
  · exact hpart (by simp [parts]) c hc

end Spelling

variable {t tool output word : Text} {v : Version} {f : Fault}

/-- A version is read out of three numerals between dots with blanks around. -/
theorem parse_eq_ok_iff : parse t = .ok v ↔
    ∃ (s : Spelling) (lead trail : Text), lead.isBlank ∧ trail.isBlank ∧
      t = lead ++ s.dotted ++ trail ∧ s.read = .ok v := by
  constructor
  · intro h
    obtain ⟨lead, trail, hl, ht, hstrip⟩ := Text.exists_strip t
    unfold parse at h
    split at h
    · next a b c hpieces =>
      split at h
      · next hn =>
        simp only [Bool.and_eq_true] at hn
        let s : Spelling := ⟨a, b, c, hn.1.1, hn.1.2, hn.2⟩
        have hdotted : t.strip = s.dotted := by
          have hjoin : [CodePoint.char '.'].intercalate (List.splitOn (.char '.') t.strip) =
              t.strip := List.intercalate_splitOn _
          rw [← hjoin, ← Text.splitOn_eq_listSplitOn, hpieces]
          simp [List.intercalate, Spelling.dotted, s]
        exact ⟨s, lead, trail, hl, ht, hdotted ▸ hstrip, h⟩
      · cases h
    · cases h
  · rintro ⟨s, lead, trail, hl, ht, rfl, hs⟩
    rw [parse, Text.strip_between hl s.unbroken_dotted ht, s.splitOn_dotted]
    simp only [Spelling.parts, s.isNumeral_parts, if_true]
    exact hs

/-! ## Reports -/

theorem pieces_eq_splitOnP (t : Text) : pieces t = List.splitOnP isMark t := by
  induction t with
  | nil => rfl
  | cons c t ih =>
    obtain ⟨p, ps, hp⟩ := List.exists_cons_of_ne_nil (Text.splitOn_ne_nil '.' t)
    obtain ⟨q, qs, hq⟩ := List.exists_cons_of_ne_nil (Text.splitOn_ne_nil '-' p)
    rw [pieces, hp, List.flatMap_cons, hq] at ih
    rw [List.splitOnP_cons_eq_if_modifyHead, ← ih, pieces, Text.splitOn_cons, hp]
    by_cases hdot : c = .char '.'
    · simp [hdot, isMark, hq]
    by_cases hdash : c = .char '-'
    · simp [hdash, isMark, Text.splitOn_cons, hq]
    · simp [hdot, hdash, isMark, Text.splitOn_cons, hq]

theorem begins_iff {s : Spelling} :
    s.Begins word ↔ ∃ rest, pieces word = s.major :: s.minor :: s.patch :: rest := by
  have hfree {t : Text} (ht : t ∈ s.parts) : ∀ c ∈ t, isMark c = false :=
    s.isMark_of_mem_parts ht
  rw [pieces_eq_splitOnP]
  constructor
  · rintro ⟨x, y, tail, hx, hy, ht, rfl⟩
    rw [Text.splitOnP_append_cons_of_free (hfree (by simp [Spelling.parts])) hx,
      Text.splitOnP_append_cons_of_free (hfree (by simp [Spelling.parts])) hy,
      Text.splitOnP_first (hfree (by simp [Spelling.parts])) ht]
    exact ⟨_, rfl⟩
  · rintro ⟨rest, h⟩
    obtain ⟨x, u, hx, rfl, hu⟩ := Text.of_splitOnP_eq_cons_cons h
    obtain ⟨y, z, hy, rfl, hz⟩ := Text.of_splitOnP_eq_cons_cons hu
    obtain ⟨tail, ht, rfl, -⟩ := Text.of_splitOnP_eq_cons hz
    exact ⟨x, y, tail, hx, hy, ht, rfl⟩

theorem ofReport_of_reported {s : Spelling} (h : s.ReportedBy tool output) :
    ofReport tool output = s.read.map some := by
  obtain ⟨word, rest, hw, hb⟩ := h
  obtain ⟨more, hp⟩ := begins_iff.mp hb
  rw [ofReport, hw]
  simp only [if_true, hp, s.isNumeral_parts]
  rfl

theorem ofReport_eq_none_or (tool output : Text) :
    ofReport tool output = .ok none ∨ ∃ s : Spelling, s.ReportedBy tool output := by
  unfold ofReport
  split
  · next name word rest hw =>
    split
    · next hname =>
      subst hname
      split
      · next a b c more hp =>
        split
        · next hn =>
          simp only [Bool.and_eq_true] at hn
          exact .inr ⟨⟨a, b, c, hn.1.1, hn.1.2, hn.2⟩, word, rest, hw, begins_iff.mpr ⟨more, hp⟩⟩
        · exact .inl rfl
      · exact .inl rfl
    · exact .inl rfl
  · exact .inl rfl

/-- A report gives the version of the numerals it has, unless one is too long. -/
theorem ofReport_eq_some_iff : ofReport tool output = .ok (some v) ↔
    ∃ s : Spelling, s.ReportedBy tool output ∧ s.read = .ok v := by
  constructor
  · intro h
    rcases ofReport_eq_none_or tool output with hn | ⟨s, hs⟩
    · rw [hn] at h
      cases h
    · rw [ofReport_of_reported hs] at h
      obtain ⟨v', hr, hv⟩ := Json.of_map_eq_ok h
      exact ⟨s, hs, hr.trans (congrArg _ (Option.some.inj hv))⟩
  · rintro ⟨s, hs, hr⟩
    rw [ofReport_of_reported hs, hr]
    rfl

theorem ofReport_eq_error_iff : ofReport tool output = .error f ↔
    ∃ s : Spelling, s.ReportedBy tool output ∧ s.read = .error f := by
  constructor
  · intro h
    rcases ofReport_eq_none_or tool output with hn | ⟨s, hs⟩
    · rw [hn] at h
      cases h
    · rw [ofReport_of_reported hs] at h
      exact ⟨s, hs, Json.of_map_eq_error h⟩
  · rintro ⟨s, hs, hr⟩
    rw [ofReport_of_reported hs, hr]
    rfl

/-! ## Round trips -/

theorem reportedBy_dotted {s : Spelling} {suffix lead gap rest : Text} (htool : tool ≠ [])
    (hunbroken : tool.Unbroken) (hsuffix : suffix.Unbroken) (hmark : Opens isMark suffix)
    (hlead : lead.isBlank) (hgap : gap.isBlank) (hapart : gap ≠ [])
    (hrest : Opens CodePoint.isBlank rest) :
    s.ReportedBy tool (lead ++ tool ++ gap ++ (s.dotted ++ suffix) ++ rest) := by
  have hword : Unbroken (s.dotted ++ suffix) :=
    fun c hc => (List.mem_append.mp hc).elim (s.unbroken_dotted c) (hsuffix c)
  have hnil : s.dotted ++ suffix ≠ [] := by simp [Spelling.dotted]
  have hopens : Opens CodePoint.isBlank (gap ++ (s.dotted ++ suffix ++ rest)) := by
    obtain ⟨c, gap, rfl⟩ := List.exists_cons_of_ne_nil hapart
    exact Text.opens_cons.mpr (Text.isBlank_iff.mp hgap c (by simp))
  refine ⟨s.dotted ++ suffix, rest.words, ?_, .char '.', .char '.', suffix, rfl, rfl, hmark, ?_⟩
  · rw [List.append_assoc, List.append_assoc, List.append_assoc, Text.words_blank_append hlead,
      Text.words_word_append hunbroken htool hopens, Text.words_blank_append hgap,
      Text.words_word_append hword hnil hrest]
  · simp [Spelling.dotted]

/-- The text of a version, alone or in a report, leads back to it. Whatever is read as a version
has the form of one, and its numerals tell the components. -/
theorem readers_exact :
    (∀ v : Version, v.spelling.Short → parse v.text = .ok v) ∧
    (∀ (v : Version) (tool suffix lead gap rest : Text), v.spelling.Short →
      tool ≠ [] → tool.Unbroken → suffix.Unbroken → Opens isMark suffix →
      lead.isBlank → gap.isBlank → gap ≠ [] → Opens CodePoint.isBlank rest →
      ofReport tool (lead ++ tool ++ gap ++ (v.text ++ suffix) ++ rest) = .ok (some v)) ∧
    (∀ (v : Version) (tool output : Text), ofReport tool output = .ok (some v) →
      ∃ s : Spelling, s.ReportedBy tool output ∧ s.version = v) ∧
    ∀ (v : Version) (t : Text), parse t = .ok v →
      ∃ (s : Spelling) (lead trail : Text), lead.isBlank ∧ trail.isBlank ∧
        t = lead ++ s.dotted ++ trail ∧ s.version = v := by
  have hread {v : Version} (h : v.spelling.Short) : v.spelling.read = .ok v :=
    Spelling.read_eq_ok_iff.mpr ⟨h, Spelling.version_spelling v⟩
  refine ⟨?_, ?_, ?_, ?_⟩
  · intro v hv
    refine parse_eq_ok_iff.mpr ⟨v.spelling, [], [], rfl, rfl, ?_, hread hv⟩
    rw [Spelling.dotted_spelling, List.nil_append, List.append_nil]
  · intro v tool suffix lead gap rest hv htool hunbroken hsuffix hmark hlead hgap hapart hrest
    rw [← Spelling.dotted_spelling]
    exact ofReport_eq_some_iff.mpr ⟨v.spelling,
      reportedBy_dotted htool hunbroken hsuffix hmark hlead hgap hapart hrest, hread hv⟩
  · intro v tool output h
    obtain ⟨s, hs, hr⟩ := ofReport_eq_some_iff.mp h
    exact ⟨s, hs, (Spelling.read_eq_ok_iff.mp hr).2⟩
  · intro v t h
    obtain ⟨s, lead, trail, hl, ht, hdotted, hr⟩ := parse_eq_ok_iff.mp h
    exact ⟨s, lead, trail, hl, ht, hdotted, (Spelling.read_eq_ok_iff.mp hr).2⟩

/-- A report with a suffix and a second line, and a version with zeros before and blanks around. -/
theorem readers_exact_of_suffix :
    parse "0.3.35" = .ok ⟨0, 3, 35⟩ ∧
    ofReport "reproto" "\treproto 0.3.35-rc1\nbuilt today" = .ok (some ⟨0, 3, 35⟩) ∧
    (∃ s : Spelling, s.ReportedBy "reproto" "reproto 00-3.5-x" ∧ s.version = ⟨0, 3, 5⟩) ∧
    ∃ (s : Spelling) (lead trail : Text), lead.isBlank ∧ trail.isBlank ∧
      (" 01.2.3\n" : Text) = lead ++ s.dotted ++ trail ∧ s.version = ⟨1, 2, 3⟩ := by
  refine ⟨?_, ?_, ?_, ?_⟩
  · exact readers_exact.1 ⟨0, 3, 35⟩ (by decide)
  · exact readers_exact.2.1 ⟨0, 3, 35⟩ "reproto" "-rc1" "\t" " " "\nbuilt today" (by decide)
      (by decide) (by decide) (by decide) (by decide) (by decide) (by decide) (by decide)
      (by decide)
  · exact readers_exact.2.2.1 ⟨0, 3, 5⟩ "reproto" "reproto 00-3.5-x" (by decide)
  · exact readers_exact.2.2.2 ⟨1, 2, 3⟩ " 01.2.3\n" (by decide)

end Workbench.Version
