import Workbench.Proofs.Uri.Files
import Workbench.Proofs.Version.Grammar
import Workbench.Toolchain.Invoke

/-! # Finding the version out

What is found out is told by the process alone: whether it starts and ends well, and the
numerals in its output. Without numerals there is no version, which is no problem. With
numerals there is one, unless one of them is too long to read: this is not answered for, and
neither is a command that cannot be handed to the system.
-/

namespace Workbench.Toolchain

open Version (Spelling)

variable {t : Toolchain} {tool output : Text} {w : World} {s : Spelling}

/-- The process that is asked for the version starts, ends well, and reports the numerals. -/
def Reports (t : Toolchain) (tool : Text) (w : World) (s : Spelling) : Prop :=
  ∃ p, (w.spawn (t.command versionArgs) t.root).1 = .ok p ∧ p.exit.code = some 0 ∧
    s.ReportedBy tool (Utf8.decode p.out)

/-- The command, or the directory to run it in, cannot be handed to the system. -/
def Malformed (t : Toolchain) (w : World) (message : Text) : Prop :=
  (w.spawn (t.command versionArgs) t.root).1 = .error (.malformed message)

theorem ofReport_strip (tool output : Text) :
    Version.ofReport tool output.strip = Version.ofReport tool output := by
  rw [Version.ofReport, Version.ofReport, Text.words_strip]

theorem execute_cases (t : Toolchain) (args : List Text) (w : World) :
    (∃ p, (w.spawn (t.command args) t.root).1 = .ok p ∧ p.exit.code = some 0 ∧
      (t.execute args w).1 = .ok (Utf8.decode p.out)) ∨
    ((∀ p, (w.spawn (t.command args) t.root).1 = .ok p → p.exit.code ≠ some 0) ∧
      ((∃ f, (∀ m, (w.spawn (t.command args) t.root).1 ≠ .error (.malformed m)) ∧
        (t.execute args w).1 = .error (.failure f)) ∨
      ∃ m, (w.spawn (t.command args) t.root).1 = .error (.malformed m) ∧
        (t.execute args w).1 = .error (.crash (.malformed m)))) := by
  have hexecute : (t.execute args w).1 =
      ((w.spawn (t.command args) t.root).1.mapError (·.problem (t.command args))).bind fun p =>
        if p.exit.code = some 0 then .ok (Utf8.decode p.out)
        else .error (.failure (.process (t.command args) p.exit.code t.root)) := rfl
  rw [hexecute]
  rcases (w.spawn (t.command args) t.root).1 with (reason | m) | p
  · exact .inr ⟨nofun, .inl ⟨_, nofun, rfl⟩⟩
  · exact .inr ⟨nofun, .inr ⟨m, rfl, rfl⟩⟩
  · by_cases h : p.exit.code = some 0
    · exact .inl ⟨p, rfl, h, if_pos h⟩
    · refine .inr ⟨?_, .inl ⟨_, nofun, if_neg h⟩⟩
      rintro q ⟨⟩
      exact h

theorem probe_of_reports (h : t.Reports tool w s) :
    (t.probe tool w).1 = s.read.mapError fun f => .crash (.version f) := by
  obtain ⟨p, hp, hcode, hs⟩ := h
  rcases t.execute_cases versionArgs w with ⟨q, hq, -, he⟩ | ⟨hno, -⟩
  · obtain rfl : p = q := Except.ok.inj (hp.symm.trans hq)
    simp only [probe, versionReport, he, Except.map, versionOf, ofReport_strip,
      Version.ofReport_of_reported hs]
    cases s.read <;> rfl
  · exact absurd hcode (hno p hp)

theorem probe_of_not_reports (h : ∀ s, ¬ t.Reports tool w s) (hm : ∀ m, ¬ t.Malformed w m) :
    ∃ reason, (t.probe tool w).1 = .error (.failure (.versionUnknown t.binary reason)) := by
  rcases t.execute_cases versionArgs w with ⟨p, hp, hcode, he⟩ | ⟨-, ⟨f, -, hf⟩ | ⟨m, hw, -⟩⟩
  · rcases Version.ofReport_eq_none_or tool (Utf8.decode p.out) with hn | ⟨s, hs⟩
    · simp only [probe, versionReport, he, Except.map, versionOf, ofReport_strip, hn]
      exact ⟨_, rfl⟩
    · exact absurd ⟨p, hp, hcode, hs⟩ (h s)
  · simp only [probe, versionReport, hf, Except.map, versionOf]
    exact ⟨_, rfl⟩
  · exact absurd hw (hm m)

theorem probe_of_malformed {m : Text} (h : t.Malformed w m) :
    (t.probe tool w).1 = .error (.crash (.malformed m)) := by
  rcases t.execute_cases versionArgs w with ⟨p, hp, -⟩ | ⟨-, ⟨f, hno, -⟩ | ⟨m', hw, he⟩⟩
  · cases hp.symm.trans h
  · exact absurd h (hno m)
  · cases hw.symm.trans h
    simp only [probe, versionReport, he, Except.map, versionOf]

theorem detect_of_short (h : t.Reports tool w s) (hs : s.Short) :
    (t.detect tool w).1 = .ok (some s.version) := by
  simp only [detect, probe_of_reports h, Spelling.read_of_short hs]
  rfl

theorem detect_of_long {n : ℕ} (h : t.Reports tool w s) (hs : s.Long n) :
    (t.detect tool w).1 = .error (.version (.longComponent n)) := by
  simp only [detect, probe_of_reports h, Spelling.read_of_long hs]
  rfl

theorem detect_of_not_reports (h : ∀ s, ¬ t.Reports tool w s) (hm : ∀ m, ¬ t.Malformed w m) :
    (t.detect tool w).1 = .ok none := by
  obtain ⟨reason, hr⟩ := probe_of_not_reports h hm
  simp only [detect, hr]

theorem detect_of_malformed {m : Text} (h : t.Malformed w m) :
    (t.detect tool w).1 = .error (.malformed m) := by
  simp only [detect, probe_of_malformed h]

theorem reports_cases (t : Toolchain) (tool : Text) (w : World) :
    ((∀ s, ¬ t.Reports tool w s) ∧ ∀ m, ¬ t.Malformed w m) ∨ (∃ m, t.Malformed w m) ∨
      (∃ s, t.Reports tool w s ∧ s.Short) ∨ ∃ s n, t.Reports tool w s ∧ s.Long n := by
  by_cases h : ∃ s, t.Reports tool w s
  · obtain ⟨s, hs⟩ := h
    rcases s.short_or_long with hshort | ⟨n, hlong⟩
    · exact .inr (.inr (.inl ⟨s, hs, hshort⟩))
    · exact .inr (.inr (.inr ⟨s, n, hs, hlong⟩))
  · by_cases hm : ∃ m, t.Malformed w m
    · exact .inr (.inl hm)
    · exact .inl ⟨not_exists.mp h, not_exists.mp hm⟩

/-- A version is found out just when numerals are reported and can be read. It stays unknown just
when none are reported by a process that could be asked for. What is reported but cannot be read,
and a command that cannot be handed to the system, are the only crashes; the first of these whoever
reads the report has. -/
theorem detect_outcome (t : Toolchain) (tool : Text) (w : World) :
    (∀ v, (t.detect tool w).1 = .ok (some v) ↔
      ∃ s : Spelling, t.Reports tool w s ∧ s.Short ∧ s.version = v) ∧
    ((t.detect tool w).1 = .ok none ↔
      (∀ s, ¬ t.Reports tool w s) ∧ ∀ m, ¬ t.Malformed w m) ∧
    (∀ c, (t.detect tool w).1 = .error c ↔
      (∃ (s : Spelling) (n : ℕ), t.Reports tool w s ∧ s.Long n ∧
        c = .version (.longComponent n)) ∨
      ∃ m, t.Malformed w m ∧ c = .malformed m) ∧
    (∀ p, (t.probe tool w).1 = .error p →
      (∃ reason, p = .failure (.versionUnknown t.binary reason)) ∨
      (∃ (s : Spelling) (n : ℕ), t.Reports tool w s ∧ s.Long n ∧
        p = .crash (.version (.longComponent n))) ∨
      ∃ m, t.Malformed w m ∧ p = .crash (.malformed m)) ∧
    ∀ output f, Version.ofReport tool output = .error f ↔
      ∃ (s : Spelling) (n : ℕ), s.ReportedBy tool output ∧ s.Long n ∧ f = .longComponent n := by
  refine ⟨fun v => ⟨fun h => ?_, ?_⟩, ⟨fun h => ⟨fun s hs => ?_, fun m hm => ?_⟩, fun h =>
    detect_of_not_reports h.1 h.2⟩, fun c => ⟨fun h => ?_, ?_⟩, fun p h => ?_,
    fun output f => ⟨fun h => ?_, ?_⟩⟩
  · rcases t.reports_cases tool w with ⟨hno, hm⟩ | ⟨m, hm⟩ | ⟨s, hs, hshort⟩ | ⟨s, n, hs, hlong⟩
    · cases (detect_of_not_reports hno hm).symm.trans h
    · cases (detect_of_malformed hm).symm.trans h
    · cases (detect_of_short hs hshort).symm.trans h
      exact ⟨s, hs, hshort, rfl⟩
    · cases (detect_of_long hs hlong).symm.trans h
  · rintro ⟨s, hs, hshort, rfl⟩
    exact detect_of_short hs hshort
  · rcases s.short_or_long with hshort | ⟨n, hlong⟩
    · cases (detect_of_short hs hshort).symm.trans h
    · cases (detect_of_long hs hlong).symm.trans h
  · cases (detect_of_malformed hm).symm.trans h
  · rcases t.reports_cases tool w with ⟨hno, hm⟩ | ⟨m, hm⟩ | ⟨s, hs, hshort⟩ | ⟨s, n, hs, hlong⟩
    · cases (detect_of_not_reports hno hm).symm.trans h
    · cases (detect_of_malformed hm).symm.trans h
      exact .inr ⟨m, hm, rfl⟩
    · cases (detect_of_short hs hshort).symm.trans h
    · cases (detect_of_long hs hlong).symm.trans h
      exact .inl ⟨s, n, hs, hlong, rfl⟩
  · rintro (⟨s, n, hs, hlong, rfl⟩ | ⟨m, hm, rfl⟩)
    · exact detect_of_long hs hlong
    · exact detect_of_malformed hm
  · rcases t.reports_cases tool w with ⟨hno, hm⟩ | ⟨m, hm⟩ | ⟨s, hs, hshort⟩ | ⟨s, n, hs, hlong⟩
    · obtain ⟨reason, hr⟩ := probe_of_not_reports hno hm
      cases hr.symm.trans h
      exact .inl ⟨reason, rfl⟩
    · cases (probe_of_malformed hm).symm.trans h
      exact .inr (.inr ⟨m, hm, rfl⟩)
    · rw [probe_of_reports hs, Spelling.read_of_short hshort] at h
      cases h
    · rw [probe_of_reports hs, Spelling.read_of_long hlong] at h
      cases h
      exact .inr (.inl ⟨s, n, hs, hlong, rfl⟩)
  · obtain ⟨s, hs, hr⟩ := Version.ofReport_eq_error_iff.mp h
    obtain ⟨n, hlong, rfl⟩ := Spelling.read_eq_error_iff.mp hr
    exact ⟨s, n, hs, hlong, rfl⟩
  · rintro ⟨s, n, hs, hlong, rfl⟩
    exact Version.ofReport_eq_error_iff.mpr ⟨s, hs, Spelling.read_of_long hlong⟩

def printing (output : Text) : World := { starts := [.ok { out := Utf8.encode output }] }

/-- The report of another tool leaves the version unknown. -/
theorem detect_outcome_of_other_tool :
    (Toolchain.probe ⟨"/opt/reproto", none⟩ "reproto" (printing "protoc 3.12.4")).1 =
        .error (.failure (.versionUnknown "/opt/reproto" "unrecognised output 'protoc 3.12.4'")) ∧
      ((∃ reason, Problem.failure
          (.versionUnknown "/opt/reproto" "unrecognised output 'protoc 3.12.4'") =
          .failure (.versionUnknown "/opt/reproto" reason)) ∨
        (∃ (s : Spelling) (n : ℕ),
          Reports ⟨"/opt/reproto", none⟩ "reproto" (printing "protoc 3.12.4") s ∧ s.Long n ∧
          Problem.failure (.versionUnknown "/opt/reproto" "unrecognised output 'protoc 3.12.4'") =
            .crash (.version (.longComponent n))) ∨
        ∃ m, Malformed ⟨"/opt/reproto", none⟩ (printing "protoc 3.12.4") m ∧
          Problem.failure (.versionUnknown "/opt/reproto" "unrecognised output 'protoc 3.12.4'") =
            .crash (.malformed m)) := by
  have h : (Toolchain.probe ⟨"/opt/reproto", none⟩ "reproto" (printing "protoc 3.12.4")).1 =
      .error (.failure (.versionUnknown "/opt/reproto" "unrecognised output 'protoc 3.12.4'")) := by
    rfl
  exact ⟨h, (detect_outcome ⟨"/opt/reproto", none⟩ "reproto" (printing "protoc 3.12.4")).2.2.2.1
    _ h⟩

/-! ## A long numeral -/

def ones (n : ℕ) : Spelling :=
  ⟨List.replicate (n + 1) (.char '1'), "0", "0",
    Text.isNumeral_iff.mpr ⟨by simp, by simp [CodePoint.isDigit]⟩, rfl, rfl⟩

theorem long_ones {n : ℕ} (h : Json.integerLimit < n + 1) : (ones n).Long (n + 1) :=
  ⟨(ones n).major, List.find?_cons_of_pos (by simpa [ones] using h), List.length_replicate⟩

theorem reportedBy_ones (n : ℕ) :
    (ones n).ReportedBy "reproto" ("reproto" ++ " " ++ (ones n).dotted ++ "\n") := by
  have h : (ones n).ReportedBy "reproto"
      (([] : Text) ++ "reproto" ++ " " ++ ((ones n).dotted ++ ([] : Text)) ++ "\n") :=
    Version.reportedBy_dotted (by decide) (by decide) (by decide) (by decide) (by decide)
      (by decide) (by decide) (by decide)
  simpa using h

theorem reports_printing (t : Toolchain) (h : output.Scalar) (hs : s.ReportedBy tool output) :
    t.Reports tool (printing output) s :=
  ⟨{ out := Utf8.encode output }, rfl, rfl, by rwa [Utf8.decode_encode h]⟩

theorem scalar_report (n : ℕ) :
    Text.Scalar ("reproto" ++ " " ++ (ones n).dotted ++ "\n") := by
  simp [Text.Scalar, Text.ofString, Spelling.dotted, ones]

/-- A report of a first component with 4301 digits is not answered for. -/
theorem detect_crashes_on_long_numeral :
    (Toolchain.detect ⟨"/opt/reproto", none⟩ "reproto"
      (printing ("reproto" ++ " " ++ (ones 4300).dotted ++ "\n"))).1 =
        .error (.version (.longComponent 4301)) :=
  detect_of_long (reports_printing _ (scalar_report 4300) (reportedBy_ones 4300))
    (long_ones (by decide))

end Workbench.Toolchain
