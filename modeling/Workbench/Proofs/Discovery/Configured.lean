import Workbench.Command.Run
import Workbench.Proofs.Discovery.Order
import Workbench.Proofs.Record.Classification
import Workbench.Proofs.Text.Words
import Workbench.Surroundings

/-! # The configured executable

An executable that is set is taken without a look, so a blank one would be taken though nothing
could be started by it. Settings that are read from options and variables leave a blank one
unset. An invocation puts the executable of its command line over the settings as it is.
-/

namespace Workbench

/-! ## Settings -/

section

variable [Field.Coercion]

namespace Settings

open Json (Value)

variable {explicit : Field.Members} {env : Environment} {s : Settings}

omit [Field.Coercion] in
theorem textOrUnset_str (t : Text) :
    textOrUnset (.str t) = .ok (if t.isBlank then none else some t) :=
  rfl

omit [Field.Coercion] in
theorem isBlank_of_textOrUnset {v : Value} {o : Option Text} (h : textOrUnset v = .ok o) :
    ∀ t ∈ o, t.isBlank = false := by
  rintro t rfl
  cases v with
  | str u =>
    rw [textOrUnset_str] at h
    split_ifs at h with hu
    · cases h
    · cases h
      simpa using hu
  | _ => cases h

theorem executable_of_read (h : read explicit env = .ok s) :
    Field.optional (options explicit env) "executable" none textOrUnset = .ok s.executable := by
  simp only [read, Checked.seq_eq_ok_iff, Checked.map_eq_ok_iff] at h
  obtain ⟨_, _, ⟨_, _, ⟨_, _, ⟨_, _, ⟨_, _, ⟨_, _, ⟨_, _, ⟨_, _, ⟨_, _, ⟨_, he, rfl⟩, -, rfl⟩, -,
    rfl⟩, -, rfl⟩, -, rfl⟩, -, rfl⟩, -, rfl⟩, -, rfl⟩, -, rfl⟩, -, rfl⟩ := h
  exact he

theorem isBlank_of_read (h : read explicit env = .ok s) :
    ∀ t ∈ s.executable, t.isBlank = false := by
  rcases Field.optional_eq_ok_iff.mp (executable_of_read h) with ⟨v, -, hv⟩ | ⟨-, hn⟩
  · exact isBlank_of_textOrUnset hv
  · rw [hn]
    nofun

theorem executable_of_blank (h : read explicit env = .ok s) {t : Text}
    (ho : Field.lookup (options explicit env) "executable" = some (.str t)) (ht : t.isBlank) :
    s.executable = none := by
  have he := executable_of_read h
  rw [Field.optional, ho] at he
  have hc := Field.check_eq_ok_iff.mp he
  rw [textOrUnset_str, if_pos ht] at hc
  exact (Except.ok.inj hc).symm

end Settings

/-! ## Candidates -/

namespace Discovery

variable {s : Settings} {env : Environment} {system : Text} {root : Option Text}
  {pathExists : Text → Bool} {t : Toolchain}

omit [Field.Coercion] in
theorem not_isBlank_of_suffix {p : Text} (h : Host.executableName system <:+ p) :
    p.isBlank = false := by
  have hexe : (Host.executableName system).isBlank = false := by
    unfold Host.executableName
    split_ifs <;> decide
  refine Bool.eq_false_iff.mpr fun hp => Bool.eq_false_iff.mp hexe (Text.isBlank_iff.mpr ?_)
  exact fun c hc => Text.isBlank_iff.mp hp c (h.subset hc)

omit [Field.Coercion] in
theorem binary_mem_paths (h : ((resolve s env system).select root pathExists).1 = some t) :
    t.binary ∈ (resolve s env system).paths := by
  cases hd : defined s.executable with
  | some path =>
    rw [Candidates.select_configured root pathExists hd] at h
    cases h
    refine List.mem_flatMap.mpr ⟨resolveExplicit s, by simp, ?_⟩
    rw [resolveExplicit, hd]
    exact List.mem_singleton_self path
  | none =>
    rw [Candidates.select_searched root pathExists hd] at h
    obtain ⟨path, hp, rfl⟩ := Option.map_eq_some_iff.mp h
    have hs : Candidates.Searched pathExists _ _ :=
      Candidates.searched_firstExisting (resolve_ne_nil s env system)
    generalize Candidates.firstExisting pathExists (resolve s env system).paths = r at hs hp
    cases hs with
    | found split =>
      cases hp
      rw [split]
      exact List.mem_append_right _ List.mem_cons_self
    | missed => cases hp

omit [Field.Coercion] in
theorem isBlank_of_select (h : ((resolve s env system).select root pathExists).1 = some t)
    (hb : t.binary.isBlank) : s.executable = some t.binary := by
  rcases mem_paths (binary_mem_paths h) with ⟨he, -⟩ | hs
  · exact he
  · rw [not_isBlank_of_suffix hs] at hb
    cases hb

end Discovery

/-! ## Command lines -/

namespace Command

variable {argv : List Text} {i : Invocation}

omit [Field.Coercion] in
theorem ne_nil_of_parse (h : parse argv = .ok i) : ∀ t ∈ i.executable, t ≠ [] := by
  rintro t ht rfl
  simp only [parse, bind, Except.bind] at h
  split at h
  · cases h
  split at h
  · cases h
  split at h
  · cases h
    simp [Option.filter_eq_some_iff] at ht
  · cases h

omit [Field.Coercion] in
/-- Any blank text will do for an executable on a command line, unless it is empty. -/
theorem parse_of_blank {t : Text} (ht : t.isBlank) (hn : t ≠ []) :
    parse ["--executable", t, "version"] = .ok ⟨some t, none, false, .version⟩ := by
  obtain ⟨c, rest, rfl⟩ := List.exists_cons_of_ne_nil hn
  have hc : c ≠ hyphen := by
    rintro rfl
    exact absurd (Text.isBlank_iff.mp ht hyphen List.mem_cons_self) (by decide)
  have hword : usage.mark (c :: rest) = .ok .word := if_pos (by simp [hc])
  have hsep : c :: rest ≠ separatorText := by
    rintro ⟨⟩
    exact hc rfl
  have htokens : usage.tokens ["--executable", c :: rest, "version"] =
      .ok [⟨"--executable", .option (some ⟨⟨["--executable"], .value⟩, "--executable", none⟩)⟩,
        ⟨c :: rest, .word⟩, ⟨"version", .word⟩] := by
    rw [Usage.tokens, if_neg (by decide), Usage.tokens, if_neg hsep, hword]
    rfl
  rw [parse, Usage.parse, htokens]
  rfl

/-- Settings that are read have no blank executable, and a blank option leaves the ordinary
candidates to be looked at. An invocation brings a blank executable to discovery just when its
command line gives one, which is then taken whatever exists; any blank text can be given there. -/
theorem blank_executable_taken_iff {explicit : Field.Members} {env : Environment} {s : Settings}
    (hs : Settings.read explicit env = .ok s) (hp : parse argv = .ok i) :
    (∀ t ∈ s.executable, ∃ c ∈ t, c.isBlank = false) ∧
    (∀ t, Field.lookup (Settings.options explicit env) "executable" = some (.str t) → t.isBlank →
      s.executable = none) ∧
    (i.executable = none → (i.over s).executable = s.executable) ∧
    ((∀ t ∈ (i.over s).executable, ∃ c ∈ t, c.isBlank = false) ↔
      ∀ t ∈ i.executable, ∃ c ∈ t, c.isBlank = false) ∧
    (∀ (env' : Environment) (system : Text) (root : Option Text) (pathExists : Text → Bool),
      (∀ t, ((Discovery.resolve s env' system).select root pathExists).1 = some t →
        ∃ c ∈ t.binary, c.isBlank = false) ∧
      ((∃ t, ((Discovery.resolve (i.over s) env' system).select root pathExists).1 = some t ∧
        t.binary.isBlank) ↔ ∃ t ∈ i.executable, t.isBlank) ∧
      (s.executable = none →
        let exe := Host.executableName system
        let rules := Discovery.homeRules.map (·.resolve exe env') ++
          [Discovery.resolveSearchPath exe env']
        ((Discovery.resolve s env' system).select root pathExists).1 =
          (Candidates.firstExisting pathExists (rules.flatMap (·.2))).1.map (⟨·, root⟩))) ∧
    ∀ t : Text, t.isBlank → t ≠ [] →
      parse ["--executable", t, "version"] = .ok ⟨some t, none, false, .version⟩ := by
  have hblank {t : Text} : (∃ c ∈ t, c.isBlank = false) ↔ t.isBlank = false := by
    rw [← Bool.not_eq_true, Text.isBlank_iff]
    simp
  have hread := Settings.isBlank_of_read hs
  have hover : (i.over s).executable = i.executable.or s.executable := rfl
  simp only [hblank]
  refine ⟨hread, fun t ho ht => Settings.executable_of_blank hs ho ht, fun hn => ?_, ?_,
    fun env' system root pathExists => ⟨fun t ht => ?_, ?_, fun hn => ?_⟩,
    fun t ht hn => parse_of_blank ht hn⟩
  · rw [hover, hn, Option.none_or]
  · rw [hover]
    cases i.executable with
    | none => simpa using hread
    | some t => simp
  · refine Bool.eq_false_iff.mpr fun hb => Bool.eq_false_iff.mp (hread _ ?_) hb
    exact Discovery.isBlank_of_select ht hb
  · constructor
    · rintro ⟨t, ht, hb⟩
      have he := Discovery.isBlank_of_select ht hb
      rw [hover] at he
      rcases Option.or_eq_some_iff.mp he with he | ⟨-, he⟩
      · exact ⟨_, he, hb⟩
      · rw [hread _ he] at hb
        cases hb
    · rintro ⟨t, ht, hb⟩
      have he : (i.over s).executable = some t := by
        rw [hover, ht]
        rfl
      have hd := Discovery.defined_eq_some_iff.mpr ⟨he, ne_nil_of_parse hp t ht⟩
      exact ⟨⟨t, root⟩, congrArg Prod.fst (Candidates.select_configured root pathExists hd), hb⟩
  · have hd : Discovery.defined (Discovery.resolve s env' system).explicit = none := by
      rw [Discovery.defined_eq_none_iff]
      intro t ht
      cases hn.symm.trans ht
    have hnone : (Discovery.resolveExplicit s).2 = [] := by
      rw [Discovery.resolveExplicit, hn]
      rfl
    rw [Candidates.select_searched root pathExists hd]
    simp only [Discovery.resolve, List.cons_append, List.flatMap_cons, hnone,
      List.nil_append]

end Command

end

open Surroundings in
/-- A blank option beside a blank variable, on a command line that gives none. -/
theorem Command.blank_executable_taken_iff_of_blank_variable :
    ∃ s, Settings.read [("executable", .str " \t")] [("REPROTO_EXECUTABLE", "/opt/reproto")] =
      .ok s ∧
      parse ["--executable", "", "version"] = .ok ⟨none, none, false, .version⟩ ∧
      s.executable = none ∧
      ((Discovery.resolve s [("PATH", " :/bin")] "linux").select none (· = "/bin/reproto")).1 =
        some ⟨"/bin/reproto", none⟩ := by
  obtain ⟨s, hs⟩ : ∃ s, Settings.read [("executable", .str " \t")]
      [("REPROTO_EXECUTABLE", "/opt/reproto")] = .ok s := ⟨_, rfl⟩
  have hp : parse ["--executable", "", "version"] = .ok ⟨none, none, false, .version⟩ := rfl
  obtain ⟨-, hunset, -, -, hdiscovery, -⟩ := blank_executable_taken_iff hs hp
  have hn := hunset " \t" rfl (by decide)
  refine ⟨s, hs, hp, hn, ?_⟩
  rw [(hdiscovery [("PATH", " :/bin")] "linux" none (· = "/bin/reproto")).2.2 hn]
  decide

open Surroundings in
/-- A blank executable on a command line is started, though the search path leads to another. -/
theorem Command.blank_executable_started :
    let w : World := { files := .ofList [("/bin/reproto", [])], env := [("PATH", "/bin")]
                       starts := [.ok { out := Utf8.encode "reproto 0.3.40\n" }] }
    ((run ["--executable", "  ", "version"] none w).toOption.map (·.world.spawned) =
      some [⟨["  ", "--version"], some "/"⟩]) ∧
    (run ["version"] none w).toOption.map (·.world.spawned) =
      some [⟨["/bin/reproto", "--version"], some "/"⟩] := by
  decide +kernel

end Workbench
