import Workbench.Discovery
import Workbench.Proofs.Install.Rediscovery
import Workbench.Proofs.Path.Joined
import Workbench.Proofs.Text.Pieces

/-! # The order of discovery

A discovery considers five places in a fixed order. A place whose setting or variable is given
tells its path and offers candidates, any other tells that it is not defined. The candidates are
looked at in the same order, up to the first that exists, and none of them where an executable is
configured.
-/

namespace Workbench

variable {pathExists : Text → Bool}

/-! ## Looking at candidates -/

namespace Candidates

/-- What a search of paths in order takes, and the paths it looks at: all up to the first that
exists, or all of them. -/
inductive Searched (pathExists : Text → Bool) (paths : List Text) :
    Option Text × List Text → Prop
  | found {before rest : List Text} {path : Text} (split : paths = before ++ path :: rest)
      (absent : ∀ p ∈ before, pathExists p = false) (present : pathExists path = true) :
      Searched pathExists paths (some path, before ++ [path])
  | missed (absent : ∀ p ∈ paths, pathExists p = false) : Searched pathExists paths (none, paths)

theorem Searched.cons {first : Text} {paths : List Text} {r : Option Text × List Text}
    (h : Searched pathExists paths r) (hf : pathExists first = false) :
    Searched pathExists (first :: paths) (r.1, first :: r.2) := by
  cases h with
  | found split absent present =>
    have hs := congrArg (first :: ·) split
    exact .found hs (List.forall_mem_cons.mpr ⟨hf, absent⟩) present
  | missed absent => exact .missed (List.forall_mem_cons.mpr ⟨hf, absent⟩)

theorem Searched.eq_none_iff {paths : List Text} {r : Option Text × List Text}
    (h : Searched pathExists paths r) : r.1 = none ↔ ∀ p ∈ paths, pathExists p = false := by
  cases h with
  | @found before rest path split absent present =>
    refine ⟨fun hn => (Option.some_ne_none path hn).elim, fun hall => ?_⟩
    have hmem : path ∈ paths := split ▸ List.mem_append_right before (List.mem_cons_self ..)
    rw [hall path hmem] at present
    cases present
  | missed absent => exact ⟨fun _ => absent, fun _ => rfl⟩

theorem searched_firstExisting {paths : List Text} (h : ∀ p ∈ paths, p ≠ []) :
    Searched pathExists paths (firstExisting pathExists paths) := by
  induction paths with
  | nil => exact .missed (List.forall_mem_nil _)
  | cons first paths ih =>
    obtain ⟨hne, h⟩ := List.forall_mem_cons.mp h
    rw [firstExisting, if_neg (by simpa using hne)]
    by_cases hf : pathExists first = true
    · rw [if_pos hf]
      exact .found (List.nil_append _).symm (List.forall_mem_nil _) hf
    · rw [if_neg hf]
      exact (ih h).cons (by simpa using hf)

section

variable {c : Candidates} {t : Text} (root : Option Text) (pathExists : Text → Bool)

theorem select_configured (h : Discovery.defined c.explicit = some t) :
    c.select root pathExists = (some ⟨t, root⟩, []) := by
  rw [select, h]

theorem select_searched (h : Discovery.defined c.explicit = none) :
    c.select root pathExists = ((firstExisting pathExists c.paths).1.map (⟨·, root⟩),
      (firstExisting pathExists c.paths).2) := by
  rw [select, h]

end

end Candidates

/-! ## Considering places -/

namespace Discovery

/-- What is made of the value of a setting or a variable: where it is given and not empty a path
and candidates, else a note that it is not defined. -/
inductive Considers (value : Option Text) (name shown : Text) (path : Text → Text)
    (candidates : Text → List Text) : Source × List Text → Prop
  | given {t : Text} (is_value : value = some t) (nonempty : t ≠ []) :
      Considers value name shown path candidates (⟨shown, some (path t)⟩, candidates t)
  | missing (unset : ∀ t, value = some t → t = []) :
      Considers value name shown path candidates (⟨name ++ " is not defined", none⟩, [])

theorem defined_eq_none_iff {given : Option Text} :
    defined given = none ↔ ∀ t, given = some t → t = [] := by
  simp [defined, Option.filter_eq_none_iff]

theorem considers_of_defined {value : Option Text} {name shown : Text} {path : Text → Text}
    {candidates : Text → List Text} {r : Source × List Text}
    (hg : ∀ t, defined value = some t → r = (⟨shown, some (path t)⟩, candidates t))
    (hm : defined value = none → r = (⟨name ++ " is not defined", none⟩, [])) :
    Considers value name shown path candidates r := by
  cases hd : defined value with
  | some t =>
    obtain ⟨hv, hne⟩ := defined_eq_some_iff.mp hd
    rw [hg t hd]
    exact .given hv hne
  | none =>
    rw [hm hd]
    exact .missing (defined_eq_none_iff.mp hd)

theorem considers_resolveExplicit (s : Settings) :
    Considers s.executable explicitSource explicitSource id (fun t => [t]) (resolveExplicit s) := by
  apply considers_of_defined
  · intro t ht
    rw [resolveExplicit, ht]
    rfl
  · intro hn
    rw [resolveExplicit, hn]

theorem considers_homeRule (r : HomeRule) (exe : Text) (env : Environment) :
    Considers (env.get? r.variableName) ("$" ++ r.variableName) r.shown (r.candidate exe)
      (fun base => [r.candidate exe base]) (r.resolve exe env) := by
  apply considers_of_defined
  · intro t ht
    rw [HomeRule.resolve, ht]
  · intro hn
    rw [HomeRule.resolve, hn, undefined]

theorem considers_resolveSearchPath (exe : Text) (env : Environment) :
    Considers (env.get? "PATH") "$PATH" "$PATH" id
      (fun t => (entries t).map fun dir => Path.join dir exe) (resolveSearchPath exe env) := by
  apply considers_of_defined
  · intro t ht
    rw [resolveSearchPath, ht]
    rfl
  · intro hn
    rw [resolveSearchPath, hn]
    rfl

theorem Considers.of_mem {value : Option Text} {name shown p : Text} {path : Text → Text}
    {candidates : Text → List Text} {r : Source × List Text}
    (h : Considers value name shown path candidates r) (hp : p ∈ r.2) :
    ∃ t, value = some t ∧ t ≠ [] ∧ p ∈ candidates t := by
  cases h with
  | given is_value nonempty => exact ⟨_, is_value, nonempty, hp⟩
  | missing unset => cases hp

/-! ## Search paths -/

theorem entries_join {dirs : List Text} (h : ∀ d ∈ dirs, CodePoint.char ':' ∉ d) :
    entries (Text.join ":" dirs) = dirs.filter (· ≠ []) := by
  have hf : (fun d : Text => !d.isEmpty) = fun d => decide (d ≠ []) := by
    funext d
    cases d <;> rfl
  rw [entries, hf]
  cases dirs with
  | nil => rfl
  | cons d dirs => exact congrArg _ (Text.splitOn_join h (List.cons_ne_nil d dirs))

/-- Every text is a search path of some directories. -/
theorem exists_join (searchPath : Text) :
    ∃ dirs, (∀ d ∈ dirs, CodePoint.char ':' ∉ d) ∧ Text.join ":" dirs = searchPath := by
  refine ⟨searchPath.splitOn ':', fun d hd => Text.not_mem_of_mem_splitOn hd, ?_⟩
  rw [Text.splitOn_eq_listSplitOn]
  exact List.intercalate_splitOn _

/-! ## Whole discoveries -/

theorem mem_paths {s : Settings} {env : Environment} {system p : Text}
    (h : p ∈ (resolve s env system).paths) :
    s.executable = some p ∧ p ≠ [] ∨ Host.executableName system <:+ p := by
  obtain ⟨rule, hr, hp⟩ := List.mem_flatMap.mp h
  simp only [List.mem_append, List.mem_singleton, List.mem_map, or_assoc] at hr
  rcases hr with rfl | ⟨r, -, rfl⟩ | rfl
  · obtain ⟨t, hv, hn, ht⟩ := (considers_resolveExplicit s).of_mem hp
    obtain rfl := List.mem_singleton.mp ht
    exact .inl ⟨hv, hn⟩
  · obtain ⟨base, -, -, hb⟩ := (considers_homeRule r _ env).of_mem hp
    rw [List.mem_singleton.mp hb, HomeRule.candidate, Path.joinAll, List.foldl_concat]
    exact .inr (Path.suffix_join _ _)
  · obtain ⟨t, -, -, ht⟩ := (considers_resolveSearchPath _ env).of_mem hp
    obtain ⟨dir, -, rfl⟩ := List.mem_map.mp ht
    exact .inr (Path.suffix_join _ _)

theorem resolve_ne_nil (s : Settings) (env : Environment) (system : Text) :
    ∀ p ∈ (resolve s env system).paths, p ≠ [] := by
  intro p hp
  rcases mem_paths hp with ⟨-, hn⟩ | hs
  · exact hn
  · rintro rfl
    exact Install.executableName_ne_nil system (List.suffix_nil.mp hs)

/-- A discovery considers five places and offers their candidates in the same order. A configured
executable is taken without a look; else the candidates are looked at up to the first that exists,
and that one is taken. -/
theorem resolve_and_select_in_order (s : Settings) (env : Environment) (system : Text)
    (root : Option Text) (pathExists : Text → Bool) :
    (∃ configured tools home profile search : Source × List Text,
      (resolve s env system).sources =
        [configured.1, tools.1, home.1, profile.1, search.1] ∧
      (resolve s env system).paths =
        configured.2 ++ tools.2 ++ home.2 ++ profile.2 ++ search.2 ∧
      Considers s.executable "reproto.executable (user configuration)"
        "reproto.executable (user configuration)" id (fun t => [t]) configured ∧
      Considers (env.get? "REPROTO_HOME") "$REPROTO_HOME" "$REPROTO_HOME/reproto"
        (fun base => Path.join base (Host.executableName system))
        (fun base => [Path.join base (Host.executableName system)]) tools ∧
      Considers (env.get? "HOME") "$HOME" "$HOME/.local/bin/reproto"
        (fun base => Path.joinAll base [".local", "bin", Host.executableName system])
        (fun base => [Path.joinAll base [".local", "bin", Host.executableName system]]) home ∧
      Considers (env.get? "USERPROFILE") "$USERPROFILE" "$USERPROFILE/.local/bin/reproto"
        (fun base => Path.joinAll base [".local", "bin", Host.executableName system])
        (fun base => [Path.joinAll base [".local", "bin", Host.executableName system]]) profile ∧
      Considers (env.get? "PATH") "$PATH" "$PATH" id
        (fun t => (entries t).map fun dir => Path.join dir (Host.executableName system)) search) ∧
    (∀ searchPath, ∃ dirs, (∀ d ∈ dirs, CodePoint.char ':' ∉ d) ∧
      Text.join ":" dirs = searchPath ∧ entries searchPath = dirs.filter (· ≠ [])) ∧
    (∀ t, s.executable = some t → t ≠ [] →
      (resolve s env system).select root pathExists = (some ⟨t, root⟩, [])) ∧
    ((∀ t, s.executable = some t → t = []) →
      (∃ r, Candidates.Searched pathExists (resolve s env system).paths r ∧
        (resolve s env system).select root pathExists = (r.1.map (⟨·, root⟩), r.2)) ∧
      (((resolve s env system).select root pathExists).1 = none ↔
        ∀ p ∈ (resolve s env system).paths, pathExists p = false)) := by
  refine ⟨?_, ?_, ?_, ?_⟩
  · have htools := considers_homeRule ⟨"REPROTO_HOME", []⟩ (Host.executableName system) env
    have hhome := considers_homeRule ⟨"HOME", [".local", "bin"]⟩ (Host.executableName system) env
    have hprofile :=
      considers_homeRule ⟨"USERPROFILE", [".local", "bin"]⟩ (Host.executableName system) env
    refine ⟨_, _, _, _, _, rfl, ?_, considers_resolveExplicit s, htools, hhome, hprofile,
      considers_resolveSearchPath _ env⟩
    simp [resolve, homeRules]
  · intro searchPath
    obtain ⟨dirs, hd, rfl⟩ := exists_join searchPath
    exact ⟨dirs, hd, rfl, entries_join hd⟩
  · intro t ht hne
    exact Candidates.select_configured root pathExists (defined_eq_some_iff.mpr ⟨ht, hne⟩)
  · intro hunset
    have hs : Candidates.Searched pathExists _ _ :=
      Candidates.searched_firstExisting (resolve_ne_nil s env system)
    rw [Candidates.select_searched root pathExists (defined_eq_none_iff.mpr hunset)]
    refine ⟨⟨_, hs, rfl⟩, ?_⟩
    rw [Option.map_eq_none_iff]
    exact hs.eq_none_iff

/-- Directories that are not named are left out of a search path, and what is found stands in a
directory behind them; an executable that is set is taken though nothing exists. -/
theorem resolve_and_select_in_order_of_gaps :
    let env : Environment := [("REPROTO_HOME", ""), ("HOME", "/u"), ("PATH", "/a::/b:/c")]
    let c := resolve { executable := some "" } env "linux"
    let taken : Toolchain := ⟨"/b/reproto", some "/w"⟩
    let looked : List Text := ["/u/.local/bin/reproto", "/a/reproto", "/b/reproto"]
    c.paths = ["/u/.local/bin/reproto", "/a/reproto", "/b/reproto", "/c/reproto"] ∧
      (∃ r, Candidates.Searched (· = "/b/reproto") c.paths r ∧
        r.1.map (Toolchain.mk · (some "/w")) = some taken ∧ r.2 = looked) ∧
      (resolve { executable := some "/e" } env "linux").select none (fun _ => false) =
        (some ⟨"/e", none⟩, []) := by
  intro env c taken looked
  have hsearched := (resolve_and_select_in_order { executable := some "" } env "linux" (some "/w")
    (· = "/b/reproto")).2.2.2 (by decide +kernel)
  have hset := (resolve_and_select_in_order { executable := some "/e" } env "linux" none
    fun _ => false).2.2.1
  refine ⟨by decide +kernel, ?_, hset "/e" rfl (by decide)⟩
  obtain ⟨⟨r, hr, hs⟩, -⟩ := hsearched
  have hv : c.select (some "/w") (· = "/b/reproto") = (some taken, looked) := by
    decide +kernel
  exact ⟨r, hr, Prod.mk.inj (hs.symm.trans hv)⟩

end Discovery

end Workbench
