import Workbench.Discovery.Locate
import Workbench.Install
import Workbench.Proofs.Install.Places
import Workbench.Proofs.Path.Joined

/-! # What was installed is found

An installation and a discovery go down from the same home directory, one by path names and
the other by texts. Read as a path name, the candidate below `HOME` is where the executable is
put. So a search that looks there finds it, whatever stands before it in the order.
-/

namespace Workbench

open Workbench.Path (tidy)

/-! ## Selection -/

namespace Candidates

variable {pathExists : Text → Bool} {path : Text}

theorem isSome_firstExisting {paths : List Text} (hp : path ∈ paths) (hn : path ≠ [])
    (he : pathExists path) : (firstExisting pathExists paths).1.isSome := by
  induction paths with
  | nil => cases hp
  | cons first paths ih =>
    rw [firstExisting]
    split_ifs with hempty hfirst
    · refine ih ((List.mem_cons.mp hp).resolve_left ?_)
      rintro rfl
      exact hn (List.isEmpty_iff.mp hempty)
    · rfl
    · refine ih ((List.mem_cons.mp hp).resolve_left ?_)
      rintro rfl
      exact hfirst he

theorem exists_select (c : Candidates) (root : Option Text) (hp : path ∈ c.paths) (hn : path ≠ [])
    (he : pathExists path) : ∃ t, (c.select root pathExists).1 = some t := by
  rw [select]
  split
  · exact ⟨_, rfl⟩
  · obtain ⟨found, hf⟩ := Option.isSome_iff_exists.mp (isSome_firstExisting hp hn he)
    refine ⟨⟨found, root⟩, ?_⟩
    change (firstExisting pathExists c.paths).1.map _ = _
    rw [hf]
    rfl

end Candidates

theorem Discovery.defined_eq_some_iff {given : Option Text} {t : Text} :
    defined given = some t ↔ given = some t ∧ t ≠ [] := by
  simp [defined, Option.filter_eq_some_iff]

/-! ## The candidate below the home directory -/

namespace Install

variable {version home platform arch : Text} {u : User} {plan : Plan} {p : PathName}

/-- Where executables go, as discovery spells it. -/
def candidate (home system : Text) : Text :=
  Path.joinAll home [".local", "bin", Host.executableName system]

theorem candidate_mem_paths (s : Settings) (hh : u.env.get? "HOME" = some home) (hn : home ≠ []) :
    candidate home u.system ∈ (Discovery.resolve s u.env u.system).paths := by
  have hd := Discovery.defined_eq_some_iff.mpr ⟨hh, hn⟩
  have hr : (Discovery.HomeRule.resolve ⟨"HOME", [".local", "bin"]⟩
      (Host.executableName u.system) u.env).2 = [candidate home u.system] := by
    rw [Discovery.HomeRule.resolve, hd]
    rfl
  refine List.mem_flatMap.mpr ⟨_, ?_, hr ▸ List.mem_singleton_self _⟩
  simp [Discovery.homeRules]

theorem ofText_candidate (home system : Text) : PathName.ofText (candidate home system) =
    (((PathName.ofText home).child ".local").child "bin").child (Host.executableName system) :=
  Path.ofText_joinAll home _

theorem executableName_ne_nil (system : Text) : Host.executableName system ≠ [] := by
  obtain ⟨t, c, ht, -⟩ := executableName_ends system
  rw [ht]
  exact List.concat_ne_nil c t

theorem candidate_ne_nil (home system : Text) : candidate home system ≠ [] :=
  Path.join_ne_nil (executableName_ne_nil system)

/-! ## Plans -/

theorem home_eq_ok_iff {dir : PathName} : u.home = .ok dir ↔
    ∃ home, u.env.get? "HOME" = some home ∧ home ≠ [] ∧ PathName.ofText home = dir := by
  have hu : u.home = .ok dir ↔
      ∃ home, Discovery.defined (u.env.get? "HOME") = some home ∧ PathName.ofText home = dir := by
    rw [User.home, ← Discovery.defined]
    cases Discovery.defined (u.env.get? "HOME") with
    | none => simp
    | some home => simp
  simp only [hu, Discovery.defined_eq_some_iff, and_assoc]

theorem exists_plan_eq (version : Text) (hh : u.env.get? "HOME" = some home) (hn : home ≠ [])
    (hp : Host.platform u.system = .ok platform) (ha : Host.arch u.machine = .ok arch) :
    ∃ p, Plan.of version u = .ok p ∧ p.version = version ∧
      p.archiveName = "reproto-" ++ (version ++ "-" ++ (platform ++ "-" ++ arch)) ++ ".tar.gz" ∧
      p.archive = ((u.dataHome (.ofText home)).child "releases").child p.archiveName ∧
      p.binary = (((PathName.ofText home).child ".local").child "bin").child
        (Host.executableName u.system) := by
  have hu := home_eq_ok_iff.mpr ⟨home, hh, hn, rfl⟩
  have ht : u.target = .ok (platform ++ "-" ++ arch) := by
    rw [User.target, hp, ha]
  rw [Plan.of, hu, ht]
  exact ⟨_, rfl, rfl, rfl, rfl, rfl⟩

theorem exists_plan (version : Text) (hh : u.env.get? "HOME" = some home) (hn : home ≠ [])
    (hp : Host.platform u.system = .ok platform) (ha : Host.arch u.machine = .ok arch) :
    ∃ plan, Plan.of version u = .ok plan := by
  obtain ⟨plan, hplan, -⟩ := exists_plan_eq version hh hn hp ha
  exact ⟨plan, hplan⟩

theorem binary_of_plan (h : Plan.of version u = .ok plan) :
    ∃ home, u.env.get? "HOME" = some home ∧ home ≠ [] ∧
      plan.binary = PathName.ofText (candidate home u.system) := by
  cases hu : u.home with
  | error f =>
    rw [Plan.of, hu] at h
    cases h
  | ok dir =>
    obtain ⟨home, hh, hn, rfl⟩ := home_eq_ok_iff.mp hu
    refine ⟨home, hh, hn, ?_⟩
    rw [ofText_candidate]
    cases ht : u.target with
    | error f =>
      rw [Plan.of, hu, ht] at h
      cases h
    | ok target =>
      rw [Plan.of, hu, ht] at h
      cases h
      rfl

theorem plan_of_run [Path.WorkingDirectory] [Web.Transport] {site site' : Site}
    (h : run u site = (.ok p, site')) :
    ∃ version plan, Plan.of version u = .ok plan ∧ plan.binary = p := by
  rw [run] at h
  split at h
  · cases h
  · next version site₁ hv =>
    split at h
    · cases h
    · next plan hplan =>
      split at h
      · cases h
      · cases h
        exact ⟨version, plan, hplan, rfl⟩

/-! ## Rediscovery -/

/-- For a supported host and a known home directory every version has a plan, and an
installation that succeeds puts the executable where the plan says. This is a place where
discovery looks, so it takes a toolchain whenever there is a file. -/
theorem plan_rediscovered [Surroundings] [Web.Transport] (version : Text) (s : Settings)
    (hh : u.env.get? "HOME" = some home) (hn : home ≠ [])
    (hp : Host.platform u.system = .ok platform)
    (ha : Host.arch u.machine = .ok arch) :
    ∃ plan, Plan.of version u = .ok plan ∧
      (∃ path ∈ (Discovery.resolve s u.env u.system).paths, tidy path = plan.binary.text) ∧
      (∀ pathExists : Text → Bool, (∀ a b, tidy a = tidy b → pathExists a = pathExists b) →
        pathExists plan.binary.text → ∀ root,
          ∃ t, ((Discovery.resolve s u.env u.system).select root pathExists).1 = some t) ∧
      (∀ site site' p, run u site = (.ok p, site') → p = plan.binary) ∧
      ∀ (root : Option Text) (w : World) (e e' : Editor), w.isFile plan.binary.text →
        e.appendLine "reactivating extension" = (e', none) →
          ∃ t, Search.again ⟨s, u.env, u.system, root⟩ e w = (.ok (some t), e', w) := by
  obtain ⟨plan, hplan⟩ := exists_plan version hh hn hp ha
  have hbinary : ∀ {version plan}, Plan.of version u = .ok plan →
      plan.binary = PathName.ofText (candidate home u.system) := by
    intro version plan h
    obtain ⟨home', hh', -, hb⟩ := binary_of_plan h
    obtain rfl := Option.some.inj (hh.symm.trans hh')
    exact hb
  have hmem := candidate_mem_paths s hh hn
  have hne := candidate_ne_nil home u.system
  have htidy : tidy (candidate home u.system) = plan.binary.text := by
    rw [hbinary hplan, tidy]
  have htext : PathName.ofText (candidate home u.system) = PathName.ofText plan.binary.text := by
    rw [← htidy, Path.ofText_tidy]
  refine ⟨plan, hplan, ⟨_, hmem, htidy⟩, ?_, ?_, ?_⟩
  · intro pathExists hrespects hex root
    refine Candidates.exists_select _ root hmem hne ?_
    rwa [hrespects _ _ (Path.tidy_eq_tidy_iff.mpr htext)]
  · intro site site' p hrun
    obtain ⟨version', plan', hplan', rfl⟩ := plan_of_run hrun
    rw [hbinary hplan', hbinary hplan]
  · intro root w e e' hfile htold
    have hc : w.isFile (candidate home u.system) := by
      rw [World.isFile, Bool.and_eq_true] at hfile ⊢
      refine ⟨by simpa using hne, ?_⟩
      rw [Path.absolute_congr htext]
      exact hfile.2
    obtain ⟨t, ht⟩ := Candidates.exists_select _ root hmem hne hc
    have hf : (Search.mk s u.env u.system root).find? w = some t := ht
    refine ⟨t, ?_⟩
    rw [Search.again, htold]
    change Search.attempt _ e' w = _
    rw [Search.attempt, hf]

end Install

open Surroundings Web.Transport in
/-- A home directory that is spelt with more slashes than it needs. -/
theorem Install.plan_rediscovered_of_respelled :
    let u : User := ⟨[("HOME", "//home/./u//"), ("PATH", "/usr/bin")], "darwin", "AMD64"⟩
    ∃ plan, Plan.of "1.2" u = .ok plan ∧ plan.binary.text = "//home/u/.local/bin/reproto" ∧
      ∃ t, ((Discovery.resolve {} u.env u.system).select none
        fun t => tidy t = "//home/u/.local/bin/reproto").1 = some t := by
  intro u
  have hh : u.env.get? "HOME" = some "//home/./u//" := by decide
  have hp : Host.platform u.system = .ok "osx" := by decide
  have ha : Host.arch u.machine = .ok "x86_64" := by decide
  obtain ⟨plan, hplan, -, hselect, -⟩ := plan_rediscovered "1.2" {} hh (by decide) hp ha
  have htext : plan.binary.text = "//home/u/.local/bin/reproto" := by
    cases hplan
    decide +kernel
  refine ⟨plan, hplan, htext, hselect _ ?_ ?_ none⟩
  · intro a b h
    rw [h]
  · rw [htext]
    decide +kernel

end Workbench
