import Workbench.Proofs.Install.Archives
import Workbench.Proofs.Install.Rediscovery
import Workbench.Proofs.Text.Words

/-! # The cache of releases

An archive is kept under a name that has the version in it, and the version is what the server
names. Without a slash that is a name in the directory of releases, and an installation writes
nothing outside but the executable. A slash is not looked for: with one the archive goes
elsewhere, as far up as the version leads.
-/

namespace Workbench

open Disk Workbench.Path

/-! ## Names -/

namespace Path

variable {p : PathName} {t : Text}

theorem components_eq_singleton (h : IsName t) : components t = [t] := by
  have hc : components (Text.join [slash] [t]) = [t] :=
    components_join (List.forall_mem_singleton.mpr h)
  rwa [Text.join, List.intercalate_singleton] at hc

theorem child_eq (p : PathName) (h : IsName t) : p.child t = ⟨p.anchor, p.parts ++ [t]⟩ := by
  have hl : leading t = 0 := by
    obtain ⟨c, t, rfl⟩ := List.exists_cons_of_ne_nil h.ne_nil
    have ha : ¬ isAbsolute (c :: t) := by
      rw [isAbsolute_iff, List.head?_cons]
      rintro ⟨rfl⟩
      exact h.slash_not_mem List.mem_cons_self
    simpa [isAbsolute] using ha
  rw [PathName.child, PathName.ofText, hl, components_eq_singleton h]
  rfl

theorem IsClean.child (h : IsClean p) (t : Text) : IsClean (p.child t) := h.under (isClean_ofText t)

theorem IsClean.slash_not_mem_name (h : IsClean p) : slash ∉ p.name := by
  rw [PathName.name, List.getLastD_eq_getLast?]
  cases hl : p.parts.getLast? with
  | none => exact List.not_mem_nil
  | some last => exact (h.names last (List.mem_of_getLast? hl)).slash_not_mem

/-- Put below a directory, a text is the last component as it is just when it is a name. -/
theorem child_name_eq_iff (hd : IsClean p) (hn : t ≠ []) (ht : t ≠ dot) :
    (p.child t).parent = p ∧ (p.child t).name = t ↔ slash ∉ t := by
  constructor
  · rintro ⟨-, hname⟩
    exact hname ▸ (hd.child t).slash_not_mem_name
  · intro h
    rw [child_eq p ⟨h, hn, ht⟩, PathName.parent, PathName.name, List.dropLast_concat,
      List.getLastD_concat]
    exact ⟨rfl, rfl⟩

end Path

namespace Install

variable {a : Attempt} {d : Disk} {p : Plan} {u : User} {q : List Text}
  {version home platform arch : Text}

/-! ## Names of archives -/

theorem slash_mem_firstRelease_iff (listing : Text) :
    slash ∈ firstRelease listing ↔ slash ∈ (listing.cut '\n').1 :=
  Text.mem_strip_iff (by decide)

theorem slash_not_mem_platform {system : Text} (h : Host.platform system = .ok platform) :
    slash ∉ platform := by
  unfold Host.platform at h
  split at h
  · next r hr =>
    obtain rfl := Except.ok.inj h
    have hall : ∀ r ∈ Host.platforms, slash ∉ r.2 := by decide
    exact hall r (List.mem_of_find?_eq_some hr)
  · cases h

theorem slash_not_mem_arch {machine : Text} (h : Host.arch machine = .ok arch) : slash ∉ arch := by
  unfold Host.arch at h
  split_ifs at h
  obtain rfl := Except.ok.inj h
  decide

theorem isClean_dataHome (u : User) (home : Text) : IsClean (u.dataHome (.ofText home)) := by
  unfold User.dataHome
  split
  · exact isClean_ofText _
  · exact ((isClean_ofText home).child _).child _

theorem slash_mem_archiveName_iff (hp : slash ∉ platform) (ha : slash ∉ arch) :
    slash ∈ ("reproto-" ++ (version ++ "-" ++ (platform ++ "-" ++ arch)) ++ ".tar.gz" : Text) ↔
      slash ∈ version := by
  have h₁ : slash ∉ ("reproto-" : Text) := by decide
  have h₂ : slash ∉ ("-" : Text) := by decide
  have h₃ : slash ∉ (".tar.gz" : Text) := by decide
  simp only [List.mem_append, h₁, h₂, h₃, hp, ha, or_false, false_or]

theorem lt_length_archiveName (version target : Text) :
    2 < ("reproto-" ++ (version ++ "-" ++ target) ++ ".tar.gz" : Text).length := by
  have h : ("reproto-" : Text).length = 8 := by decide
  simp only [List.length_append]
  omega

theorem isName_part {t : Text} (h : IsName t) : IsName (t ++ ".part") := by
  have hs : slash ∉ (".part" : Text) := by decide
  constructor
  · rw [List.mem_append, not_or]
    exact ⟨h.slash_not_mem, hs⟩
  · exact List.append_ne_nil_of_left_ne_nil h.ne_nil _
  · exact part_ne t (Nat.lt_add_left t.length (by decide))

theorem partialFile_child {t : Text} (h : IsName t) (dir : PathName) :
    partialFile (dir.child t) = dir.child (t ++ ".part") := by
  rw [child_eq dir h, child_eq dir (isName_part h), partialFile, PathName.withName, PathName.name,
    List.getLastD_concat, List.dropLast_concat]

theorem place_child [WorkingDirectory] {dir : PathName} {t : Text} (h : IsName t) (ht : t ≠ dotDot)
    (hq : d.place (dir.child t) = .ok q) :
    ∃ above, d.follow (start dir) dir.parts = .ok above ∧ q = above ++ [t] := by
  have hf := follow_of_place hq
  rw [child_eq dir h] at hf
  obtain ⟨above, ha, -, he⟩ := follow_concat_iff.mp hf
  exact ⟨above, ha, enter_eq_append ht he⟩

section

variable [Web.Transport]

/-! ## Versions -/

theorem firstRelease_of_version (h : a.version = .ok version) : ∃ answer content,
    (a.client.get "/releases").1 = .ok answer ∧ answer.response.content = .ok content ∧
      version = firstRelease content.text := by
  rw [Attempt.version, latestVersion, Site.get] at h
  cases ha : (a.client.get "/releases").1 with
  | error f =>
    rw [ha] at h
    cases h
  | ok answer =>
    rw [ha] at h
    change versionOf answer = _ at h
    rw [versionOf] at h
    cases hc : answer.response.content with
    | error f =>
      rw [hc] at h
      cases h
    | ok content =>
      rw [hc] at h
      dsimp only at h
      split_ifs at h
      exact ⟨answer, content, rfl, hc, (Except.ok.inj h).symm⟩

theorem Attempt.Plans.unique {p' : Plan} (h : a.Plans p) (h' : a.Plans p') : p' = p := by
  have hv : p'.version = p.version := Except.ok.inj (h'.1.symm.trans h.1)
  exact Except.ok.inj (h'.2.symm.trans (hv ▸ h.2))

variable [WorkingDirectory]

/-! ## What an attempt changes -/

/-- The archive and its partial file are directly in the cache, and an attempt changes nothing
else but the executable. -/
structure StaysInCache (a : Attempt) (p : Plan) (releases : PathName) : Prop where
  archive : ∀ (d : Disk) q, d.place p.archive = .ok q →
    ∃ above, d.follow (start releases) releases.parts = .ok above ∧ q = above ++ [p.archiveName]
  changes : ∀ (d : Disk) q,
    (∀ above, (a.run d).2.disk.follow (start releases) releases.parts = .ok above →
      q ≠ above ++ [p.archiveName] ∧ q ≠ above ++ [p.archiveName ++ ".part"]) →
    (a.run d).2.disk.place p.binary ≠ .ok q → d.KeptOrRoom (a.run d).2.disk q

theorem staysInCache {releases : PathName} (hplan : a.Plans p)
    (harchive : p.archive = releases.child p.archiveName) (hname : IsName p.archiveName)
    (hdots : p.archiveName ≠ dotDot) : StaysInCache a p releases := by
  constructor
  · intro d q hq
    rw [harchive] at hq
    exact place_child hname hdots hq
  · intro d q hq hb
    rcases a.run_changes d with hd | ⟨p', hp', hc⟩
    · exact .inl (by rw [hd])
    obtain rfl := hplan.unique hp'
    refine hc.within.elsewhere q ?_
    rw [harchive, partialFile_child hname]
    refine List.forall_mem_cons.mpr ⟨fun hpart => ?_, List.forall_mem_cons.mpr ⟨fun hplace => ?_,
      List.forall_mem_singleton.mpr hb⟩⟩
    · obtain ⟨above, ha, rfl⟩ := place_child (isName_part hname) (part_ne_dotDot _) hpart
      exact (hq above ha).2 rfl
    · obtain ⟨above, ha, rfl⟩ := place_child hname hdots hplace
      exact (hq above ha).1 rfl

/-- The archive for the version that a listing names is directly in the cache under its name just
when the line has no slash, and then an attempt stays there. The executable goes where it goes for
every version. -/
theorem archive_in_cache_iff (hv : a.version = .ok version)
    (hh : a.user.env.get? "HOME" = some home) (hn : home ≠ [])
    (hp : Host.platform a.user.system = .ok platform) (ha : Host.arch a.user.machine = .ok arch) :
    ∃ p, a.Plans p ∧ p.version = version ∧
      p.archiveName = "reproto-" ++ (version ++ "-" ++ (platform ++ "-" ++ arch)) ++ ".tar.gz" ∧
      (∃ answer content, (a.client.get "/releases").1 = .ok answer ∧
        answer.response.content = .ok content ∧ version = firstRelease content.text ∧
        (p.archive.parent = (a.user.dataHome (.ofText home)).child "releases" ∧
          p.archive.name = p.archiveName ↔ slash ∉ (content.text.cut '\n').1)) ∧
      (slash ∉ version →
        StaysInCache a p ((a.user.dataHome (.ofText home)).child "releases")) ∧
      ∀ version' p', Plan.of version' a.user = .ok p' → p'.binary = p.binary := by
  obtain ⟨p, hplan, hversion, hname, harchive, hbinary⟩ := exists_plan_eq version hh hn hp ha
  obtain ⟨answer, content, hanswer, hcontent, hfirst⟩ := firstRelease_of_version hv
  have hslash : slash ∈ p.archiveName ↔ slash ∈ version := by
    rw [hname]
    exact slash_mem_archiveName_iff (slash_not_mem_platform hp) (slash_not_mem_arch ha)
  have hlen : 2 < p.archiveName.length := by
    rw [hname]
    exact lt_length_archiveName version _
  have hne {t : Text} (ht : t.length ≤ 2) : p.archiveName ≠ t := by
    rintro rfl
    omega
  have hplans : a.Plans p := ⟨hversion ▸ hv, hversion ▸ hplan⟩
  have hclean := (isClean_dataHome a.user home).child "releases"
  refine ⟨p, hplans, hversion, hname, ⟨answer, content, hanswer, hcontent, hfirst, ?_⟩, ?_, ?_⟩
  · rw [harchive, child_name_eq_iff hclean (hne (by decide)) (hne (by decide)), not_iff_not,
      hslash, hfirst]
    exact slash_mem_firstRelease_iff _
  · intro hs
    exact staysInCache hplans harchive
      ⟨mt hslash.mp hs, hne (by decide), hne (by decide)⟩ (hne (by decide))
  · intro version' p' hp'
    obtain ⟨p'', hplan'', -, -, -, hbinary''⟩ := exists_plan_eq version' hh hn hp ha
    obtain rfl := Except.ok.inj (hplan''.symm.trans hp')
    rw [hbinary'', hbinary]

end

open Surroundings Web.Transport in
/-- A release that is named without a slash, for a user who keeps data in a directory that does
not lead straight down. -/
theorem archive_in_cache_of_release :
    let server : Web.Server := .ofList
      [("/reproto-releases/releases", .ok { body := [.ofOctets (Utf8.encode "\t1.0-é \n2")] })]
    let a : Attempt :=
      { user := { env := [("HOME", "/u"), ("XDG_DATA_HOME", "data/..")] }
        client := { options := clientOptions, server := server } }
    ∃ p, a.Plans p ∧ p.archiveName = "reproto-1.0-é-linux-x86_64.tar.gz" ∧
      p.archive.parent = .ofText "data/../releases" ∧ p.archive.name = p.archiveName ∧
      StaysInCache a p (.ofText "data/../releases") := by
  intro server a
  have hv : a.version = .ok "1.0-é" := by
    have h : a.version.toOption = some "1.0-é" := by decide +kernel
    cases hv : a.version with
    | error f =>
      rw [hv] at h
      cases h
    | ok version =>
      rw [hv] at h
      rw [Option.some.inj h]
  have hcache : (a.user.dataHome (.ofText "/u")).child "releases" = .ofText "data/../releases" := by
    decide +kernel
  have hs : slash ∉ ("1.0-é" : Text) := by decide
  have hp : Host.platform a.user.system = .ok "linux" := by decide
  have harch : Host.arch a.user.machine = .ok "x86_64" := by decide
  obtain ⟨p, hplans, -, hname, ⟨answer, content, -, -, hfirst, hiff⟩, hstays, -⟩ :=
    archive_in_cache_iff hv (by decide : a.user.env.get? "HOME" = some "/u") (by decide) hp harch
  rw [hcache] at hiff hstays
  obtain ⟨hparent, harchive⟩ := hiff.mpr
    (mt (slash_mem_firstRelease_iff _).mpr (hfirst ▸ hs))
  exact ⟨p, hplans, hname.trans (by decide +kernel), hparent, harchive, hstays hs⟩

open Surroundings Web.Transport in
/-- A version with slashes and `..` in it leads out of the cache, and the archive is written
there. -/
theorem archive_escapes_cache :
    let m : Archive.Member := ⟨"reproto", .file, [1]⟩
    let server : Web.Server := .ofList
      [("/reproto-releases/releases",
          .ok { body := [.ofOctets (Utf8.encode "1/../../../evil\n")] }),
       ("/evil-linux-x86_64.tar.gz", .ok { body := [Archive.pack [m]] })]
    let a : Attempt :=
      { user := { env := [("HOME", "/u")] }
        client := { options := clientOptions, server := server } }
    let plan := Plan.of "1/../../../evil" a.user
    a.version.toOption = some "1/../../../evil" ∧
      plan.toOption.map (·.archive.parent) =
        some (.ofText "/u/.local/share/releases/reproto-1/../../..") ∧
      plan.toOption.map (·.archive.name) = some "evil-linux-x86_64.tar.gz" ∧
      (a.run {}).1.toOption = some (.ofText "/u/.local/bin/reproto") ∧
      (a.run {}).2.disk.node? ["u", ".local", "evil-linux-x86_64.tar.gz"] =
        some (.file (Archive.pack [m]) false) := by
  decide +kernel

end Install

end Workbench
