import Workbench.Proofs.Install.Attempts
import Workbench.Surroundings

/-! # Archives that are kept

An attempt changes what stands where its archive, its partial file and its executable go, and
makes directories. An archive comes to its place as a whole, so what stands there after attempts
that succeeded or failed is what stood there first, a directory, or all that a server gave.
-/

namespace Workbench.Install

open Disk Workbench.Path

variable {d d' d'' : Disk} {s s' : Site} {p : Plan} {c : Web.Client} {name : Text}
  {dest : PathName} {q : List Text} {fault : Option Fault} {a : Attempt}

section

variable [Path.WorkingDirectory]

/-- A path leads through its own place on the way only by a `..`. -/
theorem dotDot_mem_of_follow {place front : List Text} (hp : d.place dest = .ok place)
    (hne : place ≠ start dest) (hf : front <+: dest.parts.dropLast)
    (hw : d.follow (start dest) front = .ok place) : dotDot ∈ dest.parts := by
  by_contra hn
  have hplace : place = start dest ++ dest.parts := follow_eq_append hn (follow_of_place hp)
  have hsub := hf.trans (List.dropLast_prefix dest.parts)
  have hfront : place = start dest ++ front := follow_eq_append (mt (hsub.mem ·) hn) hw
  obtain rfl : front = dest.parts := List.append_cancel_left (hfront.symm.trans hplace)
  have hl := hf.length_le
  rw [List.length_dropLast] at hl
  have hpos : 0 < dest.parts.length := by
    refine List.length_pos_iff.mpr fun hnil => hne ?_
    rw [hplace, hnil, List.append_nil]
  omega

/-! ## Carrying out a plan -/

theorem Extracts.within (h : Extracts p d d' fault) : d.ChangesWithin [p.binary] d' := by
  cases h with
  | refused f ha => exact ha.within _
  | present _ he => exact he ▸ (AddsDirectories.refl d).within _
  | unpacked d₁ members place f fault _ ha _ hp hu _ =>
    refine (ha.within _).trans ⟨hu.keeps, fun q hq => .inl (hu.node?_of_ne q ?_)⟩
    rintro rfl
    exact hq p.binary (List.mem_singleton_self _) (place_eq_of_keeps hu.keeps hp)

theorem finish_within (h : p.finish s = (s', fault)) :
    s.disk.ChangesWithin [p.binary] s'.disk := by
  unfold Plan.finish at h
  rcases hg : grant p.binary s.disk with ⟨d₁, f⟩
  simp only [Site.change, hg] at h
  rcases grant_cases hg with ⟨rfl, hf⟩ | ⟨rfl, place, n, hfind, hs⟩
  · obtain ⟨f, rfl⟩ := Option.ne_none_iff_exists'.mp hf
    cases h
    exact (AddsDirectories.refl _).within _
  · obtain ⟨hp, hn⟩ := find_eq_ok_iff.mp hfind
    rw [(tell_keeps h).1]
    refine hs.within (hs.keeps fun hdir => ?_) hp (List.mem_singleton_self _)
    rw [Option.some.inj (hn.symm.trans hdir)]
    rfl

variable [Web.Transport]

/-- What a plan changes on a disk: where it writes, and a file where its archive goes only if
there was none and the server gave it. -/
structure Plan.Changes (p : Plan) (c : Web.Client) (d d' : Disk) : Prop where
  within : d.ChangesWithin [partialFile p.archive, p.archive, p.binary] d'
  archive : ∀ q, d'.place p.archive = .ok q → d.KeptOrRoom d' q ∨
    d.contains p.archive = .ok false ∧ ∃ content x, Gives c p.archiveName content ∧
      d'.node? q = some (.file content x)

theorem Plan.Changes.of_addsDirectories (h : d.AddsDirectories d') : p.Changes c d d' :=
  ⟨h.within _, fun q _ => .inl (h q)⟩

theorem Plan.Changes.of_alike {c' : Web.Client} (h : p.Changes c' d d') (hc : c.Alike c') :
    p.Changes c d d' := by
  refine ⟨h.within, fun q hq => (h.archive q hq).imp_right ?_⟩
  rintro ⟨hmissing, content, x, hg, hn⟩
  exact ⟨hmissing, content, x, hg.of_alike hc, hn⟩

theorem Downloaded.changes (h : Downloaded c p.archiveName p.archive d d' fault)
    (hmissing : d.contains p.archive = .ok false) : p.Changes c d d' := by
  refine ⟨h.within.mono (by simp), fun q hq => ?_⟩
  cases fault with
  | some f =>
    rcases h.kept hq with hkept | ⟨hn, hdir, -⟩
    · exact .inl (.inl hkept)
    · exact .inl (.inr ⟨hn, hdir⟩)
  | none =>
    obtain ⟨a, ha, hs, hb, hr, -⟩ := h.complete
    obtain ⟨place, x, hfind⟩ := read_eq_ok_iff.mp hr
    obtain ⟨hp, hn⟩ := find_eq_ok_iff.mp hfind
    obtain rfl := Except.ok.inj (hp.symm.trans hq)
    exact .inr ⟨hmissing, _, x, ⟨a, ha, hs, Web.Response.content_eq_ok_iff.mpr ⟨hb, rfl⟩⟩, hn⟩

theorem Obtains.changes (h : Obtains c p d d' fault) : p.Changes c d d' := by
  cases h with
  | refused f he => exact .of_addsDirectories (he ▸ .refl d)
  | present _ he => exact .of_addsDirectories (he ▸ .refl d)
  | downloaded _ hmissing h => exact h.changes hmissing

theorem Obtains.exists_place (h : Obtains c p d d' none) : ∃ q, d'.place p.archive = .ok q := by
  cases h with
  | present hc he =>
    obtain ⟨place, n, hfind⟩ := contains_eq_true_iff.mp hc
    exact ⟨place, he ▸ (find_eq_ok_iff.mp hfind).1⟩
  | downloaded _ _ h =>
    obtain ⟨a, -, -, -, hr, -⟩ := h.complete
    obtain ⟨place, x, hfind⟩ := read_eq_ok_iff.mp hr
    exact ⟨place, (find_eq_ok_iff.mp hfind).1⟩

theorem Plan.Changes.trans_within (h : p.Changes c d d') (hw : d'.ChangesWithin [p.binary] d'')
    (hplace : ∃ q, d'.place p.archive = .ok q)
    (hne : ∀ q, d''.place p.archive = .ok q → d''.place p.binary ≠ .ok q) :
    p.Changes c d d'' := by
  refine ⟨h.within.trans (hw.mono (by simp)), fun q hq => ?_⟩
  obtain ⟨place, hp⟩ := hplace
  obtain rfl := Except.ok.inj ((place_eq_of_keeps hw.keeps hp).symm.trans hq)
  have hk := hw.elsewhere place (List.forall_mem_singleton.mpr (hne place hq))
  rcases h.archive place hp with hkept | ⟨hmissing, content, x, hg, hn⟩
  · exact .inl (hkept.trans hk)
  · exact .inr ⟨hmissing, content, x, hg, hk.node?_eq hn⟩

theorem carryOut_changes {version : Text} {u : User} (hp : Plan.of version u = .ok p)
    (h : p.carryOut s = (s', fault)) : p.Changes s.client s.disk s'.disk := by
  have hne : ∀ (e : Disk) q, e.place p.archive = .ok q → e.place p.binary ≠ .ok q := by
    intro e q hq hb
    exact not_isDownload_of_binary hp hb (.inl (endOf_place (endOf_archive hp) (by decide) hq))
  rcases takeSteps_cons_eq h with ⟨f, ht, rfl⟩ | ⟨s₁, ht, h⟩
  · rw [(tell_keeps ht).1]
    exact .of_addsDirectories (.refl _)
  obtain ⟨hd₁, hc₁⟩ := tell_keeps ht
  rw [← hd₁, ← hc₁]
  rcases takeSteps_cons_eq h with ⟨f, ho, rfl⟩ | ⟨s₂, ho, h⟩
  · exact (obtains_obtain ho).2.changes
  have ho := (obtains_obtain ho).2
  suffices hw : s₂.disk.ChangesWithin [p.binary] s'.disk from
    ho.changes.trans_within hw ho.exists_place (hne _)
  rcases takeSteps_cons_eq h with ⟨f, he, rfl⟩ | ⟨s₃, he, h⟩
  · exact (extract_outcome he).within
  · rw [takeSteps, foldUntil_singleton] at h
    exact (extract_outcome he).within.trans (finish_within h)

/-! ## Attempts -/

namespace Attempt

/-- The attempt fetches an archive to a place: all that the server gives for it, where the
archive was missing. -/
def Fetches (a : Attempt) (d : Disk) (q : List Text) (content : Content) : Prop :=
  ∃ p, a.Plans p ∧ d.contains p.archive = .ok false ∧ (a.run d).2.disk.place p.archive = .ok q ∧
    Gives a.client p.archiveName content

theorem run_changes (a : Attempt) (d : Disk) :
    (a.run d).2.disk = d ∨ ∃ p, a.Plans p ∧ p.Changes a.client d (a.run d).2.disk := by
  rcases a.run_eq d with ⟨f, -, hd⟩ | ⟨p, s, s', fault, hp, hc, rfl, hrun, hr⟩
  · exact .inl hd
  · rw [hr]
    exact .inr ⟨p, hp, (carryOut_changes hp.2 hrun).of_alike hc⟩

/-- Where archives go an attempt leaves what stood there, a directory, or a whole archive. -/
theorem kept_or_fetched (a : Attempt) (d : Disk) (hq : endOf q = some (.char 'z')) :
    d.KeptOrRoom (a.run d).2.disk q ∨ ∃ content x,
      (a.run d).2.disk.node? q = some (.file content x) ∧ a.Fetches d q content := by
  rcases a.run_changes d with hd | ⟨p, hp, hc⟩
  · exact .inl (.inl (by rw [hd]))
  by_cases hplace : (a.run d).2.disk.place p.archive = .ok q
  · rcases hc.archive q hplace with hk | ⟨hmissing, content, x, hg, hn⟩
    · exact .inl hk
    · exact .inr ⟨content, x, hn, p, hp, hmissing, hplace, hg⟩
  · -- A partial file ends in another way, and so does an executable.
    refine .inl (hc.within.elsewhere q ?_)
    simp only [List.forall_mem_cons, List.not_mem_nil, false_imp_iff, implies_true, and_true]
    refine ⟨fun hpart => ?_, hplace, fun hb => ?_⟩
    · have hend := endOf_place (endOf_partialFile p.archive) (by decide) hpart
      cases hq.symm.trans hend
    · exact not_isDownload_of_binary hp.2 hb (.inl hq)

end Attempt

theorem after_kept_or_fetched (d : Disk) (attempts : List Attempt)
    (hq : endOf q = some (.char 'z')) :
    d.KeptOrRoom (after d attempts) q ∨ ∃ content x before b rest,
      (after d attempts).node? q = some (.file content x) ∧ attempts = before ++ b :: rest ∧
      b.Fetches (after d before) q content := by
  induction attempts using List.reverseRecOn with
  | nil => exact .inl (.inl rfl)
  | append_singleton attempts a ih =>
    rw [after_concat]
    rcases a.kept_or_fetched (after d attempts) hq with hk | ⟨content, x, hn, hf⟩
    · rcases ih with ih | ⟨content, x, before, b, rest, hn, rfl, hf⟩
      · exact .inl (ih.trans hk)
      · exact .inr ⟨content, x, before, b, rest ++ [a], hk.node?_eq hn, by simp, hf⟩
    · exact .inr ⟨content, x, attempts, a, [], hn, rfl, hf⟩

/-! ## Destinations -/

/-- A download that succeeds leaves all that the server gave and no partial file. One that fails
leaves what stood where the destination leads, but for a directory on the way there. So whatever
stands for an archive after attempts was there first, is a directory, or is a whole archive. -/
theorem download_atomic (h : download name dest s = (s', fault)) :
    (fault = none ↔ (∃ content, Gives s.client name content) ∧
      (s.disk.ensureDirectory dest.parent).2 = none ∧
      (s.disk.ensureDirectory dest.parent).1.HasRoom (partialFile dest) ∧
      (s.disk.ensureDirectory dest.parent).1.HasRoom dest) ∧
    (fault = none → ∃ answer, (s.client.get (.char '/' :: name)).1 = .ok answer ∧
      Web.isSuccess answer.response.status ∧ answer.response.broken = none ∧
      s'.disk.read dest = .ok answer.response.body.flatten ∧
      s'.disk.contains (partialFile dest) = .ok false) ∧
    (fault ≠ none →
      (∀ found, s.disk.find dest = .ok found → s'.disk.find dest = .ok found) ∧
      ∀ place, s'.disk.place dest = .ok place → s'.disk.node? place = s.disk.node? place ∨
        s.disk.node? place = none ∧ s'.disk.node? place = some .directory ∧
          dotDot ∈ dest.parts ∧ ∃ front, front <+: dest.parts.dropLast ∧
            s'.disk.follow (start dest) front = .ok place) ∧
    ∀ (d : Disk) (attempts : List Attempt) (a : Attempt) (p : Plan) (place : List Text),
      a.Plans p → (after d attempts).place p.archive = .ok place →
        d.KeptOrRoom (after d attempts) place ∨ ∃ content x before b rest,
          (after d attempts).node? place = some (.file content x) ∧
          attempts = before ++ b :: rest ∧ b.Fetches (after d before) place content := by
  have hd := (downloaded_download h).2
  refine ⟨hd.eq_none_iff, ?_, fun hf => ?_, fun d attempts a p place hp hplace => ?_⟩
  · rintro rfl
    exact hd.complete
  · obtain ⟨f, rfl⟩ := Option.ne_none_iff_exists'.mp hf
    refine ⟨fun ⟨place, n⟩ hfind => ?_, fun place hp => ?_⟩
    · obtain ⟨hp, hn⟩ := find_eq_ok_iff.mp hfind
      have hp' := place_eq_of_keeps hd.within.keeps hp
      refine find_eq_ok_iff.mpr ⟨hp', ?_⟩
      rcases hd.kept hp' with hkept | ⟨hnone, -⟩
      · exact hkept.trans hn
      · cases hn.symm.trans hnone
    · rcases hd.kept hp with hkept | ⟨hnone, hdir, front, hf, hw⟩
      · exact .inl hkept
      · have hne : place ≠ start dest := by
          rintro rfl
          cases (s.disk.node?_of_isPrefix (start_isPrefix dest)).symm.trans hnone
        exact .inr ⟨hnone, hdir, dotDot_mem_of_follow hp hne hf hw, front, hf, hw⟩
  · exact after_kept_or_fetched d attempts (endOf_place (endOf_archive hp.2) (by decide) hplace)

end

open Surroundings Web.Transport in
/-- An answer that is cut off leaves an older file as it is, also where there is a longer partial
file; the whole answer takes its place. -/
theorem download_atomic_of_cut_answer :
    let dest := PathName.ofText "cache/a"
    let d := (({} : Disk).withFile dest (.ofOctets [0])).withFile (partialFile dest)
      (.ofOctets [9, 9, 9])
    let site (broken : Option Text) : Site :=
      { client := { options := clientOptions, server := .ofList [("/reproto-releases/a",
          .ok { body := [.ofOctets [1], .ofOctets [2]], broken := broken })] }
        disk := d }
    let cut := download "a" dest (site (some "cut"))
    let whole := download "a" dest (site none)
    (cut.2.isSome ∧ cut.1.disk.read dest = .ok (.ofOctets [0])) ∧
      whole.2 = none ∧ whole.1.disk.read dest = .ok (.ofOctets [1, 2]) ∧
      whole.1.disk.contains (partialFile dest) = .ok false := by
  intro dest d site cut whole
  have hrun₁ : download "a" dest (site (some "cut")) = (cut.1, cut.2) := rfl
  have hrun₂ : download "a" dest (site none) = (whole.1, whole.2) := rfl
  obtain ⟨-, -, hfails, -⟩ := download_atomic hrun₁
  obtain ⟨-, hsucceeds, -⟩ := download_atomic hrun₂
  have hcut : cut.2.isSome := by decide +kernel
  have hold : d.find dest = .ok (["cache", "a"], .file (.ofOctets [0]) false) := by decide +kernel
  have hwhole : whole.2 = none := Option.isNone_iff_eq_none.mp (by decide +kernel)
  have hbody : ((site none).client.get "/a").1.toOption.map (·.response.body.flatten) =
      some (Content.ofOctets [1, 2]) := by decide +kernel
  constructor
  · have hkept := (hfails (Option.isSome_iff_ne_none.mp hcut)).1 _ hold
    exact ⟨hcut, read_eq_ok_iff.mpr ⟨_, _, hkept⟩⟩
  · obtain ⟨answer, hget, -, -, hread, hpart⟩ := hsucceeds hwhole
    have hget : ((site none).client.get "/a").1 = .ok answer := hget
    rw [hget] at hbody
    have hwritten : answer.response.body.flatten = Content.ofOctets [1, 2] := Option.some.inj hbody
    exact ⟨hwhole, hwritten ▸ hread, hpart⟩

open Surroundings Web.Transport in
/-- Where data is kept in a directory below the archive and two above it, the way to the archive
leads through it: the directory that is made there stays when the download fails, and the next
attempt finds it. -/
theorem download_makes_destination :
    let name : Text := "reproto-1-linux-x86_64.tar.gz"
    let dest := PathName.ofText
      "/releases/reproto-1-linux-x86_64.tar.gz/../../releases/reproto-1-linux-x86_64.tar.gz"
    let s : Site := { client := { options := clientOptions, server := .ofList [] } }
    let r := download name dest s
    s.disk.contains dest = .ok false ∧ r.2.isSome ∧ r.1.disk.contains dest = .ok true := by
  decide +kernel

end Workbench.Install
