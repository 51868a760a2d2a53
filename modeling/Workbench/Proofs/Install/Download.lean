import Workbench.Install
import Workbench.Proofs.Install.Saving

/-! # What a download leaves

A download adds directories, writes a partial file and moves it, and asks its server for
nothing else. The archive that is there in the end is the one that was there before or the
one that the server just gave.
-/

namespace Workbench

open Disk Workbench.Path

namespace Install

theorem tell_keeps {s s' : Site} {fault : Option Fault} {line : Text}
    (h : s.tell line = (s', fault)) : s'.disk = s.disk ∧ s'.client = s.client := by
  cases h
  exact ⟨rfl, rfl⟩

variable [Path.WorkingDirectory] {d d' : Disk} {s s' : Site} {p : Plan} {dest : PathName}
  {name : Text} {members : List Archive.Member} {content : Content} {fault : Option Fault}

/-- Only downloads were written, with directories for them. -/
structure Downloads (d d' : Disk) : Prop where
  keeps : d.KeepsDirectories d'
  elsewhere : ∀ q, ¬ IsDownload q → d.KeptOrRoom d' q

theorem Downloads.trans {d'' : Disk} (h : Downloads d d') (h' : Downloads d' d'') :
    Downloads d d'' :=
  ⟨h.keeps.trans h'.keeps, fun q hq => (h.elsewhere q hq).trans (h'.elsewhere q hq)⟩

theorem downloads_of_addsDirectories (h : d.AddsDirectories d') : Downloads d d' :=
  ⟨h.keeps, fun q _ => h q⟩

theorem Downloads.refl (d : Disk) : Downloads d d := downloads_of_addsDirectories (.refl d)

theorem downloads_of_within (hd : endOf dest.parts = some (.char 'z'))
    (h : d.ChangesWithin [partialFile dest, dest] d') : Downloads d d' := by
  refine ⟨h.keeps, fun q hq => h.elsewhere q ?_⟩
  refine List.forall_mem_cons.mpr ⟨fun hp => ?_, List.forall_mem_singleton.mpr fun hp => ?_⟩
  · exact hq (.inr (endOf_place (endOf_partialFile dest) (by decide) hp))
  · exact hq (.inl (endOf_place hd (by decide) hp))

/-! ## The archive of a plan -/

theorem membersOf_eq_ok_iff {archive : PathName} : membersOf archive d = .ok members ↔
    ∃ content, d.read archive = .ok content ∧ Archive.read content = .ok members := by
  unfold membersOf
  cases d.read archive with
  | error f => simp
  | ok content => cases hr : Archive.read content <;> simp [hr, Except.mapError]

theorem read_of_addsDirectories {path : PathName} (h : d.AddsDirectories d')
    (hc : d.contains path = .ok true) (hr : d'.read path = .ok content) :
    d.read path = .ok content := by
  obtain ⟨place, x, hf⟩ := read_eq_ok_iff.mp hr
  obtain ⟨place', n, hf'⟩ := contains_eq_true_iff.mp hc
  obtain ⟨hp', -⟩ := find_eq_ok_iff.mp hf'
  obtain ⟨hp, hn⟩ := find_eq_ok_iff.mp hf
  obtain rfl := Except.ok.inj ((place_eq_of_keeps h.keeps hp').symm.trans hp)
  exact read_eq_ok_iff.mpr ⟨place', x, find_eq_ok_iff.mpr ⟨hp', (h place').node?_file hn⟩⟩

variable [Web.Transport]

/-- The members of the archive that a plan works with: those of the archive that is there,
or of the one that the server gives where there is none. -/
inductive Supplies (c : Web.Client) (d : Disk) (p : Plan) (members : List Archive.Member) : Prop
  | cached : membersOf p.archive d = .ok members → Supplies c d p members
  | served (content : Content) : d.contains p.archive = .ok false →
      Gives c p.archiveName content → Archive.read content = .ok members → Supplies c d p members

theorem Supplies.of_alike {c c' : Web.Client} (h : Supplies c' d p members) (hc : c.Alike c') :
    Supplies c d p members := by
  cases h with
  | cached h => exact .cached h
  | served content h hg hr => exact .served content h (hg.of_alike hc) hr

/-- What obtaining an archive makes of a disk: nothing where one is there, else a download. -/
inductive Obtains (c : Web.Client) (p : Plan) (d d' : Disk) : Option Fault → Prop
  | refused (f : Fault) : d' = d → Obtains c p d d' (some f)
  | present : d.contains p.archive = .ok true → d' = d → Obtains c p d d' none
  | downloaded (fault : Option Fault) : d.contains p.archive = .ok false →
      Downloaded c p.archiveName p.archive d d' fault → Obtains c p d d' fault

theorem obtains_obtain (h : p.obtain s = (s', fault)) :
    s.client.Alike s'.client ∧ Obtains s.client p s.disk s'.disk fault := by
  unfold Plan.obtain unlessPresent at h
  cases hc : s.disk.contains p.archive with
  | error f =>
    rw [hc] at h
    cases h
    exact ⟨.refl _, .refused _ rfl⟩
  | ok present =>
    rw [hc] at h
    cases present with
    | true =>
      cases h
      exact ⟨.refl _, .present hc rfl⟩
    | false =>
      rcases takeSteps_cons_eq h with ⟨f, ht, rfl⟩ | ⟨s₁, ht, h⟩
      · obtain ⟨hd, hclient⟩ := tell_keeps ht
        rw [hd, hclient]
        exact ⟨.refl _, .refused f rfl⟩
      · obtain ⟨hd, hclient⟩ := tell_keeps ht
        rw [takeSteps, foldUntil_singleton] at h
        rw [← hd] at hc ⊢
        rw [← hclient]
        obtain ⟨halike, hd'⟩ := downloaded_download h
        exact ⟨halike, .downloaded fault hc hd'⟩

theorem obtain_outcome (hp : endOf p.archive.parts = some (.char 'z'))
    (h : p.obtain s = (s', fault)) : Downloads s.disk s'.disk ∧
      (fault = none → ∀ d members, s'.disk.AddsDirectories d → membersOf p.archive d = .ok members →
        Supplies s.client s.disk p members) := by
  obtain ⟨-, ho⟩ := obtains_obtain h
  cases ho with
  | refused f he => exact ⟨he ▸ .refl _, nofun⟩
  | present hpresent he =>
    rw [he]
    refine ⟨.refl _, fun _ d members hd hm => .cached ?_⟩
    obtain ⟨content, hr, hm⟩ := membersOf_eq_ok_iff.mp hm
    exact membersOf_eq_ok_iff.mpr ⟨content, read_of_addsDirectories hd hpresent hr, hm⟩
  | downloaded _ hmissing hd' =>
    refine ⟨downloads_of_within hp hd'.within, ?_⟩
    rintro rfl d members hd hm
    obtain ⟨content', hr', hm⟩ := membersOf_eq_ok_iff.mp hm
    obtain ⟨a, ha, hs, hb, hr, -⟩ := hd'.complete
    obtain ⟨place, x, hfind⟩ := read_eq_ok_iff.mp hr
    have hpresent := contains_eq_true_iff.mpr ⟨place, _, hfind⟩
    obtain rfl := Except.ok.inj ((read_of_addsDirectories hd hpresent hr').symm.trans hr)
    exact .served _ hmissing ⟨a, ha, hs, Web.Response.content_eq_ok_iff.mpr ⟨hb, rfl⟩⟩ hm

end Install

end Workbench
