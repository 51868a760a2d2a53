import Workbench.Install.Release
import Workbench.Proofs.Disk
import Workbench.Proofs.Fold
import Workbench.Proofs.Install.Places

/-! # How a download is saved

A download makes the directories that are missing, asks its server, writes a partial file and
moves it once it is complete. The partial file does not stand where the destination does, so the
destination has the whole answer or what it had before.
-/

namespace Workbench

open Disk Workbench.Path

namespace Web

theorem Response.content_eq_ok_iff {r : Response} {content : Content} :
    r.content = .ok content ↔ r.broken = none ∧ content = r.body.flatten := by
  rw [Response.content]
  cases r.broken <;> simp [eq_comm]

namespace Client

variable {c c' c'' : Client}

structure Alike (c c' : Client) : Prop where
  options : c'.options = c.options
  server : c'.server = c.server

theorem Alike.refl (c : Client) : c.Alike c := ⟨rfl, rfl⟩

theorem Alike.trans (h : c.Alike c') (h' : c'.Alike c'') : c.Alike c'' :=
  ⟨h'.options.trans h.options, h'.server.trans h.server⟩

variable [Transport]

theorem alike_get (c : Client) (reference : Text) : c.Alike (c.get reference).2 := ⟨rfl, rfl⟩

theorem Alike.get_eq (h : c.Alike c') (reference : Text) :
    (c'.get reference).1 = (c.get reference).1 := by
  rw [get, get, h.options, h.server]

end Client

end Web

namespace Install

variable {d d' : Disk} {s s' : Site} {dest : PathName} {name : Text} {content : Content}
  {c : Web.Client} {r : Web.Response} {here place : List Text} {fault : Option Fault} {f : Fault}

/-! ## Partial files -/

theorem length_part (name : Text) : (name ++ (".part" : Text)).length = name.length + 5 := by
  rw [List.length_append]
  rfl

theorem part_ne {t : Text} (name : Text) (ht : t.length < name.length + 5) :
    name ++ (".part" : Text) ≠ t := by
  rintro rfl
  exact ht.ne (length_part name)

theorem part_ne_dotDot (name : Text) : name ++ (".part" : Text) ≠ dotDot :=
  part_ne name (Nat.lt_add_left name.length (by decide))

variable [WorkingDirectory]

/-- A partial file does not stand where the complete one goes. -/
theorem place_partialFile_ne (hh : d.place (partialFile dest) = .ok here)
    (hp : d.place dest = .ok place) : here ≠ place := by
  obtain ⟨above, hf, -, he⟩ := follow_concat_iff.mp (follow_of_place hh)
  have hp := follow_of_place hp
  rw [enter_eq_append (part_ne_dotDot _) he]
  rcases dest.parts.eq_nil_or_concat' with hnil | ⟨front, last, hparts⟩
  · rw [hnil] at hf hp
    obtain rfl : start dest = above := Except.ok.inj hf
    rw [← Except.ok.inj hp]
    exact fun h => absurd (congrArg List.length h) (by simp)
  · have hlast : dest.name = last := by
      rw [PathName.name, hparts, List.getLastD_concat]
    rw [hparts] at hf hp
    rw [List.dropLast_concat] at hf
    obtain ⟨above', hf', -, he'⟩ := follow_concat_iff.mp hp
    obtain rfl := Except.ok.inj (hf.symm.trans hf')
    by_cases hn : last = dotDot
    · rw [enter, if_pos hn] at he'
      intro h
      have hl := congrArg List.length (h.trans (Except.ok.inj he').symm)
      simp only [List.length_append, List.length_dropLast, List.length_singleton] at hl
      omega
    · rw [enter_eq_append hn he', hlast]
      intro h
      have hpart := List.singleton_inj.mp (List.append_cancel_left h)
      exact part_ne last (Nat.lt_add_of_pos_right (by decide)) hpart

inductive Saves (r : Web.Response) (dest : PathName) (d d' : Disk) : Option Fault → Prop
  | refused (f : Fault) : ¬ d.HasRoom (partialFile dest) → d' = d → Saves r dest d d' (some f)
  | stopped (f : Fault) (here : List Text) (x : Bool) :
      ¬ (r.broken = none ∧ d.HasRoom dest) → d.place (partialFile dest) = .ok here →
      d.node? here ≠ some .directory → d.Sets here (.file r.body.flatten x) d' →
      Saves r dest d d' (some f)
  | moved (here place : List Text) (x : Bool) : r.broken = none →
      d.place (partialFile dest) = .ok here → d.node? here ≠ some .directory →
      d.place dest = .ok place → d.node? place ≠ some .directory →
      d'.node? place = some (.file r.body.flatten x) →
      (∀ q, q ≠ place → d'.node? q = if q = here then none else d.node? q) →
      Saves r dest d d' none

theorem saves_save (h : save r dest d = (d', fault)) : Saves r dest d d' fault := by
  unfold save at h
  cases hw : d.write (partialFile dest) r.body.flatten with
  | error f =>
    rw [hw] at h
    cases h
    refine .refused _ ?_ rfl
    rintro ⟨here, hh, hn⟩
    obtain ⟨d₁, hw', -⟩ := exists_write_eq_ok (c := r.body.flatten) hh hn
    cases hw.symm.trans hw'
  | ok d₁ =>
    obtain ⟨here, hh, hn, hs⟩ := write_ok hw
    have hk : d.KeepsDirectories d₁ := hs.keeps fun h => absurd h hn
    have hfind : d₁.find (partialFile dest) = .ok (here, .file r.body.flatten (d.isMarked here)) :=
      find_eq_ok_iff.mpr ⟨place_eq_of_keeps hk hh, hs.node?_self⟩
    rw [hw] at h
    dsimp only at h
    cases hb : r.broken with
    | some reason =>
      rw [hb] at h
      cases h
      exact .stopped _ here _ (fun hr => nomatch hb.symm.trans hr.1) hh hn hs
    | none =>
      rw [hb] at h
      dsimp only at h
      cases hm : d₁.move (partialFile dest) dest with
      | error f =>
        rw [hm] at h
        cases h
        refine .stopped _ here _ ?_ hh hn hs
        rintro ⟨-, hroom⟩
        obtain ⟨d₂, hm'⟩ := exists_move_eq_ok hfind (hs.hasRoom hk hroom)
        cases hm.symm.trans hm'
      | ok d₂ =>
        rw [hm] at h
        cases h
        obtain ⟨place, hp, hdir, hself, hne⟩ := move_ok hfind hm
        have hp := place_eq_of_keeps hs.keeps_back hp
        have hhp := place_partialFile_ne hh hp
        rw [hs.node?_of_ne place hhp.symm] at hdir
        refine .moved here place _ hb hh hn hp hdir hself fun q hq => ?_
        rw [hne q hq]
        split_ifs with hqh
        · rfl
        · exact hs.node?_of_ne q hqh

theorem Saves.eq_none_iff (h : Saves r dest d d' fault) :
    fault = none ↔ r.broken = none ∧ d.HasRoom (partialFile dest) ∧ d.HasRoom dest := by
  cases h with
  | refused f hr _ => exact iff_of_false nofun fun h => hr h.2.1
  | stopped f here x hr => exact iff_of_false nofun fun h => hr ⟨h.1, h.2.2⟩
  | moved here place x hb hh hn hp hdir =>
    exact iff_of_true rfl ⟨hb, ⟨here, hh, hn⟩, place, hp, hdir⟩

theorem Saves.within (h : Saves r dest d d' fault) :
    d.ChangesWithin [partialFile dest, dest] d' := by
  cases h with
  | refused f _ he =>
    subst he
    exact (AddsDirectories.refl d').within _
  | stopped f here x _ hh hn hs => exact hs.within (hs.keeps fun h => absurd h hn) hh (by simp)
  | moved here place x _ hh hn hp hdir hself hne =>
    have hk : d.KeepsDirectories d' := by
      intro q hq
      have hqp : q ≠ place := by
        rintro rfl
        exact hdir hq
      have hqh : q ≠ here := by
        rintro rfl
        exact hn hq
      rw [hne q hqp, if_neg hqh, hq]
    refine ⟨hk, fun q hq => .inl ?_⟩
    have hqp : q ≠ place := by
      rintro rfl
      exact hq dest (by simp) (place_eq_of_keeps hk hp)
    have hqh : q ≠ here := by
      rintro rfl
      exact hq (partialFile dest) (by simp) (place_eq_of_keeps hk hh)
    rw [hne q hqp, if_neg hqh]

theorem Saves.complete (h : Saves r dest d d' none) :
    d'.read dest = .ok r.body.flatten ∧ d'.contains (partialFile dest) = .ok false := by
  have hk := h.within.keeps
  cases h with
  | moved here place x _ hh _ hp _ hself hne =>
    constructor
    · exact read_eq_ok_iff.mpr
        ⟨place, x, find_eq_ok_iff.mpr ⟨place_eq_of_keeps hk hp, hself⟩⟩
    · refine contains_eq_false (place_eq_of_keeps hk hh) ?_
      rw [hne here (place_partialFile_ne hh hp), if_pos rfl]

/-- Where saving fails the destination has what it had. -/
theorem Saves.kept (h : Saves r dest d d' (some f)) (hp : d'.place dest = .ok place) :
    d'.node? place = d.node? place := by
  have hk := h.within.keeps
  cases h with
  | refused f _ he => rw [he]
  | stopped f here x _ hh _ hs =>
    exact hs.node?_of_ne place (place_partialFile_ne (place_eq_of_keeps hk hh) hp).symm

/-! ## Downloads -/

variable [Web.Transport]

def Gives (c : Web.Client) (name : Text) (content : Content) : Prop :=
  ∃ a, (c.get (.char '/' :: name)).1 = .ok a ∧ Web.isSuccess a.response.status ∧
    a.response.content = .ok content

omit [WorkingDirectory] in
theorem Gives.of_alike {c c' : Web.Client} (h : Gives c' name content) (hc : c.Alike c') :
    Gives c name content := by
  obtain ⟨a, ha, h⟩ := h
  exact ⟨a, (hc.get_eq _).symm.trans ha, h⟩

/-- What a download makes of a disk: directories, and what saving the answer makes of it once
these are there and the answer is a success. -/
inductive Downloaded (c : Web.Client) (name : Text) (dest : PathName) (d d' : Disk) :
    Option Fault → Prop
  | refused (f : Fault) : ((d.ensureDirectory dest.parent).2 = none →
      ∀ a, (c.get (.char '/' :: name)).1 = .ok a → ¬ Web.isSuccess a.response.status) →
      d' = (d.ensureDirectory dest.parent).1 → Downloaded c name dest d d' (some f)
  | saved (a : Web.Answered) (fault : Option Fault) : (d.ensureDirectory dest.parent).2 = none →
      (c.get (.char '/' :: name)).1 = .ok a → Web.isSuccess a.response.status →
      Saves a.response dest (d.ensureDirectory dest.parent).1 d' fault →
      Downloaded c name dest d d' fault

theorem fetch_cases (h : fetch name dest s = (s', fault)) : s.client.Alike s'.client ∧
    ((∃ f, fault = some f ∧ s'.disk = s.disk ∧ ∀ a, (s.client.get (.char '/' :: name)).1 = .ok a →
      ¬ Web.isSuccess a.response.status) ∨
    ∃ a, (s.client.get (.char '/' :: name)).1 = .ok a ∧ Web.isSuccess a.response.status ∧
      Saves a.response dest s.disk s'.disk fault) := by
  have hc : s.client.Alike (s.client.get (.char '/' :: name)).2 := s.client.alike_get _
  unfold fetch at h
  cases ha : (s.client.get (.char '/' :: name)).1 with
  | error f =>
    simp only [Site.get, ha, Except.mapError] at h
    cases h
    exact ⟨hc, .inl ⟨_, rfl, rfl, nofun⟩⟩
  | ok a =>
    simp only [Site.get, ha, Except.mapError, Site.change, receive] at h
    split_ifs at h with hstatus <;> cases h
    · exact ⟨hc, .inr ⟨a, rfl, hstatus, saves_save rfl⟩⟩
    · refine ⟨hc, .inl ⟨_, rfl, rfl, fun a' ha' => ?_⟩⟩
      obtain rfl := Except.ok.inj ha'
      exact hstatus

theorem downloaded_download (h : download name dest s = (s', fault)) :
    s.client.Alike s'.client ∧ Downloaded s.client name dest s.disk s'.disk fault := by
  rcases takeSteps_cons_eq h with ⟨f, hr, rfl⟩ | ⟨s₁, hr, h⟩
  · obtain ⟨rfl, hf⟩ := Prod.mk.inj hr
    refine ⟨.refl _, .refused f (fun he => ?_) rfl⟩
    rw [he] at hf
    cases hf
  · obtain ⟨rfl, hf⟩ := Prod.mk.inj hr
    have he : (s.disk.ensureDirectory dest.parent).2 = none := Option.map_eq_none_iff.mp hf
    rw [takeSteps, foldUntil_singleton] at h
    obtain ⟨hc, ⟨f, rfl, hd, hr⟩ | ⟨a, ha, hs, hsaves⟩⟩ := fetch_cases h
    · exact ⟨hc, .refused f (fun _ => hr) hd⟩
    · exact ⟨hc, .saved a fault he ha hs hsaves⟩

namespace Downloaded

theorem eq_none_iff (h : Downloaded c name dest d d' fault) :
    fault = none ↔ (∃ content, Gives c name content) ∧
      (d.ensureDirectory dest.parent).2 = none ∧
      (d.ensureDirectory dest.parent).1.HasRoom (partialFile dest) ∧
      (d.ensureDirectory dest.parent).1.HasRoom dest := by
  cases h with
  | refused f hr _ =>
    refine iff_of_false nofun ?_
    rintro ⟨⟨content, a, ha, hs, -⟩, he, -⟩
    exact hr he a ha hs
  | saved a fault he ha hs h =>
    rw [h.eq_none_iff]
    constructor
    · rintro ⟨hb, hroom⟩
      exact ⟨⟨_, a, ha, hs, Web.Response.content_eq_ok_iff.mpr ⟨hb, rfl⟩⟩, he, hroom⟩
    · rintro ⟨⟨content, a', ha', -, hc⟩, -, hroom⟩
      obtain rfl := Except.ok.inj (ha.symm.trans ha')
      exact ⟨(Web.Response.content_eq_ok_iff.mp hc).1, hroom⟩

theorem within (h : Downloaded c name dest d d' fault) :
    d.ChangesWithin [partialFile dest, dest] d' := by
  have hroom := (addsDirectories_ensureDirectory d dest.parent).within [partialFile dest, dest]
  cases h with
  | refused f _ he => exact he ▸ hroom
  | saved a fault _ _ _ h => exact hroom.trans h.within

theorem complete (h : Downloaded c name dest d d' none) :
    ∃ a, (c.get (.char '/' :: name)).1 = .ok a ∧ Web.isSuccess a.response.status ∧
      a.response.broken = none ∧ d'.read dest = .ok a.response.body.flatten ∧
      d'.contains (partialFile dest) = .ok false := by
  cases h with
  | saved a _ _ ha hs h => exact ⟨a, ha, hs, (h.eq_none_iff.mp rfl).1, h.complete⟩

/-- Where a download fails the destination has what it had, or a directory was made there
because the way to it leads through it. -/
theorem kept (h : Downloaded c name dest d d' (some f)) (hp : d'.place dest = .ok place) :
    d'.node? place = d.node? place ∨ d.node? place = none ∧ d'.node? place = some .directory ∧
      ∃ front, front <+: dest.parts.dropLast ∧ d'.follow (start dest) front = .ok place := by
  have hroom := paves_ensureDirectory d dest.parent place
  cases h with
  | refused f _ he => exact he ▸ hroom
  | saved a _ _ _ _ h =>
    rw [h.kept hp]
    rcases hroom with hkept | ⟨hn, hdir, front, hf, hway⟩
    · exact .inl hkept
    · exact .inr ⟨hn, hdir, front, hf, follow_eq_of_keeps h.within.keeps hway⟩

end Downloaded

end Install

end Workbench
