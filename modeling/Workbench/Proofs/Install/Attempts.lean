import Workbench.Proofs.Install.Download
import Workbench.Proofs.Install.Unpack
import Workbench.Surroundings

/-! # Installations one after another

The archives that are kept are told apart by their versions, the executable is not. What an
installation returns is the executable that stands there, and that is the work of the first
attempt that wrote one, whether it succeeded or not, unless there was one before.
-/

namespace Workbench.Install

open Disk

section

variable [Path.WorkingDirectory] {d d₁ d' : Disk} {s s' : Site} {p : Plan} {place q : List Text}
  {n : Node} {c : Web.Client} {members : List Archive.Member} {fault : Option Fault}

/-! ## Taking out the executable -/

theorem Unpacked.eq_of_none (h : Unpacked p.executable d₁ place members d' none)
    (hn : d₁.node? place = none) (hf : d'.node? place = some n) :
    ∃ m, members.getLast? = some m ∧ n = .file (.ofOctets m.data) true := by
  have hne : members ≠ [] := by
    have := (h.eq_none_iff.mp rfl).2
    rwa [hn] at this
  obtain ⟨front, m, rfl⟩ := (members.eq_nil_or_concat').resolve_left hne
  rw [h.node?_of_success rfl, nodeAfter_concat (hn.trans_ne (by simp))] at hf
  cases hf
  exact ⟨m, List.getLast?_concat, rfl⟩

inductive Extracts (p : Plan) (d d' : Disk) : Option Fault → Prop
  | refused (f : Fault) : d.AddsDirectories d' → Extracts p d d' (some f)
  | present : d.contains p.binary = .ok true → d' = d → Extracts p d d' none
  | unpacked (d₁ : Disk) (members : List Archive.Member) (place : List Text)
      (f fault : Option Fault) : d.contains p.binary = .ok false → d.AddsDirectories d₁ →
      membersOf p.archive d₁ = .ok members → d₁.place p.binary = .ok place →
      Unpacked p.executable d₁ place members d' f → (fault = none → f = none) →
      Extracts p d d' fault

theorem extract_outcome (h : p.extract s = (s', fault)) : Extracts p s.disk s'.disk fault := by
  unfold Plan.extract unlessPresent at h
  cases hc : s.disk.contains p.binary with
  | error f =>
    rw [hc] at h
    cases h
    exact .refused _ (.refl _)
  | ok present =>
    rw [hc] at h
    cases present with
    | true =>
      cases h
      exact .present hc rfl
    | false =>
      rcases takeSteps_cons_eq h with ⟨e, ht, rfl⟩ | ⟨s₁, ht, h⟩
      · rw [(tell_keeps ht).1]
        exact .refused e (.refl _)
      have hs₁ := (tell_keeps ht).1
      rcases hu : unpack p.archive p.executable p.binary s.disk with ⟨d', f⟩
      have hcases := unpack_cases hu
      rw [← hs₁] at hcases hc hu ⊢
      rcases takeSteps_cons_eq h with ⟨e, hu', rfl⟩ | ⟨s₂, hu', h⟩
      · rw [Site.change, hu] at hu'
        cases hu'
        rcases hcases with ⟨hd, -⟩ | ⟨d₁, members, place, hd, hm, hp, hun⟩
        · exact .refused e hd
        · exact .unpacked d₁ members place _ _ hc hd hm hp hun (by simp)
      · rw [Site.change, hu] at hu'
        cases hu'
        rw [takeSteps, foldUntil_singleton] at h
        rw [(tell_keeps h).1]
        rcases hcases with ⟨-, hf⟩ | ⟨d₁, members, place, hd, hm, hp, hun⟩
        · exact absurd rfl hf
        · exact .unpacked d₁ members place _ _ hc hd hm hp hun fun _ => rfl

theorem grant_cases {dest : PathName} (h : grant dest d = (d', fault)) :
    d' = d ∧ fault ≠ none ∨
      fault = none ∧ ∃ place n, d.find dest = .ok (place, n) ∧ d.Sets place n.granted d' := by
  unfold Install.grant at h
  cases hm : d.makeExecutable dest with
  | error f =>
    rw [hm] at h
    cases h
    exact .inl ⟨rfl, nofun⟩
  | ok d₂ =>
    rw [hm] at h
    cases h
    exact .inr ⟨rfl, makeExecutable_ok hm⟩

variable [Web.Transport]

/-- What an installation says of the node that stands for the executable: it is the one that
stood there, or the work of an archive of which every member is the executable. -/
structure Installed (c : Web.Client) (p : Plan) (d : Disk) (place : List Text) (n : Node) :
    Prop where
  kept : ∀ n₀, d.find p.binary = .ok (place, n₀) → n.granted = n₀.granted
  fresh : d.node? place = none → n = .directory ∨ ∃ members m, Supplies c d p members ∧
    (∀ m ∈ members, isExecutable p.executable m) ∧ members.getLast? = some m ∧
    n = .file (.ofOctets m.data) true

structure Carries (c : Web.Client) (p : Plan) (d d' : Disk) (fault : Option Fault) : Prop where
  keeps : d.KeepsDirectories d'
  content : ∀ q, ¬ IsDownload q → ∀ content x, d'.node? q = some (.file content x) →
    (∃ x', d.node? q = some (.file content x')) ∨
      ∃ members m, Supplies c d p members ∧ d'.place p.binary = .ok q ∧
        (accepted p.executable members).getLast? = some m ∧ content = .ofOctets m.data
  success : fault = none → ∃ place n, d'.find p.binary = .ok (place, n) ∧ Installed c p d place n

theorem Carries.of_alike {c' : Web.Client} (h : Carries c' p d d' fault) (hc : c.Alike c') :
    Carries c p d d' fault := by
  constructor
  · exact h.keeps
  · intro q hq content x hx
    rcases h.content q hq content x hx with h | ⟨members, m, hs, h⟩
    · exact .inl h
    · exact .inr ⟨members, m, hs.of_alike hc, h⟩
  · intro hf
    obtain ⟨place, n, hfind, hi⟩ := h.success hf
    refine ⟨place, n, hfind, hi.kept, fun hnone => ?_⟩
    rcases hi.fresh hnone with h | ⟨members, m, hs, h⟩
    · exact .inl h
    · exact .inr ⟨members, m, hs.of_alike hc, h⟩

theorem carries_of_downloads (h : Downloads d d') (f : Fault) : Carries c p d d' (some f) := by
  refine ⟨h.keeps, fun q hq content x hx => .inl ⟨x, ?_⟩, nofun⟩
  exact (h.elsewhere q hq).node?_file hx

theorem installed_of_present {d₂ : Disk} (hd : d.KeptOrRoom d₂ place)
    (hn : d₂.node? place = some n) : Installed c p d place n := by
  constructor
  · intro n₀ h₀
    rw [Option.some.inj (hn.symm.trans (hd.node?_eq (find_eq_ok_iff.mp h₀).2))]
  · intro hnone
    rcases hd with h | ⟨-, h⟩
    · cases hn.symm.trans (h.trans hnone)
    · exact .inl (Option.some.inj (hn.symm.trans h))

theorem installed_of_unpacked {d₂ : Disk} (hd : Downloads d d₂)
    (hc : d₂.contains p.binary = .ok false)
    (hq : ¬ IsDownload place) (hk : d.KeptOrRoom d₁ place) (hs : Supplies c d p members)
    (hu : Unpacked p.executable d₁ place members d' none) (hn : d'.node? place = some n) :
    Installed c p d place n := by
  constructor
  · -- The path led there already, so there was an executable.
    intro n₀ h₀
    obtain ⟨hp₀, hn₀⟩ := find_eq_ok_iff.mp h₀
    have hfind := find_eq_ok_iff.mpr
      ⟨place_eq_of_keeps hd.keeps hp₀, (hd.elsewhere place hq).node?_eq hn₀⟩
    cases hc.symm.trans (contains_eq_true_iff.mpr ⟨place, n₀, hfind⟩)
  · intro hnone
    rcases hk with h | ⟨-, h⟩
    · obtain ⟨m, hlast, rfl⟩ := hu.eq_of_none (h.trans hnone) hn
      exact .inr ⟨members, m, hs, (hu.eq_none_iff.mp rfl).1, hlast, rfl⟩
    · exact .inl (Option.some.inj (hn.symm.trans (hu.of_directory h)))

theorem Extracts.carries {d₂ d₃ : Disk} (he : Extracts p d₂ d₃ fault) (hd : Downloads d d₂)
    (hs : ∀ d₁ members, d₂.AddsDirectories d₁ → membersOf p.archive d₁ = .ok members →
      Supplies c d p members)
    (hb : ∀ (e : Disk) (place : List Text), e.place p.binary = .ok place → ¬ IsDownload place) :
    Carries c p d d₃ fault := by
  cases he with
  | refused f ha => exact carries_of_downloads (hd.trans (downloads_of_addsDirectories ha)) f
  | present hc heq =>
    subst heq
    obtain ⟨place, n, hfind⟩ := contains_eq_true_iff.mp hc
    obtain ⟨hp, hn⟩ := find_eq_ok_iff.mp hfind
    constructor
    · exact hd.keeps
    · intro q hq content x hx
      exact .inl ⟨x, (hd.elsewhere q hq).node?_file hx⟩
    · intro _
      exact ⟨place, n, hfind, installed_of_present (hd.elsewhere place (hb _ _ hp)) hn⟩
  | unpacked d₁ members place f _ hc ha hm hp hu hf =>
    have hd₁ := hd.trans (downloads_of_addsDirectories ha)
    have hplace := hb _ _ hp
    have hp₃ := place_eq_of_keeps hu.keeps hp
    constructor
    · exact hd₁.keeps.trans hu.keeps
    · intro q hq content x hx
      by_cases hqp : q = place
      · subst hqp
        rcases hu.content hx with ⟨x', hx'⟩ | ⟨m, hlast, hcontent⟩
        · exact .inl ⟨x', (hd₁.elsewhere q hq).node?_file hx'⟩
        · exact .inr ⟨members, m, hs d₁ members ha hm, hp₃, hlast, hcontent⟩
      · rw [hu.node?_of_ne q hqp] at hx
        exact .inl ⟨x, (hd₁.elsewhere q hq).node?_file hx⟩
    · intro hfault
      obtain rfl := hf hfault
      obtain ⟨n, hn⟩ := hu.exists_node
      exact ⟨place, n, find_eq_ok_iff.mpr ⟨hp₃, hn⟩, installed_of_unpacked hd hc hplace
        (hd₁.elsewhere place hplace) (hs d₁ members ha hm) hu hn⟩

/-! ## Carrying out a plan -/

theorem Carries.grant {d₃ : Disk} (h : Carries c p d d₃ none)
    (hf : d₃.find p.binary = .ok (place, n)) (hs : d₃.Sets place n.granted d') :
    Carries c p d d' fault := by
  obtain ⟨hp, hn⟩ := find_eq_ok_iff.mp hf
  have hk : d₃.KeepsDirectories d' := hs.keeps fun hdir => by
    rw [Option.some.inj (hn.symm.trans hdir)]
    rfl
  have hp' := place_eq_of_keeps hk hp
  constructor
  · exact h.keeps.trans hk
  · intro q hq content x hx
    have hfile : ∃ x', d₃.node? q = some (.file content x') := by
      by_cases hqp : q = place
      · subst hqp
        rw [hs.node?_self] at hx
        cases n with
        | directory => cases hx
        | file content' x' =>
          cases hx
          exact ⟨x', hn⟩
      · exact ⟨x, (hs.node?_of_ne q hqp).symm.trans hx⟩
    obtain ⟨x', hx'⟩ := hfile
    rcases h.content q hq content x' hx' with h | ⟨members, m, hm, hq, hlast⟩
    · exact .inl h
    · exact .inr ⟨members, m, hm, place_eq_of_keeps hk hq, hlast⟩
  · intro _
    obtain ⟨place', n', hf', hi⟩ := h.success rfl
    obtain ⟨rfl, rfl⟩ := Prod.mk.inj (Except.ok.inj (hf'.symm.trans hf))
    refine ⟨place', n'.granted, find_eq_ok_iff.mpr ⟨hp', hs.node?_self⟩, fun n₀ h₀ => ?_,
      fun hnone => ?_⟩
    · rw [Node.granted_granted, hi.kept n₀ h₀]
    · rcases hi.fresh hnone with rfl | ⟨members, m, hm, hall, hlast, rfl⟩
      · exact .inl rfl
      · exact .inr ⟨members, m, hm, hall, hlast, rfl⟩

theorem Carries.error (h : Carries c p d d' none) (f : Fault) : Carries c p d d' (some f) :=
  ⟨h.keeps, h.content, nofun⟩

theorem finish_outcome (hc : Carries c p d s.disk none) (h : p.finish s = (s', fault)) :
    Carries c p d s'.disk fault ∧
      (fault = none → ∃ place n, s'.disk.find p.binary = .ok (place, n) ∧ n.granted = n) := by
  unfold Plan.finish at h
  rcases hg : grant p.binary s.disk with ⟨d₄, f⟩
  simp only [Site.change, hg] at h
  rcases grant_cases hg with ⟨rfl, hf⟩ | ⟨rfl, place, n, hfind, hs⟩
  · obtain ⟨f, rfl⟩ := Option.ne_none_iff_exists'.mp hf
    cases h
    exact ⟨hc.error f, by simp⟩
  · have hdisk := (tell_keeps h).1
    have hgrant : Carries c p d d₄ fault := hc.grant hfind hs
    rw [hdisk]
    refine ⟨hgrant, fun _ => ⟨place, n.granted, find_eq_ok_iff.mpr ⟨?_, hs.node?_self⟩, by simp⟩⟩
    refine place_eq_of_keeps (hs.keeps fun hdir => ?_) (find_eq_ok_iff.mp hfind).1
    rw [Option.some.inj ((find_eq_ok_iff.mp hfind).2.symm.trans hdir)]
    rfl

theorem carryOut_outcome {version : Text} {u : User} (hp : Plan.of version u = .ok p)
    (h : p.carryOut s = (s', fault)) : Carries s.client p s.disk s'.disk fault ∧
      (fault = none → ∃ place n, s'.disk.find p.binary = .ok (place, n) ∧ n.granted = n) := by
  rcases takeSteps_cons_eq h with ⟨e, ht, rfl⟩ | ⟨s₁, ht, h⟩
  · rw [(tell_keeps ht).1]
    exact ⟨carries_of_downloads (.refl _) e, nofun⟩
  obtain ⟨hd₁, hc₁⟩ := tell_keeps ht
  rw [← hd₁, ← hc₁]
  rcases takeSteps_cons_eq h with ⟨e, ho, rfl⟩ | ⟨s₂, ho, h⟩
  · exact ⟨carries_of_downloads (obtain_outcome (endOf_archive hp) ho).1 e, nofun⟩
  obtain ⟨hdown, hsupply⟩ := obtain_outcome (endOf_archive hp) ho
  have hcarries {s₃ : Site} {f : Option Fault} (he : p.extract s₂ = (s₃, f)) :
      Carries s₁.client p s₁.disk s₃.disk f :=
    (extract_outcome he).carries hdown (hsupply rfl) fun _ _ => not_isDownload_of_binary hp
  rcases takeSteps_cons_eq h with ⟨e, he, rfl⟩ | ⟨s₃, he, h⟩
  · exact ⟨hcarries he, nofun⟩
  rw [takeSteps, foldUntil_singleton] at h
  exact finish_outcome (hcarries he) h

/-! ## Attempts -/

structure Attempt where
  user : User
  client : Web.Client
  editor : Editor := {}

namespace Attempt

variable {a : Attempt} {path : PathName}

def run (a : Attempt) (d : Disk) : Except Fault PathName × Site :=
  Install.run a.user ⟨a.client, d, a.editor⟩

def version (a : Attempt) : Except Fault Text := (latestVersion ⟨a.client, {}, a.editor⟩).1

def Plans (a : Attempt) (p : Plan) : Prop :=
  a.version = .ok p.version ∧ Plan.of p.version a.user = .ok p

/-- The attempt writes content at a place: that of the last member at the front of the archive
for the version it found that is the executable. -/
def Writes (a : Attempt) (d : Disk) (q : List Text) (content : Content) : Prop :=
  ∃ p members m, a.Plans p ∧ Supplies a.client d p members ∧
    (a.run d).2.disk.place p.binary = .ok q ∧
    (accepted p.executable members).getLast? = some m ∧ content = .ofOctets m.data

theorem run_eq (a : Attempt) (d : Disk) :
    (∃ f, (a.run d).1 = .error f ∧ (a.run d).2.disk = d) ∨
    ∃ p s s' fault, a.Plans p ∧ a.client.Alike s.client ∧ s.disk = d ∧
      p.carryOut s = (s', fault) ∧ a.run d = (fault.elim (.ok p.binary) .error, s') := by
  rcases hv : latestVersion ⟨a.client, d, a.editor⟩ with ⟨v, s⟩
  have hs : a.client.Alike s.client ∧ s.disk = d := by
    obtain rfl := (Prod.mk.inj hv).2
    exact ⟨a.client.alike_get _, rfl⟩
  have hversion : a.version = v := congrArg Prod.fst hv
  rw [run, Install.run, hv]
  cases v with
  | error f => exact .inl ⟨f, rfl, hs.2⟩
  | ok version =>
    dsimp only
    cases hp : Plan.of version a.user with
    | error f => exact .inl ⟨.failure f, rfl, hs.2⟩
    | ok p =>
      obtain ⟨home, target, rfl, -⟩ := plan_of_ok hp
      rcases hc : p.carryOut s with ⟨s', fault⟩
      refine .inr ⟨p, s, s', fault, ⟨hversion, hp⟩, hs.1, hs.2, hc, ?_⟩
      dsimp only
      rw [hc]
      cases fault <;> rfl

theorem run_cases (a : Attempt) (d : Disk) :
    (∃ f, (a.run d).1 = .error f ∧ (a.run d).2.disk = d) ∨
    ∃ p fault, a.Plans p ∧ Carries a.client p d (a.run d).2.disk fault ∧
      (a.run d).1 = fault.elim (.ok p.binary) .error ∧
      (fault = none →
        ∃ place n, (a.run d).2.disk.find p.binary = .ok (place, n) ∧ n.granted = n) := by
  rcases a.run_eq d with h | ⟨p, s, s', fault, hp, hs, rfl, hc, hr⟩
  · exact .inl h
  · obtain ⟨hcarries, hfind⟩ := carryOut_outcome hp.2 hc
    rw [hr]
    exact .inr ⟨p, fault, hp, hcarries.of_alike hs, rfl, hfind⟩

theorem content_of_run {content : Content} {x : Bool} (hq : ¬ IsDownload q)
    (h : (a.run d).2.disk.node? q = some (.file content x)) :
    (∃ x', d.node? q = some (.file content x')) ∨ a.Writes d q content := by
  rcases a.run_cases d with ⟨f, -, hd⟩ | ⟨p, fault, hp, hc, -⟩
  · rw [hd] at h
    exact .inl ⟨x, h⟩
  · rcases hc.content q hq content x h with h | ⟨members, m, hs, hplace, hlast, hm⟩
    · exact .inl h
    · exact .inr ⟨p, members, m, hp, hs, hplace, hlast, hm⟩

end Attempt

def after (d : Disk) (attempts : List Attempt) : Disk :=
  attempts.foldl (fun d a => (a.run d).2.disk) d

theorem after_concat (d : Disk) (attempts : List Attempt) (a : Attempt) :
    after d (attempts ++ [a]) = (a.run (after d attempts)).2.disk := by
  rw [after, List.foldl_append]
  rfl

/-- A file is one of the first or the work of an attempt. -/
theorem content_of_after {attempts : List Attempt} {content : Content} {x : Bool}
    (hq : ¬ IsDownload q) (h : (after d attempts).node? q = some (.file content x)) :
    (∃ x', d.node? q = some (.file content x')) ∨
      ∃ before a rest, attempts = before ++ a :: rest ∧ a.Writes (after d before) q content := by
  induction attempts using List.reverseRecOn generalizing x with
  | nil => exact .inl ⟨x, h⟩
  | append_singleton attempts a ih =>
    rw [after_concat] at h
    rcases Attempt.content_of_run hq h with ⟨x', h'⟩ | hw
    · rcases ih h' with h | ⟨before, b, rest, rfl, hb⟩
      · exact .inl h
      · exact .inr ⟨before, b, rest ++ [a], by simp, hb⟩
    · exact .inr ⟨attempts, a, [], rfl, hw⟩

variable {a : Attempt} {attempts : List Attempt} {path : PathName}

/-- What an installation returns leads to the executable of the plan for the version it found.
That is the one that stood there, or the work of the archive of that version; and what is in it
was there at first or is the work of one of the attempts so far. -/
theorem run_installs (h : a.run (after d attempts) = (.ok path, s)) :
    ∃ p place n, a.Plans p ∧ path = p.binary ∧ s.disk.find path = .ok (place, n) ∧
      n.granted = n ∧ Installed a.client p (after d attempts) place n ∧
      ∀ content x, n = .file content x → (∃ x', d.node? place = some (.file content x')) ∨
        ∃ before b rest, attempts ++ [a] = before ++ b :: rest ∧
          b.Writes (after d before) place content := by
  rcases a.run_cases (after d attempts) with ⟨f, hf, -⟩ | ⟨p, fault, hp, hc, hr, hg⟩
  · rw [h] at hf
    cases hf
  · rw [h] at hc hr hg
    cases fault with
    | some f => cases hr
    | none =>
      obtain rfl := Except.ok.inj hr
      obtain ⟨place, n, hfind, hi⟩ := hc.success rfl
      obtain ⟨place', n', hfind', hgranted⟩ := hg rfl
      obtain ⟨rfl, rfl⟩ := Prod.mk.inj (Except.ok.inj (hfind.symm.trans hfind'))
      obtain ⟨hplace, hn⟩ := find_eq_ok_iff.mp hfind
      refine ⟨p, place, n, hp, rfl, hfind, hgranted, hi, ?_⟩
      rintro content x rfl
      refine content_of_after (not_isDownload_of_binary hp.2 hplace) (x := x) ?_
      rw [after_concat, h]
      exact hn

end

open Surroundings Web.Transport in
/-- An attempt that fails leaves nothing that the next one would return. -/
theorem run_installs_after_failure :
    let m : Archive.Member := ⟨"reproto", .file, [1, 2]⟩
    let server (version : String) : Web.Server := .ofList
      [("/reproto-releases/releases", .ok { body := [.ofOctets (Utf8.encode version)] }),
       ("/reproto-releases/reproto-2-linux-x86_64.tar.gz", .ok { body := [Archive.pack [m]] })]
    let attempt (version : String) : Attempt :=
      { user := { env := [("HOME", "/u")] }
        client := { options := clientOptions, server := server version } }
    let r := (attempt "2").run (after {} [attempt "1"])
    r.1.toOption = some (.ofText "/u/.local/bin/reproto") ∧
      ∃ before b rest, [attempt "1"] ++ [attempt "2"] = before ++ b :: rest ∧
        b.Writes (after {} before) ["u", ".local", "bin", "reproto"] (.ofOctets [1, 2]) := by
  intro m server attempt r
  have hrun : (attempt "2").run (after {} [attempt "1"]) = r := rfl
  have hr : r.1.toOption = some (.ofText "/u/.local/bin/reproto") ∧
      r.2.disk.find (.ofText "/u/.local/bin/reproto") =
        .ok (["u", ".local", "bin", "reproto"], .file (.ofOctets [1, 2]) true) := by
    decide +kernel
  clear_value r
  rcases r with ⟨_ | path, s⟩
  · cases hr.1
  · obtain ⟨ht, hf⟩ := hr
    obtain rfl := Option.some.inj ht
    obtain ⟨p, place, n, -, -, hfind, -, -, hcontent⟩ := run_installs hrun
    obtain ⟨rfl, rfl⟩ := Prod.mk.inj (Except.ok.inj (hf.symm.trans hfind))
    refine ⟨ht, (hcontent _ _ rfl).resolve_left ?_⟩
    rintro ⟨x, hx⟩
    cases hx

open Surroundings Web.Transport in
/-- The executable of an older release stays, and so does what is left of an archive that was
refused: the next attempt returns it. -/
theorem run_returns_leftovers :
    let path := PathName.ofText "/u/.local/bin/reproto"
    let member (name : Text) (data : List UInt8) : Archive.Member := ⟨name, .file, data⟩
    let server (members : List Archive.Member) : Web.Server := .ofList
      [("/reproto-releases/releases", .ok { body := [.ofOctets (Utf8.encode "2")] }),
       ("/reproto-releases/reproto-2-linux-x86_64.tar.gz", .ok { body := [Archive.pack members] })]
    let attempt (members : List Archive.Member) : Attempt :=
      { user := { env := [("HOME", "/u")] }
        client := { options := clientOptions, server := server members } }
    let new := attempt [member "reproto" [2]]
    let updated := new.run (({} : Disk).withFile path (.ofOctets [1]))
    let refused := attempt [member "reproto" [1], member "../evil" [2]]
    let again := refused.run (after {} [refused])
    updated.1.toOption = some path ∧ updated.2.disk.read path = .ok (.ofOctets [1]) ∧
      (refused.run {}).1.toOption = none ∧
      again.1.toOption = some path ∧ again.2.disk.read path = .ok (.ofOctets [1]) := by
  decide +kernel

end Workbench.Install
