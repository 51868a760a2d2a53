import Workbench.Proofs.Discovery.Locate
import Workbench.Proofs.Discovery.Order
import Workbench.Proofs.Editor

/-! # The offer to install

A search that finds nothing is reported in full, and then one installation is offered. After one
that succeeds there is a second search, in the world as the installation left it; it is reported
in the same way, but nothing more is offered.
-/

namespace Workbench.Search

open Editor (Tells)

variable {s : Search} {e : Editor} {w : World} {t : Toolchain} {installer : Option Installer}
  {r : Told (Option Toolchain)}

/-! ## Discoveries -/

section

variable [Surroundings]

inductive Takes (s : Search) (w : World) : Toolchain → Prop
  | configured {path : Text} (set : s.settings.executable = some path) (nonempty : path ≠ []) :
      Takes s w ⟨path, s.root⟩
  | found {before after : List Text} {path : Text} (unset : ∀ t ∈ s.settings.executable, t = [])
      (split : s.candidates.paths = before ++ path :: after)
      (absent : ∀ p ∈ before, w.isFile p = false) (present : w.isFile path = true) :
      Takes s w ⟨path, s.root⟩

structure Misses (s : Search) (w : World) : Prop where
  unset : ∀ t ∈ s.settings.executable, t = []
  absent : ∀ p ∈ s.candidates.paths, w.isFile p = false

theorem takes_or_misses (s : Search) (w : World) :
    (∃ t, s.find? w = some t ∧ s.Takes w t) ∨ s.find? w = none ∧ s.Misses w := by
  unfold find?
  cases hd : Discovery.defined s.candidates.explicit with
  | some path =>
    obtain ⟨hset, hne⟩ := Discovery.defined_eq_some_iff.mp hd
    rw [Candidates.select_configured s.root w.isFile hd]
    exact .inl ⟨_, rfl, .configured hset hne⟩
  | none =>
    have hunset := Discovery.defined_eq_none_iff.mp hd
    rw [Candidates.select_searched s.root w.isFile hd]
    have hs : Candidates.Searched w.isFile s.candidates.paths
        (Candidates.firstExisting w.isFile s.candidates.paths) :=
      Candidates.searched_firstExisting (Discovery.resolve_ne_nil s.settings s.env s.system)
    generalize Candidates.firstExisting w.isFile s.candidates.paths = found at hs
    cases hs with
    | found split absent present => exact .inl ⟨_, rfl, .found hunset split absent present⟩
    | missed absent => exact .inr ⟨rfl, hunset, absent⟩

theorem Misses.not_takes (h : s.Misses w) : ¬ s.Takes w t := by
  rintro (⟨set, nonempty⟩ | ⟨-, split, -, present⟩)
  · exact nonempty (h.unset _ set)
  · rw [h.absent _ (by simp [split])] at present
    cases present

theorem Takes.unique {t' : Toolchain} (h : s.Takes w t) (h' : s.Takes w t') : t = t' := by
  cases h with
  | configured set nonempty =>
    cases h' with
    | configured set' => cases set.symm.trans set'; rfl
    | found unset => exact absurd (unset _ set) nonempty
  | @found before after path unset split absent present =>
    cases h' with
    | configured set' nonempty' => exact absurd (unset _ set') nonempty'
    | @found before' after' path' _ split' absent' present' =>
      -- neither stands before the other, where all are absent
      rcases List.append_eq_append_iff.mp (split.symm.trans split') with
        ⟨between, rfl, hb⟩ | ⟨between, rfl, hb⟩
      · cases between with
        | nil => cases hb; rfl
        | cons p between =>
          cases hb
          rw [absent' path (by simp)] at present
          cases present
      · cases between with
        | nil => cases hb; rfl
        | cons p between =>
          cases hb
          rw [absent path' (by simp)] at present'
          cases present'

/-! ## Reports -/

/-- A full report: a header, the places that were looked in by their numbers, and then the output
and an error are shown. -/
def report (s : Search) : List Editor.Call :=
  [.appendLine "usable `reproto` command could not be found!",
    .appendLine "looked in the following places:"] ++
  (s.candidates.sources.zipIdx.map fun (source, n) =>
    .appendLine ("#" ++ Text.ofNat n ++ ": " ++ source.description)) ++
  [.showOutput, .showError "Usable `reproto` command could not be found!"]

def reported (s : Search) (e : Editor) : Editor :=
  { e.behind s.reportLines.length .line with calls := e.calls ++ s.report }

omit [Surroundings] in
theorem reported_eq (s : Search) (e : Editor) : s.reported e =
    ((e.told .line s.reportLines).showOutput.showError
      "Usable `reproto` command could not be found!") := by
  have hlines : s.reportLines.map Editor.Entry.line.call ++ [.showOutput,
      .showError "Usable `reproto` command could not be found!"] = s.report := by
    simp [Editor.Entry.call, reportLines, report, failure, Failure.lines?, Failure.message,
      Candidates.descriptions, List.zipIdx_map, Function.comp_def]
    rfl
  simp [reported, Editor.told, Editor.showOutput, Editor.showError, Editor.call, ← hlines]

/-- What one discovery comes to. -/
inductive Attempts (s : Search) (e : Editor) (w : World) : Told (Option Toolchain) → Prop
  | found {t : Toolchain} (takes : s.Takes w t) : Attempts s e w (.ok (some t), e, w)
  | reported (misses : s.Misses w) (taken : e.Takes .line s.reportLines.length) :
      Attempts s e w (.ok none, s.reported e, w)
  | refused {e' : Editor} {c : Crash} (misses : s.Misses w)
      (told : Tells e .line s.reportLines (e', some c)) : Attempts s e w (.error c, e', w)

theorem attempts_attempt (s : Search) (e : Editor) (w : World) :
    s.Attempts e w (s.attempt e w) := by
  rcases s.takes_or_misses w with ⟨t, hf, ht⟩ | ⟨hf, hm⟩
  · rw [attempt, hf]
    exact .found ht
  · have htells := Editor.tells_foldUntil e .line s.reportLines
    rw [attempt, hf]
    dsimp only
    rw [reportFailure]
    change Tells e .line _ (foldUntil Editor.appendLine e s.reportLines) at htells
    generalize foldUntil Editor.appendLine e s.reportLines = told at htells
    cases htells with
    | all taken =>
      have h := Attempts.reported hm taken
      rwa [reported_eq] at h
    | refused split taken refused => exact .refused hm (.refused split taken refused)

theorem Attempts.found_iff (h : s.Attempts e w r) : r.1 = .ok (some t) ↔ s.Takes w t := by
  cases h with
  | found takes => exact ⟨fun h => (by cases h; exact takes), fun h => by rw [takes.unique h]⟩
  | reported misses => exact ⟨nofun, fun h => absurd h misses.not_takes⟩
  | refused misses => exact ⟨nofun, fun h => absurd h misses.not_takes⟩

/-! ## Whole searches -/

/-- The first discovery finds nothing, and the editor takes the report. -/
structure Fails (s : Search) (e : Editor) (w : World) : Prop where
  misses : s.Misses w
  taken : e.Takes .line s.reportLines.length

theorem Takes.not_fails (h : s.Takes w t) : ¬ s.Fails e w := fun hf => hf.misses.not_takes h

theorem not_fails_of_refused {e' : Editor} {c : Crash}
    (h : Tells e .line s.reportLines (e', some c)) :
    ¬ s.Fails e w := fun hf => nomatch h.snd_eq_none_iff.mpr hf.taken

/-- After a failure the user is asked, wants to install, and the installer is run on what the
editor was told and on the world as it is. -/
structure Installs (s : Search) (installer : Option Installer) (e : Editor) (w : World)
    (r : Told Bool) : Prop where
  fails : s.Fails e w
  confirmed : e.confirms = true
  ran : ∃ install ∈ installer, install (s.reported e).confirmInstall w = r

/-- The ways that a search may go, with what the editor is told and the world that is left. -/
inductive Course (s : Search) (installer : Option Installer) (e : Editor) (w : World) :
    Told (Option Toolchain) → Prop
  /-- The first discovery finds a toolchain; nothing is told. -/
  | found {t : Toolchain} (takes : s.Takes w t) : Course s installer e w (.ok (some t), e, w)
  /-- The editor refuses a line of the report. -/
  | unreported {e' : Editor} {c : Crash} (misses : s.Misses w)
      (told : Tells e .line s.reportLines (e', some c)) : Course s installer e w (.error c, e', w)
  /-- There is no installer, and nothing is asked. -/
  | unoffered (fails : s.Fails e w) (absent : installer = none) :
      Course s installer e w (.ok none, s.reported e, w)
  /-- The user is asked and does not want to install. -/
  | declined (fails : s.Fails e w) (offered : installer ≠ none) (answer : e.confirms = false) :
      Course s installer e w (.ok none, (s.reported e).confirmInstall, w)
  /-- The installer crashes. -/
  | crashed {e' : Editor} {w' : World} {c : Crash}
      (installs : s.Installs installer e w (.error c, e', w')) :
      Course s installer e w (.error c, e', w')
  /-- Nothing was installed, and nothing is looked for again. -/
  | failed {e' : Editor} {w' : World} (installs : s.Installs installer e w (.ok false, e', w')) :
      Course s installer e w (.ok none, e', w')
  /-- The editor refuses to be told of the second discovery. -/
  | unannounced {e' : Editor} {w' : World}
      (installs : s.Installs installer e w (.ok true, e', w')) (refused : e'.takes .line = false) :
      Course s installer e w (.error .closedOutput, e'.behind 1 .line, w')
  /-- There is a second discovery in the world that the installer left. -/
  | repeated {e' : Editor} {w' : World} {r : Told (Option Toolchain)}
      (installs : s.Installs installer e w (.ok true, e', w')) (taken : e'.takes .line = true)
      (second : s.Attempts (e'.told .line ["reactivating extension"]) w' r) :
        Course s installer e w r

theorem course_again {e' : Editor} {w' : World}
    (h : s.Installs installer e w (.ok true, e', w')) : s.Course installer e w (s.again e' w') := by
  unfold again
  cases ht : e'.takes .line with
  | true =>
    rw [Editor.appendLine, Editor.add_of_takes ht]
    exact .repeated h ht (s.attempts_attempt _ w')
  | false =>
    rw [Editor.appendLine, Editor.add_of_refuses ht]
    exact .unannounced h ht

theorem course_offer {install : Installer} (h : s.Fails e w) :
    s.Course (some install) e w (s.offer install (s.reported e) w) := by
  have hasked : (s.reported e).confirmInstall.confirms = e.confirms := rfl
  rw [offer, hasked]
  cases hc : e.confirms with
  | false => exact .declined h (Option.some_ne_none install) hc
  | true =>
    have hinstalls := Installs.mk h hc ⟨install, rfl, rfl⟩
    rcases hr : install (s.reported e).confirmInstall w with ⟨c | b, e', w'⟩ <;>
      rw [hr] at hinstalls
    · exact .crashed hinstalls
    · cases b with
      | false => exact .failed hinstalls
      | true => exact course_again hinstalls

theorem course_locate (s : Search) (installer : Option Installer) (e : Editor) (w : World) :
    s.Course installer e w (s.locate installer e w) := by
  have hattempt := s.attempts_attempt e w
  unfold locate
  generalize s.attempt e w = r at hattempt
  cases hattempt with
  | found takes => exact .found takes
  | reported misses taken =>
    cases installer with
    | none => exact .unoffered ⟨misses, taken⟩ rfl
    | some install => exact course_offer ⟨misses, taken⟩
  | refused misses told => exact .unreported misses told

/-! ## What comes of it -/

theorem Installs.unique {r r' : Told Bool} (h : s.Installs installer e w r)
    (h' : s.Installs installer e w r') : r = r' := by
  obtain ⟨install, hi, rfl⟩ := h.ran
  obtain ⟨install', hi', rfl⟩ := h'.ran
  rw [Option.mem_unique hi hi']

theorem Installs.ne_none {b : Told Bool} (h : s.Installs installer e w b) : installer ≠ none := by
  obtain ⟨install, hi, -⟩ := h.ran
  exact Option.ne_none_iff_exists'.mpr ⟨install, hi⟩

/-- There is a second discovery, of which something holds: the installer succeeds, and the editor
takes the note of it. -/
def Again (s : Search) (installer : Option Installer) (e : Editor) (w : World)
    (second : Editor → World → Prop) : Prop :=
  ∃ e' w', s.Installs installer e w (.ok true, e', w') ∧ e'.takes .line = true ∧
    second (e'.told .line ["reactivating extension"]) w'

def FindsAgain (s : Search) (installer : Option Installer) (e : Editor) (w : World)
    (t : Toolchain) : Prop :=
  s.Again installer e w fun _ w' => s.Takes w' t

def FailsAgain (s : Search) (installer : Option Installer) (e : Editor) (w : World) : Prop :=
  s.Again installer e w fun e' w' => s.Fails e' w'

theorem Again.of_installs {second : Editor → World → Prop} {e' : Editor} {w' : World}
    {b : Except Crash Bool} (h : s.Again installer e w second)
    (hi : s.Installs installer e w (b, e', w')) :
    b = .ok true ∧ e'.takes .line = true ∧
      second (e'.told .line ["reactivating extension"]) w' := by
  obtain ⟨_, _, hs, he, h⟩ := h
  cases hs.unique hi
  exact ⟨rfl, he, h⟩

theorem Course.found_iff (h : s.Course installer e w r) :
    r.1 = .ok (some t) ↔ s.Takes w t ∨ s.FindsAgain installer e w t := by
  cases h with
  | found takes =>
    refine ⟨fun h => .inl (by cases h; exact takes), ?_⟩
    rintro (ht | ⟨_, _, hs, -⟩)
    · rw [takes.unique ht]
    · exact absurd hs.fails takes.not_fails
  | unreported misses told =>
    rw [or_iff_right misses.not_takes]
    exact ⟨nofun, fun ⟨_, _, hs, _⟩ => absurd hs.fails (not_fails_of_refused told)⟩
  | unoffered fails absent =>
    rw [or_iff_right fails.misses.not_takes]
    exact ⟨nofun, fun ⟨_, _, hs, _⟩ => absurd absent hs.ne_none⟩
  | declined fails offered answer =>
    rw [or_iff_right fails.misses.not_takes]
    refine ⟨nofun, fun ⟨_, _, hs, _⟩ => ?_⟩
    cases answer.symm.trans hs.confirmed
  | crashed installs =>
    rw [or_iff_right installs.fails.misses.not_takes]
    exact ⟨nofun, fun h => nomatch (h.of_installs installs).1⟩
  | failed installs =>
    rw [or_iff_right installs.fails.misses.not_takes]
    exact ⟨nofun, fun h => nomatch (h.of_installs installs).1⟩
  | unannounced installs refused =>
    rw [or_iff_right installs.fails.misses.not_takes]
    refine ⟨nofun, fun h => ?_⟩
    cases refused.symm.trans (h.of_installs installs).2.1
  | repeated installs taken second =>
    rw [or_iff_right installs.fails.misses.not_takes, second.found_iff]
    exact ⟨fun ht => ⟨_, _, installs, taken, ht⟩, fun h => (h.of_installs installs).2.2⟩

/-! ## How often -/

def shown : List Editor.Call :=
  [.showOutput, .showError "Usable `reproto` command could not be found!"]

section

variable {c : Editor.Call} (hc : ∀ t, c ≠ .appendLine t)
include hc

omit [Surroundings] in
theorem count_reported (s : Search) (e : Editor) :
    (s.reported e).calls.count c = e.calls.count c + shown.count c := by
  have hcalls : (s.reported e).calls = (e.told .line s.reportLines).calls ++ shown := by
    rw [reported_eq, Editor.showError, Editor.showOutput, Editor.call, Editor.call, shown,
      List.append_assoc, List.singleton_append]
  rw [hcalls, List.count_append, e.count_told hc]

omit [Surroundings] in
theorem count_confirmInstall (s : Search) (e : Editor) :
    (s.reported e).confirmInstall.calls.count c =
      e.calls.count c + shown.count c + [Editor.Call.confirmInstall].count c := by
  rw [Editor.confirmInstall, Editor.call, List.count_append, count_reported hc]

open Classical in
theorem Attempts.count (h : s.Attempts e w r) : r.2.1.calls.count c =
    e.calls.count c + if s.Fails e w then shown.count c else 0 := by
  cases h with
  | found takes => rw [if_neg takes.not_fails, Nat.add_zero]
  | reported misses taken => rw [if_pos ⟨misses, taken⟩, count_reported hc]
  | refused misses told =>
    rw [if_neg (not_fails_of_refused told), Nat.add_zero]
    exact told.count hc

open Classical in
theorem Course.count (h : s.Course installer e w r)
    (hi : ∀ install ∈ installer, ∀ e w, (install e w).2.1.calls.count c = e.calls.count c) :
    r.2.1.calls.count c = e.calls.count c + (if s.Fails e w then shown.count c else 0) +
      (if s.Fails e w ∧ installer ≠ none then [Editor.Call.confirmInstall].count c else 0) +
      if s.FailsAgain installer e w then shown.count c else 0 := by
  have hran {b : Except Crash Bool} {e' : Editor} {w' : World}
      (h : s.Installs installer e w (b, e', w')) : e'.calls.count c =
        e.calls.count c + shown.count c + [Editor.Call.confirmInstall].count c := by
    obtain ⟨install, hm, hr⟩ := h.ran
    have hcount := hi install hm (s.reported e).confirmInstall w
    rw [hr] at hcount
    exact hcount.trans (count_confirmInstall hc s e)
  have hfails (h : s.FailsAgain installer e w) : s.Fails e w := by
    obtain ⟨_, _, hs, -⟩ := h
    exact hs.fails
  cases h with
  | found takes =>
    have hn : ¬ s.Fails e w := takes.not_fails
    simp [hn, mt hfails hn]
  | unreported misses told =>
    have hn : ¬ s.Fails e w := not_fails_of_refused told
    simp [hn, mt hfails hn, told.count hc]
  | unoffered fails absent =>
    subst absent
    have hn : ¬ s.FailsAgain none e w := fun ⟨_, _, hs, _⟩ => hs.ne_none rfl
    simp [fails, hn, count_reported hc]
  | declined fails offered answer =>
    have hn : ¬ s.FailsAgain installer e w := fun ⟨_, _, hs, _⟩ =>
      nomatch answer.symm.trans hs.confirmed
    simp [fails, offered, hn, count_confirmInstall hc]
  | crashed installs =>
    have hn : ¬ s.FailsAgain installer e w := fun h => nomatch (h.of_installs installs).1
    simp [installs.fails, installs.ne_none, hn, hran installs]
  | failed installs =>
    have hn : ¬ s.FailsAgain installer e w := fun h => nomatch (h.of_installs installs).1
    simp [installs.fails, installs.ne_none, hn, hran installs]
  | unannounced installs refused =>
    have hn : ¬ s.FailsAgain installer e w := fun h =>
      nomatch refused.symm.trans (h.of_installs installs).2.1
    simp [installs.fails, installs.ne_none, hn, hran installs]
  | @repeated e' w' r installs taken second =>
    have hagain : s.FailsAgain installer e w ↔
        s.Fails (e'.told .line ["reactivating extension"]) w' :=
      ⟨fun h => (h.of_installs installs).2.2, fun hf => ⟨e', w', installs, taken, hf⟩⟩
    rw [second.count hc, e'.count_told hc, hran installs]
    simp [installs.fails, installs.ne_none, hagain]

end

/-! ## The offer -/

def questions (e : Editor) : Nat := e.calls.count .confirmInstall

def reports (e : Editor) : Nat :=
  e.calls.count (.showError "Usable `reproto` command could not be found!")

/-- An installer is run at most once, on what the editor was told and the world as it is, and only
where the first discovery failed and the user wants to install. -/
theorem locate_congr {install install' : Installer}
    (h : s.Fails e w → e.confirms = true → install (s.reported e).confirmInstall w =
      install' (s.reported e).confirmInstall w) :
    s.locate (some install) e w = s.locate (some install') e w := by
  have hattempt := s.attempts_attempt e w
  unfold locate
  generalize s.attempt e w = r at hattempt
  cases hattempt with
  | found takes => rfl
  | refused misses told => rfl
  | reported misses taken =>
    have hasked : (s.reported e).confirmInstall.confirms = e.confirms := rfl
    change s.offer install (s.reported e) w = s.offer install' (s.reported e) w
    rw [offer, offer, hasked]
    cases hc : e.confirms with
    | false => rfl
    | true => rw [h ⟨misses, taken⟩ hc]

open Classical in
/-- A search goes one of the ways described. It gives a toolchain just when its first discovery
finds one, or a second one behind an installation; the toolchain is the first usable one then. The
installer is run only after a failure and with the consent of the user, who is asked once, and
there is one report for each discovery that fails. -/
theorem locate_offers_once (s : Search) (installer : Option Installer) (e : Editor) (w : World) :
    s.Course installer e w (s.locate installer e w) ∧
    (∀ t, (s.locate installer e w).1 = .ok (some t) ↔
      s.Takes w t ∨ s.FindsAgain installer e w t) ∧
    (∀ install install' : Installer,
      (s.Fails e w → e.confirms = true → install (s.reported e).confirmInstall w =
        install' (s.reported e).confirmInstall w) →
      s.locate (some install) e w = s.locate (some install') e w) ∧
    ((∀ install ∈ installer, ∀ e w, questions (install e w).2.1 = questions e) →
      questions (s.locate installer e w).2.1 =
        questions e + if s.Fails e w ∧ installer ≠ none then 1 else 0) ∧
    ((∀ install ∈ installer, ∀ e w, reports (install e w).2.1 = reports e) →
      reports (s.locate installer e w).2.1 =
        reports e + (if s.Fails e w then 1 else 0) +
          if s.FailsAgain installer e w then 1 else 0) := by
  have hcourse := s.course_locate installer e w
  refine ⟨hcourse, fun t => hcourse.found_iff, fun _ _ h => locate_congr h,
    fun hi => ?_, fun hi => ?_⟩
  · have hcount := hcourse.count (by simp) hi
    have hshown : shown.count .confirmInstall = 0 := by decide
    rwa [hshown, ite_self, ite_self] at hcount
  · have hcount := hcourse.count (by simp) hi
    have hshown : shown.count (.showError "Usable `reproto` command could not be found!") = 1 := by
      decide
    have hasked : [Editor.Call.confirmInstall].count
        (.showError "Usable `reproto` command could not be found!") = 0 := by decide
    rwa [hshown, hasked, ite_self] at hcount

end

open Surroundings in
/-- The installer puts a file where the search looks: it is found, after one question and one
report. -/
theorem locate_offers_once_of_installed :
    let s : Search := { settings := {}, env := [("PATH", "/a:/b")] }
    let install : Installer := fun e w => (.ok true, e, w.write "/b/reproto" "")
    let r := s.locate (some install) { confirms := true } {}
    r.1 = .ok (some ⟨"/b/reproto", none⟩) ∧ questions r.2.1 = 1 ∧ reports r.2.1 = 1 := by
  intro s install r
  have hfails : s.Fails { confirms := true } {} :=
    ⟨⟨nofun, by decide⟩, fun _ _ => rfl⟩
  have hinstalls : s.Installs (some install) { confirms := true } {}
      (install (s.reported { confirms := true }).confirmInstall {}) :=
      ⟨hfails, rfl, install, rfl, rfl⟩
  have hpaths : s.candidates.paths = ["/a/reproto"] ++ "/b/reproto" :: [] := by decide
  have htakes : s.Takes (World.write {} "/b/reproto" "") ⟨"/b/reproto", none⟩ :=
    .found nofun hpaths (by decide) (by decide)
  have hagain : ¬ s.FailsAgain (some install) { confirms := true } {} := fun h =>
    (h.of_installs hinstalls).2.2.misses.not_takes htakes
  obtain ⟨-, hfound, -, hasked, hreports⟩ :=
    locate_offers_once s (some install) { confirms := true } {}
  refine ⟨(hfound _).mpr (.inr ⟨_, _, hinstalls, rfl, htakes⟩), ?_, ?_⟩
  · rw [hasked fun i hi _ _ => by cases hi; rfl, if_pos ⟨hfails, Option.some_ne_none install⟩]
    rfl
  · rw [hreports fun i hi _ _ => by cases hi; rfl, if_pos hfails, if_neg hagain]
    rfl

end Workbench.Search
