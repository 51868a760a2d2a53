import Workbench.Proofs.Language.Conversation
import Workbench.Surroundings

/-! # Servers that are left running

A client knows the server that it uses and no other. A start that succeeds while a server is in
use overtakes it, and from then on nothing stops it. Every other server that was started is in
use, or it has been stopped; but where a root has no URI no server is ever stopped.
-/

namespace Workbench.LanguageClient

open Workbench.Language

variable {c c₀ : LanguageClient} {folders : List Folder} {calls : List Call} {n : Nat}

/-- The server that calls tried to start was started, and has not been stopped since. -/
structure Unstopped (c₀ : LanguageClient) (calls : List Call) (n : Nat) : Prop where
  spawned : ∃ sc, (scripts calls)[n]? = some sc ∧ sc.startError = none
  unstopped : .stop ∉ (c₀.answerAll calls).heard n

/-- A start succeeded while the server was in use. -/
def Overtaken (c₀ : LanguageClient) (calls : List Call) (n : Nat) : Prop :=
  ∃ before sc after, calls = before ++ .start sc :: after ∧ sc.succeeds ∧
    (c₀.answerAll before).current = some n

/-- At every time no more than one server runs, and none when a stop has been answered. -/
structure LeavesNone (c₀ : LanguageClient) (calls : List Call) : Prop where
  one : ∀ before, before <+: calls → ∀ m n, Unstopped c₀ before m → Unstopped c₀ before n → m = n
  stopped : ∀ before sc, before ++ [.stop sc] <+: calls → ∀ n,
    ¬ Unstopped c₀ (before ++ [.stop sc]) n

/-! ## Overtaking -/

theorem Overtaken.append (h : Overtaken c₀ calls n) (more : List Call) :
    Overtaken c₀ (calls ++ more) n := by
  obtain ⟨before, sc, after, rfl, hs, hc⟩ := h
  exact ⟨before, sc, after ++ more, by simp, hs, hc⟩

theorem overtaken_concat (c₀ : LanguageClient) (calls : List Call) (k : Call) (n : Nat) :
    Overtaken c₀ (calls ++ [k]) n ↔ Overtaken c₀ calls n ∨
      (∃ sc, k = .start sc ∧ sc.succeeds) ∧ (c₀.answerAll calls).current = some n := by
  constructor
  · rintro ⟨before, sc, after, he, hs, hc⟩
    rcases List.eq_nil_or_concat' after with rfl | ⟨after, last, rfl⟩
    · obtain ⟨rfl, hk⟩ := List.append_inj' he rfl
      exact .inr ⟨⟨sc, (List.cons.inj hk).1, hs⟩, hc⟩
    · rw [← List.cons_append, ← List.append_assoc] at he
      obtain ⟨rfl, -⟩ := List.append_inj' he rfl
      exact .inl ⟨before, sc, after, rfl, hs, hc⟩
  · rintro (h | ⟨⟨sc, rfl, hs⟩, hc⟩)
    · exact h.append [k]
    · exact ⟨calls, sc, [], rfl, hs, hc⟩

theorem overtaken_start (c₀ : LanguageClient) (calls : List Call) (sc : Script) (n : Nat) :
    Overtaken c₀ (calls ++ [.start sc]) n ↔
      Overtaken c₀ calls n ∨ sc.succeeds ∧ (c₀.answerAll calls).current = some n := by
  simp [overtaken_concat]

theorem overtaken_of_script? {k : Call} (hk : k.script? = none) :
    Overtaken c₀ (calls ++ [k]) n ↔ Overtaken c₀ calls n := by
  rw [overtaken_concat, or_iff_left]
  rintro ⟨⟨sc, rfl, -⟩, -⟩
  cases hk

/-! ## One call -/

theorem mem_stop_start (hf : foldersOf c.roots = .ok folders) (sc : Script) (n : Nat) :
    .stop ∈ (c.start sc).1.heard n ↔ .stop ∈ c.heard n ∨
      c.servers = n ∧ sc.startError = none ∧ sc.handshake.isReady = false := by
  have hopening : Event.stop ∉ c.opening folders := by simp [opening]
  have htake : Event.stop ∉ (c.opening folders).take 1 := fun h => hopening (List.mem_of_mem_take h)
  have hstarted := c.started hf sc
  generalize c.start sc = r at hstarted
  cases hstarted with
  | unspawned hs _ _ _ hh =>
    rw [hh, List.mem_append]
    split_ifs <;> simp [hs, htake]
  | refused hs hr _ _ _ hh =>
    rw [hh, List.mem_append]
    split_ifs with hn <;> simp [hs, hr, hn]
  | ready hs _ _ _ hh =>
    have hready : sc.handshake.isReady = true := (Bool.and_eq_true_iff.mp hs).2
    rw [hh, List.mem_append]
    split_ifs <;> simp [hready, hopening]

theorem mem_stop_notify (c : LanguageClient) {e : Event} (he : e ≠ .stop) (n : Nat) :
    .stop ∈ (c.notify e).heard n ↔ .stop ∈ c.heard n := by
  rw [heard_notify, List.mem_append, or_iff_left_iff_imp]
  intro h
  split_ifs at h
  · exact absurd (List.mem_singleton.mp h).symm he
  · cases h

theorem mem_stop_stop (c : LanguageClient) (sc : Script) (n : Nat) :
    .stop ∈ (c.stop sc).heard n ↔ .stop ∈ c.heard n ∨ c.current = some n := by
  rw [heard_stop, List.mem_append]
  split_ifs <;> simp [*]

/-! ## Many calls -/

theorem scripts_start (calls : List Call) (sc : Script) :
    scripts (calls ++ [.start sc]) = scripts calls ++ [sc] := by
  simp [scripts, Call.script?]

theorem getElem?_scripts_start (calls : List Call) (sc : Script) (n : Nat) :
    (scripts (calls ++ [.start sc]))[n]? =
      if (scripts calls).length = n then some sc else (scripts calls)[n]? := by
  rw [scripts_start]
  split_ifs with hn
  · rw [← hn, List.getElem?_concat_length]
  · rw [List.getElem?_append]
    split_ifs with hlt
    · rfl
    · rw [List.getElem?_eq_none (by simp; omega), List.getElem?_eq_none (by omega)]

theorem scripts_concat {k : Call} (hk : k.script? = none) (calls : List Call) :
    scripts (calls ++ [k]) = scripts calls := by
  simp [scripts, hk]

theorem not_unstopped_length (c₀ : LanguageClient) (calls : List Call) :
    ¬ Unstopped c₀ calls (scripts calls).length := by
  rintro ⟨⟨_, hs, -⟩, -⟩
  simp at hs

theorem unstopped_concat {k : Call} (hk : k.script? = none) {stops : Prop}
    (hstop : .stop ∈ ((c₀.answerAll calls).answer k).heard n ↔
      .stop ∈ (c₀.answerAll calls).heard n ∨ stops) :
    Unstopped c₀ (calls ++ [k]) n ↔ Unstopped c₀ calls n ∧ ¬ stops := by
  rw [← answerAll_concat] at hstop
  constructor
  · rintro ⟨hs, hu⟩
    rw [scripts_concat hk] at hs
    obtain ⟨hu, hn⟩ := not_or.mp (mt hstop.mpr hu)
    exact ⟨⟨hs, hu⟩, hn⟩
  · rintro ⟨⟨hs, hu⟩, hn⟩
    rw [← scripts_concat hk] at hs
    exact ⟨hs, mt hstop.mp (not_or.mpr ⟨hu, hn⟩)⟩

section

variable (h : Tracks c₀ folders calls (c₀.answerAll calls))
include h

theorem unstopped_start (hf : foldersOf c₀.roots = .ok folders) (sc : Script) :
    Unstopped c₀ (calls ++ [.start sc]) n ↔
      Unstopped c₀ calls n ∨ (scripts calls).length = n ∧ sc.succeeds := by
  have hstop := mem_stop_start (h.roots_eq hf) sc n
  have hscript := getElem?_scripts_start calls sc n
  have hheard : (c₀.answerAll (calls ++ [.start sc])).heard n =
      ((c₀.answerAll calls).start sc).1.heard n := by rw [answerAll_concat]; rfl
  rw [← hheard, h.servers] at hstop
  by_cases hn : (scripts calls).length = n
  · rw [h.unheard n (Nat.le_of_eq (h.servers.trans hn))] at hstop
    rw [if_pos hn] at hscript
    rw [or_iff_right (hn ▸ not_unstopped_length c₀ calls)]
    simp only [List.not_mem_nil, hn, true_and, false_or] at hstop
    constructor
    · rintro ⟨⟨_, hs, he⟩, hu⟩
      cases hscript.symm.trans hs
      rw [hstop] at hu
      exact ⟨hn, by simpa [Script.succeeds, he] using hu⟩
    · rintro ⟨-, hs⟩
      obtain ⟨he, hr⟩ := Bool.and_eq_true_iff.mp hs
      refine ⟨⟨sc, hscript, Option.isNone_iff_eq_none.mp he⟩, mt hstop.mp ?_⟩
      simp [hr]
  · rw [or_iff_left fun h => hn h.1] at hstop ⊢
    rw [if_neg hn] at hscript
    constructor
    · rintro ⟨hs, hu⟩
      exact ⟨hscript ▸ hs, mt hstop.mpr hu⟩
    · rintro ⟨hs, hu⟩
      exact ⟨hscript ▸ hs, mt hstop.mp hu⟩

end

/-- What is known of the servers that run, once some calls have been answered. -/
structure Known (c₀ : LanguageClient) (calls : List Call) : Prop where
  unstopped : ∀ n, Unstopped c₀ calls n ↔
    (c₀.answerAll calls).current = some n ∨ Overtaken c₀ calls n
  overtaken : ∀ n, Overtaken c₀ calls n →
    n < (c₀.answerAll calls).servers ∧ (c₀.answerAll calls).current ≠ some n

namespace Known

theorem start (h : Known c₀ calls) (ht : Tracks c₀ folders calls (c₀.answerAll calls))
    (hf : foldersOf c₀.roots = .ok folders) (sc : Script) : Known c₀ (calls ++ [.start sc]) := by
  have hcurrent : (c₀.answerAll (calls ++ [.start sc])).current =
      if sc.succeeds then some (c₀.answerAll calls).servers else (c₀.answerAll calls).current := by
    rw [answerAll_concat]
    exact current_answer (ht.roots_eq hf) (.start sc)
  have hservers : (c₀.answerAll (calls ++ [.start sc])).servers =
      (c₀.answerAll calls).servers + 1 := by
    have hnext := (ht.start hf sc).servers
    rw [scripts_start, List.length_append, ← ht.servers] at hnext
    rw [answerAll_concat]
    exact hnext
  constructor
  · intro n
    rw [unstopped_start ht hf, overtaken_start, hcurrent, h.unstopped, ht.servers]
    split_ifs with hs
    · rw [Option.some_inj]
      tauto
    · simp [hs]
  · intro n hn
    rw [hservers, hcurrent]
    have hlt : n < (c₀.answerAll calls).servers := by
      rcases (overtaken_start ..).mp hn with hn | ⟨-, hn⟩
      · exact (h.overtaken n hn).1
      · exact ht.current n hn
    refine ⟨by omega, ?_⟩
    split_ifs with hs
    · rw [ne_eq, Option.some_inj]
      omega
    · rcases (overtaken_start ..).mp hn with hn | ⟨hn, -⟩
      · exact (h.overtaken n hn).2
      · exact absurd hn hs

theorem document (h : Known c₀ calls) {k : Call} {e : Event} (hk : k.script? = none)
    (ha : (c₀.answerAll calls).answer k = (c₀.answerAll calls).notify e) (he : e ≠ .stop) :
    Known c₀ (calls ++ [k]) := by
  obtain ⟨-, hservers, hcurrent⟩ := (c₀.answerAll calls).notify_keeps e
  rw [← ha, ← answerAll_concat] at hservers hcurrent
  constructor
  · intro n
    have hstop := mem_stop_notify (c₀.answerAll calls) he n
    rw [← ha, ← or_false (_ ∈ (c₀.answerAll calls).heard n)] at hstop
    rw [unstopped_concat hk hstop, overtaken_of_script? hk, hcurrent, not_false_eq_true, and_true]
    exact h.unstopped n
  · intro n hn
    rw [hservers, hcurrent]
    exact h.overtaken n ((overtaken_of_script? hk).mp hn)

theorem stop (h : Known c₀ calls) (sc : Script) : Known c₀ (calls ++ [.stop sc]) := by
  obtain ⟨-, hservers, hcurrent⟩ := (c₀.answerAll calls).stop_keeps sc
  change ((c₀.answerAll calls).answer (.stop sc)).servers = _ at hservers
  change ((c₀.answerAll calls).answer (.stop sc)).current = _ at hcurrent
  rw [← answerAll_concat] at hservers hcurrent
  have hk : (Call.stop sc).script? = none := rfl
  constructor
  · intro n
    have hleft := h.overtaken n
    rw [unstopped_concat hk (mem_stop_stop _ sc n), overtaken_of_script? hk, hcurrent, h.unstopped]
    simp only [reduceCtorEq, false_or]
    tauto
  · intro n hn
    rw [hservers, hcurrent]
    exact ⟨(h.overtaken n ((overtaken_of_script? hk).mp hn)).1, nofun⟩

theorem unstopped_stop (h : Known c₀ calls) (sc : Script) :
    Unstopped c₀ (calls ++ [.stop sc]) n ↔ Overtaken c₀ calls n := by
  have hcurrent : (c₀.answerAll (calls ++ [.stop sc])).current = none := by
    rw [answerAll_concat]
    exact ((c₀.answerAll calls).stop_keeps sc).2.2
  rw [(h.stop sc).unstopped, hcurrent, overtaken_of_script? rfl]
  simp

end Known

section

variable [Path.WorkingDirectory]

theorem known_create {t : Toolchain} {s : Settings} {roots : List Text} {e : Editor}
    (hf : foldersOf (roots.map Path.absolute) = .ok folders) (calls : List Call) :
    Known (create t s roots e) calls := by
  induction calls using List.reverseRecOn with
  | nil =>
    have hnone (n : Nat) : ¬ Overtaken (create t s roots e) [] n := by
      rintro ⟨before, _, _, he, -⟩
      simp at he
    refine ⟨fun n => ?_, fun n hn => absurd hn (hnone n)⟩
    have hu : ¬ Unstopped (create t s roots e) [] n := by
      rintro ⟨⟨_, hs, -⟩, -⟩
      cases hs
    exact ⟨fun h => absurd h hu, fun h => h.elim nofun fun h => absurd h (hnone n)⟩
  | append_singleton calls k ih =>
    cases k with
    | start sc => exact ih.start (tracks_create hf calls) hf sc
    | didOpen uri content => exact ih.document rfl rfl nofun
    | didSave uri => exact ih.document rfl rfl nofun
    | stop sc => exact ih.stop sc

/-- No more than one server runs at every time, and none is left by a stop, just when no server is
overtaken. -/
theorem leavesNone_iff {t : Toolchain} {s : Settings} {roots : List Text} {e : Editor}
    (hf : foldersOf (roots.map Path.absolute) = .ok folders) :
    LeavesNone (create t s roots e) calls ↔ ∀ n, ¬ Overtaken (create t s roots e) calls n := by
  have hknown := known_create (t := t) (s := s) (e := e) hf
  constructor
  · rintro hl n ⟨before, sc, after, rfl, hs, hcur⟩
    have htracks := tracks_create (t := t) (s := s) (e := e) hf before
    have hover : Overtaken (create t s roots e) (before ++ [.start sc]) n :=
      ⟨before, sc, [], rfl, hs, hcur⟩
    have hold := ((hknown _).unstopped n).mpr (.inr hover)
    have hnew := (unstopped_start htracks hf sc).mpr (.inr ⟨rfl, hs⟩)
    have hsame := hl.one (before ++ [.start sc]) ⟨after, by simp⟩ _ _ hold hnew
    have hlt := htracks.current n hcur
    rw [htracks.servers, ← hsame] at hlt
    exact Nat.lt_irrefl n hlt
  · intro hover
    have hnone (before : List Call) (hb : before <+: calls) (n : Nat) :
        ¬ Overtaken (create t s roots e) before n := by
      obtain ⟨after, rfl⟩ := hb
      exact fun ho => hover n (ho.append after)
    constructor
    · intro before hb m n hm hn
      have hm := (((hknown before).unstopped m).mp hm).resolve_right (hnone before hb m)
      have hn := (((hknown before).unstopped n).mp hn).resolve_right (hnone before hb n)
      exact Option.some.inj (hm.symm.trans hn)
    · intro before sc hb n hu
      have hprefix := (List.prefix_append before [.stop sc]).trans hb
      exact hnone before hprefix n (((hknown before).unstopped_stop sc).mp hu)

/-! ## Roots without URIs -/

/-- A client with a root that has no URI uses no server, and stops none. -/
structure Idle (u : Uri.Unencodable) (c : LanguageClient) : Prop where
  roots : foldersOf c.roots = .error u
  current : c.current = none
  heard : ∀ n, .stop ∉ c.heard n

omit [Path.WorkingDirectory] in
theorem Idle.answer {u : Uri.Unencodable} (h : Idle u c) (k : Call) : Idle u (c.answer k) := by
  have hdocument (e : Event) : Idle u (c.notify e) := by
    rw [notify, h.current]
    exact h
  cases k with
  | didOpen uri content => exact hdocument _
  | didSave uri => exact hdocument _
  | stop sc =>
    change Idle u (c.stop sc)
    rw [LanguageClient.stop, h.current]
    exact h
  | start sc =>
    change Idle u (c.start sc).1
    have hstarted : (c.start sc).1 = ({ c with servers := c.servers + 1 } : LanguageClient).record
        c.servers [.start c.command c.toolchain.root] := by
      cases hs : sc.startError with
      | some reason => rw [start_of_error hs]
      | none => rw [start_of_unencodable hs h.roots]
    rw [hstarted]
    refine ⟨h.roots, h.current, fun n hm => ?_⟩
    rw [heard_record, List.mem_append] at hm
    refine hm.elim (h.heard n) fun hm => ?_
    split_ifs at hm <;> simp at hm

theorem idle_create {t : Toolchain} {s : Settings} {roots : List Text} {e : Editor}
    {u : Uri.Unencodable} (hf : foldersOf (roots.map Path.absolute) = .error u)
    (calls : List Call) :
    Idle u ((create t s roots e).answerAll calls) := by
  induction calls using List.reverseRecOn with
  | nil => exact ⟨hf, rfl, fun n => List.not_mem_nil⟩
  | append_singleton calls k ih =>
    rw [answerAll_concat]
    exact ih.answer k

/-! ## Which servers are left -/

/-- Whatever servers do and whatever is asked of a client whose roots have URIs, the servers that
were started and not stopped are the one in use and those that were overtaken, which stay so. A
client leaves no server just when it never starts one while another is in use. Where a root has no
URI every server that was started is left. -/
theorem unstopped_iff (t : Toolchain) (s : Settings) (roots : List Text) (e : Editor)
    (calls : List Call) :
    (∀ folders, foldersOf (roots.map Path.absolute) = .ok folders →
      (∀ n, Unstopped (create t s roots e) calls n ↔
        ((create t s roots e).answerAll calls).current = some n ∨
          Overtaken (create t s roots e) calls n) ∧
      (∀ sc n, Unstopped (create t s roots e) (calls ++ [.stop sc]) n ↔
        Overtaken (create t s roots e) calls n) ∧
      (LeavesNone (create t s roots e) calls ↔
        ∀ n, ¬ Overtaken (create t s roots e) calls n)) ∧
    ∀ u, foldersOf (roots.map Path.absolute) = .error u → ∀ n,
      Unstopped (create t s roots e) calls n ↔
        ∃ sc, (scripts calls)[n]? = some sc ∧ sc.startError = none := by
  constructor
  · intro folders hf
    have hknown := known_create (t := t) (s := s) (e := e) hf calls
    exact ⟨hknown.unstopped, fun sc n => hknown.unstopped_stop sc, leavesNone_iff hf⟩
  · intro u hf n
    exact ⟨fun h => h.spawned, fun h => ⟨h, (idle_create hf calls).heard n⟩⟩

end

open Surroundings in
/-- Three servers that were started without a stop run, and so does one whose client has a root
with no URI. -/
theorem unstopped_iff_of_starts :
    let calls := [Call.start {}, .didSave [], .start {}, .start { handshake := .silent }, .start {}]
    (∀ n ∈ [0, 1, 3], Unstopped (create default {} [Text.ofString "/ws"] {}) calls n) ∧
      ¬ LeavesNone (create default {} [Text.ofString "/ws"] {}) calls ∧
      Unstopped (create default {} [[.char '/', .surrogate 0]] {}) [.start {}, .stop {}] 0 := by
  intro calls
  have hf : foldersOf ([Text.ofString "/ws"].map Path.absolute) =
      .ok [⟨Text.ofString "file:///ws", Text.ofString "ws"⟩] := rfl
  have hu : foldersOf ([[.char '/', .surrogate 0]].map Path.absolute) = .error ⟨1, 0xD800, 1⟩ := rfl
  obtain ⟨hunstopped, -, hleaves⟩ :=
    (unstopped_iff default {} [Text.ofString "/ws"] {} calls).1 _ hf
  have hfirst : Overtaken (create default {} [Text.ofString "/ws"] {}) calls 0 :=
    ⟨[.start {}, .didSave []], {}, _, rfl, rfl, rfl⟩
  refine ⟨fun n hn => (hunstopped n).mpr ?_, fun h => hleaves.mp h 0 hfirst,
    ((unstopped_iff _ _ _ _ _).2 _ hu 0).mpr ⟨{}, rfl, rfl⟩⟩
  simp only [List.mem_cons, List.not_mem_nil, or_false] at hn
  rcases hn with rfl | rfl | rfl
  · exact .inr hfirst
  · exact .inr ⟨[.start {}, .didSave [], .start {}, .start { handshake := .silent }], {}, [], rfl,
      rfl, rfl⟩
  · exact .inl rfl

open Surroundings in
/-- A stop behind two starts stops the second server, and the first runs on. -/
theorem restart_leaves_server :
    let c₀ := create default {} [Text.ofString "/ws"] {}
    let calls := [Call.start {}, .start {}, .stop {}]
    (c₀.answerAll calls).current = none ∧ Unstopped c₀ calls 0 ∧ ¬ Unstopped c₀ calls 1 ∧
      ¬ LeavesNone c₀ calls := by
  intro c₀ calls
  have hfirst : Unstopped c₀ calls 0 := ⟨⟨{}, rfl, rfl⟩, by decide⟩
  exact ⟨rfl, hfirst, fun h => h.unstopped (by decide),
    fun h => h.stopped [.start {}, .start {}] {} (List.prefix_refl _) 0 hfirst⟩

end Workbench.LanguageClient
