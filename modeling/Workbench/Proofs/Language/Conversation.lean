import Mathlib.Data.List.Basic
import Mathlib.Data.List.Induction
import Workbench.Language.Client
import Workbench.Surroundings

/-! # What servers are told

A server is started and greeted. One that does not answer well is stopped at once; any other
is told of documents until it is shut down and stopped. Documents go to the server that
answered last, from its answer up to the next stop.
-/

namespace Workbench

namespace Language

inductive Call where
  | start (s : Script)
  | didOpen (uri content : Text)
  | didSave (uri : Text)
  | stop (s : Script)

def Handshake.isReady : Handshake → Bool
  | ready => true
  | _ => false

def Script.succeeds (s : Script) : Bool := s.startError.isNone && s.handshake.isReady

def Event.isDocument : Event → Bool
  | didOpen .. | didSave _ => true
  | _ => false

namespace Call

def script? : Call → Option Script
  | start s => some s
  | _ => none

def turns : Call → Bool
  | start s => s.succeeds
  | stop _ => true
  | _ => false

end Call

def scripts (calls : List Call) : List Script := calls.filterMap Call.script?

/-- How a server is left: not at all, or shut down as far as it can be and then stopped. -/
def endings : List (List Event) := [[], [.shutdown, .stop], [.shutdown, .exit, .stop]]

end Language

open Workbench.Language

namespace LanguageClient

variable {c c₀ : LanguageClient} {folders : List Folder} {calls : List Call} {k : Call} {n : Nat}

def heard (c : LanguageClient) (server : Nat) : List Event :=
  (c.events.filter (·.1 = server)).map (·.2)

def answer (c : LanguageClient) : Call → LanguageClient
  | .start s => (c.start s).1
  | .didOpen uri content => c.didOpen uri content
  | .didSave uri => c.didSave uri
  | .stop s => c.stop s

def answerAll (c : LanguageClient) (calls : List Call) : LanguageClient := calls.foldl answer c

def opening (c : LanguageClient) (folders : List Folder) : List Event :=
  [.start c.command c.toolchain.root, .greet (folders.head?.map (·.uri)) folders]

def Continues (c c' : LanguageClient) : Prop :=
  c'.toolchain = c.toolchain ∧ c'.settings = c.settings ∧ c'.roots = c.roots

theorem answerAll_concat (c : LanguageClient) (calls : List Call) (k : Call) :
    c.answerAll (calls ++ [k]) = (c.answerAll calls).answer k := by
  simp [answerAll]

/-! ## One call -/

theorem heard_record (c : LanguageClient) (m : Nat) (es : List Event) (n : Nat) :
    (c.record m es).heard n = c.heard n ++ if m = n then es else [] := by
  simp only [heard, record, List.filter_append, List.map_append]
  congr 1
  split_ifs with h
  · simp [List.filter_map, Function.comp_def, h]
  · simp [List.filter_map, Function.comp_def, h]

theorem heard_notify (c : LanguageClient) (e : Event) (n : Nat) :
    (c.notify e).heard n = c.heard n ++ if c.current = some n then [e] else [] := by
  unfold notify
  cases c.current with
  | none => simp
  | some m => simp [heard_record]

theorem notify_keeps (c : LanguageClient) (e : Event) : c.Continues (c.notify e) ∧
    (c.notify e).servers = c.servers ∧ (c.notify e).current = c.current := by
  unfold notify
  cases h : c.current with
  | none => exact ⟨⟨rfl, rfl, rfl⟩, rfl, h⟩
  | some m => exact ⟨⟨rfl, rfl, rfl⟩, rfl, h⟩

theorem heard_stop (c : LanguageClient) (s : Script) (n : Nat) :
    (c.stop s).heard n = c.heard n ++ if c.current = some n then
      (if s.shutdownFails then [.shutdown, .stop] else [.shutdown, .exit, .stop]) else [] := by
  unfold stop
  cases h : c.current with
  | none => simp
  | some m =>
    rw [heard_record]
    simp [heard]

theorem stop_keeps (c : LanguageClient) (s : Script) : c.Continues (c.stop s) ∧
    (c.stop s).servers = c.servers ∧ (c.stop s).current = none := by
  unfold stop
  cases h : c.current with
  | none => exact ⟨⟨rfl, rfl, rfl⟩, rfl, h⟩
  | some m => exact ⟨⟨rfl, rfl, rfl⟩, rfl, rfl⟩

theorem handshakeFailure_cases (c : LanguageClient) (h : Handshake) :
    h.isReady = true ∧ c.handshakeFailure h = none ∨
      h.isReady = false ∧ ∃ command reason,
        c.handshakeFailure h = some (.transport command reason) := by
  cases h with
  | ready => exact .inl ⟨rfl, rfl⟩
  | failure f => cases f <;> exact .inr ⟨rfl, _, _, rfl⟩
  | error | exited | silent => exact .inr ⟨rfl, _, _, rfl⟩

/-- What becomes of a start: the server cannot be started, does not get through the
handshake, or is in use from then on. -/
inductive Started (c : LanguageClient) (folders : List Folder) (s : Script) :
    LanguageClient × Except Problem Unit → Prop where
  | unspawned {c' : LanguageClient} {reason : Text} (hs : s.startError = some reason)
      (hk : c.Continues c') (hn : c'.servers = c.servers + 1) (hc : c'.current = c.current)
      (hh : ∀ n, c'.heard n = c.heard n ++
        if c.servers = n then (c.opening folders).take 1 else []) :
      Started c folders s (c', .error (.failure (.transport c.command reason)))
  | refused {c' : LanguageClient} {command : List Text} {reason : Text} (hs : s.startError = none)
      (hr : s.handshake.isReady = false) (hk : c.Continues c') (hn : c'.servers = c.servers + 1)
      (hc : c'.current = c.current)
      (hh : ∀ n, c'.heard n = c.heard n ++
        if c.servers = n then c.opening folders ++ [.stop] else []) :
      Started c folders s (c', .error (.failure (.transport command reason)))
  | ready {c' : LanguageClient} (hs : s.succeeds = true) (hk : c.Continues c')
      (hn : c'.servers = c.servers + 1) (hc : c'.current = some c.servers)
      (hh : ∀ n, c'.heard n = c.heard n ++
        if c.servers = n then c.opening folders ++ [.greeted] else []) :
      Started c folders s (c', .ok ())

theorem started (hf : foldersOf c.roots = .ok folders) (s : Script) :
    c.Started folders s (c.start s) := by
  have hroots : foldersOf (({ c with servers := c.servers + 1 } : LanguageClient).record c.servers
      [.start c.command c.toolchain.root]).roots = .ok folders := hf
  have hheard (n : Nat) : ({ c with servers := c.servers + 1 } : LanguageClient).heard n =
      c.heard n := rfl
  unfold start
  dsimp only
  rw [hroots]
  cases hs : s.startError with
  | some reason =>
    refine .unspawned hs ⟨rfl, rfl, rfl⟩ rfl rfl fun n => ?_
    rw [heard_record, hheard]
    rfl
  | none =>
    dsimp only
    unfold greet
    rcases handshakeFailure_cases ((({ c with servers := c.servers + 1 } : LanguageClient).record
        c.servers [.start c.command c.toolchain.root]).record c.servers
        [.greet (folders.head?.map (·.uri)) folders]) s.handshake with
      ⟨hr, hn⟩ | ⟨hr, command, reason, hn⟩
    · dsimp only
      rw [hn]
      refine .ready (by simp [Script.succeeds, hs, hr]) ⟨rfl, rfl, rfl⟩ rfl rfl fun n => ?_
      change (record _ _ _).heard n = _
      simp only [heard_record, hheard, opening]
      split_ifs <;> simp
    · dsimp only
      rw [hn]
      refine .refused hs hr ⟨rfl, rfl, rfl⟩ rfl rfl fun n => ?_
      simp only [heard_record, hheard, opening]
      split_ifs <;> simp

theorem start_of_error {s : Script} {reason : Text} (h : s.startError = some reason) :
    c.start s = (({ c with servers := c.servers + 1 } : LanguageClient).record c.servers
      [.start c.command c.toolchain.root], .error (.failure (.transport c.command reason))) := by
  unfold start
  dsimp only
  rw [h]
  rfl

theorem start_of_unencodable {s : Script} (h : s.startError = none) {u : Uri.Unencodable}
    (hf : foldersOf c.roots = .error u) :
    c.start s = (({ c with servers := c.servers + 1 } : LanguageClient).record c.servers
      [.start c.command c.toolchain.root], .error (.crash (.unencodable u))) := by
  have hroots : foldersOf (({ c with servers := c.servers + 1 } : LanguageClient).record c.servers
      [.start c.command c.toolchain.root]).roots = .error u := hf
  unfold start
  dsimp only
  rw [hroots, h]

/-! ## Many calls -/

/-- What a server was told, by what it does and by whether it is in use. -/
inductive Told (opening : List Event) (s : Script) (inUse : Prop) : List Event → Prop where
  | unspawned (hs : s.startError.isSome) (hu : ¬ inUse) : Told opening s inUse (opening.take 1)
  | refused (hs : s.startError = none) (hr : s.handshake.isReady = false) (hu : ¬ inUse) :
      Told opening s inUse (opening ++ [.stop])
  | served {docs ending : List Event} (hs : s.succeeds) (hd : ∀ e ∈ docs, e.isDocument)
      (he : ending ∈ endings) (hu : inUse → ending = []) :
      Told opening s inUse (opening ++ .greeted :: (docs ++ ending))

namespace Told

variable {opening es : List Event} {s : Script} {inUse inUse' : Prop}

theorem mono (h : Told opening s inUse es) (hu : inUse' → inUse) : Told opening s inUse' es := by
  cases h with
  | unspawned hs hn => exact .unspawned hs (mt hu hn)
  | refused hs hr hn => exact .refused hs hr (mt hu hn)
  | served hs hd he hn => exact .served hs hd he (hn ∘ hu)

theorem document (h : Told opening s inUse es) (hi : inUse) {e : Event} (he : e.isDocument) :
    Told opening s inUse' (es ++ [e]) := by
  cases h with
  | unspawned _ hn | refused _ _ hn => exact absurd hi hn
  | @served docs _ hs hd _ hn =>
    obtain rfl := hn hi
    have hdocs : ∀ e' ∈ docs ++ [e], e'.isDocument := by
      simp only [List.mem_append, List.mem_singleton]
      rintro e' (h | rfl)
      · exact hd e' h
      · exact he
    have h : Told opening s inUse' (opening ++ .greeted :: (docs ++ [e] ++ [])) :=
      .served hs hdocs (by simp [endings]) fun _ => rfl
    simpa using h

theorem stop (h : Told opening s inUse es) (hi : inUse) (hu : ¬ inUse') {ending : List Event}
    (he : ending ∈ endings) : Told opening s inUse' (es ++ ending) := by
  cases h with
  | unspawned _ hn | refused _ _ hn => exact absurd hi hn
  | @served docs _ hs hd _ hn =>
    obtain rfl := hn hi
    have h : Told opening s inUse' (opening ++ .greeted :: (docs ++ ending)) :=
      .served hs hd he fun h => absurd h hu
    simpa using h

end Told

/-- What is known of a client after some calls. -/
structure Tracks (c₀ : LanguageClient) (folders : List Folder) (calls : List Call)
    (c : LanguageClient) : Prop where
  continues : c₀.Continues c
  servers : c.servers = (scripts calls).length
  current : ∀ n, c.current = some n → n < c.servers
  unheard : ∀ n, c.servers ≤ n → c.heard n = []
  told : ∀ n s, (scripts calls)[n]? = some s →
    Told (c₀.opening folders) s (c.current = some n) (c.heard n)

namespace Tracks

theorem roots_eq (h : Tracks c₀ folders calls c) (hf : foldersOf c₀.roots = .ok folders) :
    foldersOf c.roots = .ok folders := by
  rw [h.continues.2.2, hf]

theorem opening_eq (h : Tracks c₀ folders calls c) : c.opening folders = c₀.opening folders := by
  obtain ⟨ht, hs, -⟩ := h.continues
  simp [opening, command, ht, hs]

theorem start (h : Tracks c₀ folders calls c) (hf : foldersOf c₀.roots = .ok folders)
    (s : Script) : Tracks c₀ folders (calls ++ [.start s]) (c.start s).1 := by
  have hstarted := c.started (h.roots_eq hf) s
  generalize c.start s = r at hstarted
  -- What holds of the new server and how the one in use changes is all that the cases differ in.
  have key (c' : LanguageClient) (words : List Event) (hc : c.Continues c')
      (hn : c'.servers = c.servers + 1)
      (hcur : c'.current = c.current ∨ c'.current = some c.servers)
      (hh : ∀ n, c'.heard n = c.heard n ++ if c.servers = n then words else [])
      (ht : Told (c₀.opening folders) s (c'.current = some c.servers) words) :
      Tracks c₀ folders (calls ++ [.start s]) c' := by
    have hscripts : scripts (calls ++ [.start s]) = scripts calls ++ [s] := by
      simp [scripts, Call.script?]
    constructor
    · obtain ⟨h₁, h₂, h₃⟩ := h.continues
      exact ⟨hc.1.trans h₁, hc.2.1.trans h₂, hc.2.2.trans h₃⟩
    · simp [hscripts, hn, h.servers]
    · intro n hm
      rcases hcur with hcur | hcur
      · have := h.current n (hcur ▸ hm)
        omega
      · cases hcur.symm.trans hm
        omega
    · intro n hle
      rw [hh, h.unheard n (by omega), if_neg (by omega)]
      rfl
    · intro n s' hs'
      rw [hscripts] at hs'
      rcases Nat.lt_or_ge n c.servers with hlt | hge
      · rw [List.getElem?_append_left (h.servers ▸ hlt)] at hs'
        rw [hh, if_neg (by omega), List.append_nil]
        refine (h.told n s' hs').mono fun hm => ?_
        rcases hcur with hcur | hcur
        · exact hcur ▸ hm
        · cases hcur.symm.trans hm
          exact absurd hlt (Nat.lt_irrefl _)
      · obtain rfl : n = c.servers := by
          have hlen := (List.getElem?_eq_some_iff.mp hs').1
          rw [List.length_append, List.length_singleton, ← h.servers] at hlen
          omega
        rw [h.servers, List.getElem?_concat_length] at hs'
        obtain rfl := Option.some.inj hs'
        rw [hh, h.unheard _ (Nat.le_refl _), if_pos rfl]
        exact ht
  have hnew : c.current ≠ some c.servers := fun hm => Nat.lt_irrefl _ (h.current _ hm)
  cases hstarted with
  | unspawned hs hkeep hn hc hh =>
    rw [h.opening_eq] at hh
    exact key _ _ hkeep hn (.inl hc) hh (.unspawned (by simp [hs]) (hc ▸ hnew))
  | refused hs hr hkeep hn hc hh =>
    rw [h.opening_eq] at hh
    exact key _ _ hkeep hn (.inl hc) hh (.refused hs hr (hc ▸ hnew))
  | ready hs hkeep hn hc hh =>
    rw [h.opening_eq] at hh
    have hdocs : ∀ e' ∈ ([] : List Event), e'.isDocument := by simp
    exact key _ _ hkeep hn (.inr hc) hh
      (.served hs hdocs (by simp [endings] : [] ∈ endings) fun _ => rfl)

theorem of_told {c' : LanguageClient} (h : Tracks c₀ folders calls c) (hk : k.script? = none)
    (hc : c.Continues c') (hn : c'.servers = c.servers)
    (hcur : ∀ n, c'.current = some n → c.current = some n)
    (hh : ∀ n, c.current ≠ some n → c'.heard n = c.heard n)
    (ht : ∀ n s, c.current = some n → Told (c₀.opening folders) s (c.current = some n) (c.heard n) →
      Told (c₀.opening folders) s (c'.current = some n) (c'.heard n)) :
    Tracks c₀ folders (calls ++ [k]) c' := by
  have hscripts : scripts (calls ++ [k]) = scripts calls := by simp [scripts, hk]
  constructor
  · obtain ⟨h₁, h₂, h₃⟩ := h.continues
    exact ⟨hc.1.trans h₁, hc.2.1.trans h₂, hc.2.2.trans h₃⟩
  · rw [hscripts, hn, h.servers]
  · intro n hm
    rw [hn]
    exact h.current n (hcur n hm)
  · intro n hle
    rw [hn] at hle
    rw [hh n fun hm => absurd (h.current n hm) (Nat.not_lt.mpr hle)]
    exact h.unheard n hle
  · intro n s hs
    rw [hscripts] at hs
    by_cases hm : c.current = some n
    · exact ht n s hm (h.told n s hs)
    · rw [hh n hm]
      exact (h.told n s hs).mono (hcur n)

theorem notify (h : Tracks c₀ folders calls c) (hk : k.script? = none) {e : Event}
    (he : e.isDocument) : Tracks c₀ folders (calls ++ [k]) (c.notify e) := by
  obtain ⟨hc, hn, hcur⟩ := c.notify_keeps e
  refine h.of_told hk hc hn (fun n hm => hcur ▸ hm) (fun n hm => ?_) fun n s hm ht => ?_
  · rw [heard_notify, if_neg hm, List.append_nil]
  · rw [heard_notify, if_pos hm]
    exact ht.document hm he

theorem stop (h : Tracks c₀ folders calls c) (s : Script) :
    Tracks c₀ folders (calls ++ [.stop s]) (c.stop s) := by
  obtain ⟨hc, hn, hcur⟩ := c.stop_keeps s
  have hno (n : Nat) : (c.stop s).current ≠ some n := by simp [hcur]
  refine h.of_told rfl hc hn (fun n hm => absurd hm (hno n)) (fun n hm => ?_) fun n _ hm ht => ?_
  · rw [heard_stop, if_neg hm, List.append_nil]
  · rw [heard_stop, if_pos hm]
    refine ht.stop hm (hno n) ?_
    split_ifs <;> simp [endings]

theorem answer (h : Tracks c₀ folders calls c) (hf : foldersOf c₀.roots = .ok folders)
    (k : Call) : Tracks c₀ folders (calls ++ [k]) (c.answer k) := by
  cases k with
  | start s => exact h.start hf s
  | didOpen | didSave => exact h.notify rfl rfl
  | stop s => exact h.stop s

end Tracks

variable [Path.WorkingDirectory]

theorem tracks_create {t : Toolchain} {s : Settings} {roots : List Text} {e : Editor}
    (hf : foldersOf (roots.map Path.absolute) = .ok folders) (calls : List Call) :
    Tracks (create t s roots e) folders calls ((create t s roots e).answerAll calls) := by
  induction calls using List.reverseRecOn with
  | nil => exact ⟨⟨rfl, rfl, rfl⟩, rfl, nofun, fun _ _ => rfl, nofun⟩
  | append_singleton calls k ih =>
    rw [answerAll_concat]
    exact ih.answer hf k

omit [Path.WorkingDirectory] in
theorem current_answer (hf : foldersOf c.roots = .ok folders) (k : Call) :
    (c.answer k).current =
      if k.turns then k.script?.map fun _ => c.servers else c.current := by
  cases k with
  | start s =>
    have h := c.started hf s
    simp only [answer, Call.turns, Call.script?, Option.map_some]
    generalize c.start s = r at h
    cases h with
    | unspawned hs _ _ hc => simp [Script.succeeds, hs, hc]
    | refused hs hr _ _ hc => simp [Script.succeeds, hs, hr, hc]
    | ready hs _ _ hc => simp [hs, hc]
  | didOpen uri content => exact (c.notify_keeps _).2.2
  | didSave uri => exact (c.notify_keeps _).2.2
  | stop s => exact (c.stop_keeps s).2.2

end LanguageClient

end Workbench
