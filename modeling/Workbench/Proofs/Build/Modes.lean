import Workbench.Proofs.Build.SingleFlight

/-! # The two modes

Single flight matters only where a root is asked for that is being built. Where requests for
a root come one after the other, each when the build before has been taken in, coordinators
of both modes take the same steps, and nothing is kept for later.
-/

namespace Workbench

open Build

namespace Coordinator

variable {c : Coordinator} {e : Event} {events : List Event} {m : Bool}

def inMode (c : Coordinator) (singleFlight : Bool) : Coordinator := { c with singleFlight }

variable [Surroundings]

/-- Each request comes at a time when its root has no task. -/
def Apart (c : Coordinator) : List Event → Prop
  | [] => True
  | e :: es => (∀ key ∈ c.request? e, key ∉ c.tasks.map Task.key) ∧ (c.step e).Apart es

instance decidableApart : (c : Coordinator) → (events : List Event) → Decidable (c.Apart events)
  | _, [] => .isTrue trivial
  | c, e :: es =>
    have := decidableApart (c.step e) es
    inferInstanceAs (Decidable (_ ∧ _))

theorem Apart.of_prefix {before : List Event} (h : c.Apart events) (hp : before <+: events) :
    c.Apart before := by
  induction before generalizing c events with
  | nil => trivial
  | cons e before ih =>
    obtain ⟨after, rfl⟩ := hp
    exact ⟨h.1, ih h.2 (List.prefix_append _ _)⟩

/-! ## One step -/

theorem trigger_of_free {root : Text} {b : Bool}
    (hi : b = true → c.inflight.get? (Path.rootKey root) = none) :
    (c.trigger root b).1 = if b then c.start (Path.rootKey root) else c := by
  cases b with
  | false => rfl
  | true =>
    rw [trigger_true, hi rfl]
    simp

theorem trigger_inMode {root : Text} {b : Bool}
    (hi : b = true → c.inflight.get? (Path.rootKey root) = none) (m : Bool) :
    ((c.inMode m).trigger root b).1 = (c.trigger root b).1.inMode m := by
  rw [trigger_of_free (c := c.inMode m) hi, trigger_of_free hi]
  split_ifs <;> rfl

theorem settle_inMode (hp : c.pending = []) (id : Nat) (b m : Bool) :
    ((c.inMode m).settle id b).1 = (c.settle id b).1.inMode m := by
  have ht : (c.inMode m).task? id = c.task? id := rfl
  have hk (key : Text) (k : Task) : key ∉ (c.discard k).pending := by simp [discard, hp]
  have hk' (key : Text) (k : Task) : key ∉ ((c.inMode m).discard k).pending := hk key k
  unfold settle
  rw [ht]
  rcases c.task? id with _ | ⟨_, root, _ | _ | _ | _⟩
  all_goals simp only [hk, hk', if_false]
  all_goals rfl

/-- Where no request meets a task of its root and none is kept, a step is the same in both modes. -/
theorem step_inMode (hp : c.pending = []) (hr : ∀ key ∈ c.request? e, c.inflight.get? key = none)
    (m : Bool) : (c.inMode m).step e = (c.step e).inMode m := by
  cases e with
  | trigger root b =>
    refine trigger_inMode (fun hb => ?_) m
    subst hb
    exact hr _ rfl
  | touch uri b =>
    have ho : (c.inMode m).rootOf uri = c.rootOf uri := rfl
    change ((c.inMode m).touch uri b).1 = (c.touch uri b).1.inMode m
    unfold touch
    rw [ho]
    rcases hu : c.rootOf uri with _ | _ | root
    · rfl
    · rfl
    · refine trigger_inMode (fun hb => ?_) m
      subst hb
      exact hr _ (by simp [request?, hu])
  | settle id b => exact settle_inMode hp id b m
  | begin id | output id n | drain id n =>
    have ht : (c.inMode m).task? id = c.task? id := rfl
    simp only [step, begin, readOutput, drain]
    rw [ht]
    rcases c.task? id with _ | ⟨_, root, _ | _ | _ | _⟩ <;> rfl
  | launch id start =>
    have ht : (c.inMode m).task? id = c.task? id := rfl
    simp only [step, launch]
    rw [ht]
    rcases c.task? id with _ | ⟨_, root, _ | _ | _ | _⟩
    all_goals cases start <;> rfl
  | exit id =>
    have ht : (c.inMode m).task? id = c.task? id := rfl
    simp only [step, exit]
    rw [ht]
    rcases c.task? id with _ | ⟨_, root, _ | _ | r | _⟩
    · rfl
    · rfl
    · rfl
    · have hl : r.leave (c.inMode m).indices (c.inMode m).editor = r.leave c.indices c.editor := rfl
      dsimp only
      rw [hl]
      split_ifs
      · cases (r.leave c.indices c.editor).result <;> rfl
      · rfl
    · rfl

theorem Move.nothing_kept {c' : Coordinator} (hm : Move c e c') (hp : c.pending = [])
    (hr : ∀ key ∈ c.request? e, c.inflight.get? key = none) : c'.pending = [] := by
  cases hm with
  | coalesce hq _ hi => cases (hr _ hq).symm.trans hi
  | drop _ _ hk | follow _ _ hk => simp [hp] at hk
  | _ => exact hp

/-! ## Runs -/

/-- The run in some mode being free of overlaps, the run in any mode is that of single flight,
and nothing is kept on the way. -/
theorem run_inMode (hx : c.books.Exclusive) (hs : c.singleFlight = true) (hp : c.pending = [])
    (h : (c.inMode m).Apart events) (m' : Bool) :
    (c.inMode m').attempts events = c.attempts events ∧
      (c.inMode m').run events = (c.run events).inMode m' ∧ (c.run events).pending = [] := by
  induction events generalizing c with
  | nil => exact ⟨rfl, rfl, hp⟩
  | cons e es ih =>
    obtain ⟨hkeys, hrest⟩ := h
    have hreq : (c.inMode m).request? e = c.request? e := request?_congr rfl e
    -- The books of single flight lead to a task of the key, which there is not.
    have hr : ∀ key ∈ c.request? e, c.inflight.get? key = none := by
      intro key hkey
      rw [hx.inflight_eq, List.find?_eq_none.mpr, Option.map_none]
      intro k hk hkk
      refine hkeys key (hreq.symm ▸ hkey) (List.mem_map.mpr ⟨k, hk, ?_⟩)
      simpa using hkk
    have hm := step_move c e
    rw [step_inMode hp hr] at hrest
    obtain ⟨hatt, hrun, hpend⟩ := ih (hx.step hs hm) (hm.settings.2.2.trans hs)
      (hm.nothing_kept hp hr) hrest
    have hfirst : (c.inMode m').attempt? e = c.attempt? e := by cases e <;> rfl
    refine ⟨?_, ?_, hpend⟩
    · rw [attempts, attempts, hfirst, step_inMode hp hr, hatt]
    · change ((c.inMode m').step e).run es = _
      rw [step_inMode hp hr]
      exact hrun

/-- Where each request comes when its root has no task, in either mode, a coordinator with
single flight and one without it try to start the same processes in the same directories in
the same order. After each step they are the same but for the mode, and nothing is kept. -/
theorem run_modes_agree {t : Toolchain} {roots : List Text} {ed : Editor} {x : Indices}
    {before : List Event} {a b : Coordinator} (h : (fresh t roots m ed x).Apart events)
    (hb : before <+: events) (ha : (fresh t roots true ed x).run before = a)
    (hb' : (fresh t roots false ed x).run before = b) :
    (fresh t roots true ed x).attempts before = (fresh t roots false ed x).attempts before ∧
      a = b.inMode true ∧ a.pending = [] ∧ a.tasks = b.tasks ∧ a.active = b.active ∧
      a.indices = b.indices ∧ a.editor = b.editor := by
  obtain ⟨hatt, hrun, hpend⟩ := run_inMode (c := fresh t roots true ed x) (m := m)
    (exclusive_fresh t roots true ed x) rfl rfl (h.of_prefix hb) false
  have hoff : b = a.inMode false := by
    rw [← hb', ← ha]
    exact hrun
  have hs : a.singleFlight = true := by
    rw [← ha]
    exact (settings_run _ _).2.2
  subst hoff
  refine ⟨hatt.symm, ?_, by rw [← ha]; exact hpend, rfl, rfl, rfl, rfl⟩
  rw [inMode, inMode, ← hs]

end Coordinator

open Surroundings in
/-- One root is built while another is, and once more under another spelling when the process
of its first session could not be started. -/
theorem Coordinator.run_modes_agree_of_respelled :
    ∃ events : List Event, (fresh default [] false {} {}).Apart events ∧
      ((fresh default [] true {} {}).attempts events).map Spawn.directory =
        ["/a", "/b", "/a"].map (some ∘ Text.ofString) ∧
      ((fresh default [] false {} {}).attempts events).map Spawn.directory =
        ["/a", "/b", "/a"].map (some ∘ Text.ofString) ∧
      ((fresh default [] true {} {}).run events).active = 1 ∧
      ((fresh default [] true {} {}).run events).indices =
        ((fresh default [] false {} {}).run events).indices := by
  obtain ⟨events, h, hd, hact⟩ : ∃ events, (fresh default [] false {} {}).Apart events ∧
      ((fresh default [] true {} {}).attempts events).map Spawn.directory =
        ["/a", "/b", "/a"].map (some ∘ Text.ofString) ∧
      ((fresh default [] true {} {}).run events).active = 1 := by
    refine ⟨[.trigger "/a" true, .begin 0, .trigger "/b" true,
      .launch 0 (.error (.refused "gone")), .begin 1, .settle 0 true,
      .trigger "/b/../a/." true, .begin 2, .launch 2 (.ok {}), .output 2 0, .drain 2 0, .exit 2,
      .settle 2 true], ?_, ?_, ?_⟩
    · decide +kernel
    · decide +kernel
    · decide +kernel
  obtain ⟨hatt, -, -, -, -, hx, -⟩ := run_modes_agree h (List.prefix_refl events) rfl rfl
  exact ⟨events, h, hd, hatt ▸ hd, hact, hx⟩

end Workbench
