import Workbench.Build.Schedule
import Workbench.Proofs.Build.Delivery

/-! # Plain processes leave what can be reported

Of plain processes, started for roots without lone surrogates, a coordinator keeps diagnostics,
symbols and results that can be reported. Each step keeps it so, whatever comes, and so does a
scheduler, whose processes come out of its world.
-/

namespace Workbench

open Build

open Json (integerLimit)

variable [Surroundings]

namespace Build

def Event.Plain : Event → Prop
  | .trigger root _ => root.Scalar
  | .launch _ start => start.Plain
  | _ => True

end Build

namespace Coordinator

variable {c c' : Coordinator} {e : Event} {key : Text}

/-- All that the coordinator keeps can be reported. -/
structure Plain (c : Coordinator) : Prop extends c.Ledger {} (fun _ => Start.Plain) where
  roots : ∀ root ∈ c.roots, root.Scalar
  heads : ∀ p ∈ c.books.heads, p.2.Scalar
  published : c.indices.Plain
  results : ∀ f ∈ c.finished, ∀ o, f.outcome = some o → o.1.Plain

theorem scalar_rootKey (hs : Surroundings.Plain) {root : Text} (h : root.Scalar) :
    (Path.rootKey root).Scalar := by
  rw [Path.rootKey_eq_absolute]
  exact Path.scalar_absolute hs.directory h

theorem scalar_of_request? (hs : Surroundings.Plain) (hr : ∀ root ∈ c.roots, root.Scalar)
    (he : e.Plain) (h : c.request? e = some key) : key.Scalar := by
  unfold request? at h
  split at h
  · cases h
    exact scalar_rootKey hs he
  · next uri =>
    split at h
    · next root hu =>
      obtain ⟨root, rfl, rfl⟩ := Option.map_eq_some_iff.mp h
      unfold rootOf at hu
      split at hu
      · cases hu
      · next path _ =>
        injection hu with hu
        split_ifs at hu
        exact scalar_rootKey hs (hr root (List.mem_of_find?_eq_some hu))
    · cases h
  · cases h

theorem Move.roots (hm : Move c e c') : c'.roots = c.roots := by
  cases hm with
  | follow =>
    rw [trigger_true]
    split_ifs <;> rfl
  | _ => rfl

namespace Plain

theorem heads_start (h : ∀ p ∈ c.books.heads, p.2.Scalar) (hk : key.Scalar) :
    ∀ p ∈ (c.start key).books.heads, p.2.Scalar := by
  rw [books_start]
  intro p hp
  rcases List.mem_append.mp hp with hp | hp
  · exact h p hp
  · rw [List.mem_singleton.mp hp]
    exact hk

theorem heads_step (hs : Surroundings.Plain) (h : c.Plain) (he : e.Plain) (hm : Move c e c') :
    ∀ p ∈ c'.books.heads, p.2.Scalar := by
  have hdiscard (k : Task) : ∀ p ∈ (c.discard k).books.heads, p.2.Scalar := by
    rw [books_discard]
    exact fun p hp => h.heads p (List.mem_of_mem_filter hp)
  cases hm with
  | idle | coalesce => exact h.heads
  | start hr => exact heads_start h.heads (scalar_of_request? hs h.roots he hr)
  | begin | launch | output | drain => exact (books_setPhase _ _ _).symm ▸ h.heads
  | refuse | crash | commit => exact (books_finish _ _ _).symm ▸ h.heads
  | settle | drop => exact hdiscard _
  | @follow k hk =>
    rw [trigger_true]
    split_ifs
    · exact hdiscard k
    -- The task that follows is for the key of the one that has ended.
    · exact heads_start (hdiscard k)
        (scalar_rootKey hs (h.heads (k.id, k.root) (head_mem (mem_of_task? hk))))

theorem result_of_reading (hs : Surroundings.Plain) (h : c.Plain) {k : Task} {r : Reading}
    (hk : c.task? k.id = some k) (hp : k.phase = .reading r) (hc : r.ended = none)
    (ho : r.output = none) :
    r.session.findings.Plain ∧ (r.session.result r.script.exit.code).Plain := by
  obtain ⟨p, hplain, hr⟩ := (h.traced k (mem_of_task? hk)).of_reading hp
  have hp := hplain p rfl
  obtain ⟨-, he, ds, ss, hg, hf⟩ := hr.gathered_all (Reading.ended_eq_none_iff.mp hc).2 ho
  obtain ⟨hplain, hds, hss⟩ := hp.findings hs hg
  have hroot : r.session.root.Scalar := by
    rw [hr.root_eq]
    exact Path.scalar_absolute hs.directory (h.heads (k.id, k.root) (head_mem (mem_of_task? hk)))
  have herrors : r.session.decoder.errors ≤ p.out.length := by
    rw [he]
    exact List.countP_le_length.trans (Stream.length_items_le p.out)
  refine ⟨hf ▸ hplain, hroot, fun n hn => ?_, ?_, ?_, ?_, ?_⟩
  · rw [Session.result, hr.script_eq] at hn
    exact hp.status n hn
  · rw [Session.result, hf]
    dsimp only
    rw [Findings.diagnosticCount_add]
    exact hds.trans_lt hp.size
  · rw [Session.result, hf]
    exact hss.trans_lt hp.size
  · exact herrors.trans_lt hp.size
  · exact Nat.pow_pos (by decide)

theorem step (hs : Surroundings.Plain) (h : c.Plain) (he : e.Plain) : (c.step e).Plain := by
  have hm := step_move c e
  generalize c.step e = c' at hm
  have hledger : c'.Ledger {} (fun _ => Start.Plain) := by
    refine h.toLedger.step (fun _ _ => id) ?_ hm
    rintro k s start - - rfl
    exact he
  refine { hledger with
    roots := hm.roots ▸ h.roots, heads := h.heads_step hs he hm, published := ?_, results := ?_ }
  · cases hm with
    | commit hk hp hc ho => exact h.published.commit (h.result_of_reading hs hk hp hc ho).1 _ _
    | follow =>
      rw [(trigger_ends _ _).1]
      exact h.published
    | _ => exact h.published
  · cases hm with
    | commit hk hp hc ho =>
      intro f hf o hout
      rcases List.mem_append.mp hf with hf | hf
      · exact h.results f hf o hout
      · cases List.mem_singleton.mp hf
        cases hout
        exact (h.result_of_reading hs hk hp hc ho).2
    | refuse | crash =>
      intro f hf o hout
      rcases List.mem_append.mp hf with hf | hf
      · exact h.results f hf o hout
      · cases List.mem_singleton.mp hf
        cases hout
    | follow =>
      rw [(trigger_ends _ _).2]
      exact h.results
    | _ => exact h.results

end Plain

end Coordinator

namespace Scheduler

variable {s : Scheduler} {e : Event}

/-- What the coordinator keeps can be reported, and the processes to come are plain. -/
structure Plain (s : Scheduler) : Prop where
  coordinator : s.coordinator.Plain
  starts : ∀ start ∈ s.world.starts, Start.Plain start

namespace Plain

theorem apply (hs : Surroundings.Plain) (h : s.Plain) (he : e.Plain) : (s.apply e).Plain :=
  ⟨h.coordinator.step hs he, h.starts⟩

theorem applyTimes (hs : Surroundings.Plain) (h : s.Plain) (he : e.Plain) (n : ℕ) :
    (s.applyTimes e n).Plain := by
  induction n generalizing s with
  | zero => exact h
  | succ n ih => exact ih (h.apply hs he)

theorem spawn {w : World} (h : ∀ start ∈ w.starts, Start.Plain start) (command : List Text)
    (directory : Option Text) : Start.Plain (w.spawn command directory).1 ∧
      ∀ start ∈ (w.spawn command directory).2.starts, Start.Plain start := by
  unfold World.spawn
  dsimp only
  split
  · exact ⟨nofun, h⟩
  · next start rest hs =>
    rw [hs, List.forall_mem_cons] at h
    exact h

theorem begin (hs : Surroundings.Plain) (h : s.Plain) (id : ℕ) : (s.begin id).Plain := by
  unfold Scheduler.begin
  split
  · exact h
  · next k _ =>
    obtain ⟨hstart, hrest⟩ := spawn h.starts
      (Session.create k.root s.coordinator.toolchain).command
      (some (Session.create k.root s.coordinator.toolchain).root)
    have hw : Scheduler.Plain { s with world :=
      ((Session.create k.root s.coordinator.toolchain).spawn s.world).2 } := ⟨h.coordinator, hrest⟩
    obtain ⟨hc, hs⟩ := (hw.apply hs (e := .begin id) trivial).apply hs (e := .launch id _) hstart
    exact ⟨hc, hs⟩

theorem perform (hs : Surroundings.Plain) (h : s.Plain) (job : Job) : (s.perform job).Plain := by
  cases job with
  | begin id => exact h.begin hs id
  | output id =>
    obtain ⟨hc, hs⟩ := h.applyTimes hs (e := .output id readSize) trivial _
    exact ⟨hc, hs⟩
  | drain id =>
    obtain ⟨hc, hs⟩ := h.applyTimes hs (e := .drain id readSize) trivial _
    exact ⟨hc, hs⟩
  | exit id =>
    change (s.exit id).Plain
    unfold Scheduler.exit
    split
    · exact ⟨h.coordinator, h.starts⟩
    · obtain ⟨hc, hs⟩ := h.apply hs (e := .exit id) trivial
      exact ⟨hc, hs⟩
  | settle id =>
    change (s.settle id).Plain
    unfold Scheduler.settle
    split
    · exact h
    · exact h.apply hs trivial

theorem drive (hs : Surroundings.Plain) (h : s.Plain) (n : ℕ) : (Scheduler.drive n s).Plain := by
  induction n generalizing s with
  | zero => exact h
  | succ n ih =>
    unfold Scheduler.drive
    split
    · exact h
    · next job rest _ =>
      have hrest : Scheduler.Plain { s with ready := rest } := ⟨h.coordinator, h.starts⟩
      exact ih (hrest.perform hs job)

theorem finish (hs : Surroundings.Plain) (h : s.Plain) : s.finish.Plain := by
  have ho : s.openAll.Plain := ⟨h.coordinator, h.starts⟩
  exact ho.drive hs _

theorem build (hs : Surroundings.Plain) (h : s.Plain) {root : Text} (hr : root.Scalar) :
    (s.build root).1.Plain :=
  h.apply hs hr

end Plain

end Scheduler

end Workbench
