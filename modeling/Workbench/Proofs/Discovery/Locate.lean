import Workbench.Discovery.Locate

/-! # How a search goes

A search comes to an end with its first attempt, with the question whether to install, with an
installation, or with an attempt behind it. No attempt changes the world, and a toolchain that
is taken is to run in the root of the search.
-/

namespace Workbench.Search

variable {s : Search} {e : Editor} {w : World} {installer : Option Installer} {t : Toolchain}

/-! ## Attempts -/

variable [Surroundings]

theorem world_attempt (s : Search) (e : Editor) (w : World) : (s.attempt e w).2.2 = w := by
  unfold attempt
  split
  · rfl
  · split <;> rfl

theorem world_again (s : Search) (e : Editor) (w : World) : (s.again e w).2.2 = w := by
  unfold again
  split
  · rfl
  · exact s.world_attempt _ _

theorem root_of_find (h : s.find? w = some t) : t.root = s.root := by
  rw [find?, Candidates.select] at h
  split at h
  · cases h
    rfl
  · obtain ⟨path, -, rfl⟩ := Option.map_eq_some_iff.mp h
    rfl

theorem root_of_attempt (h : (s.attempt e w).1 = .ok (some t)) : t.root = s.root := by
  unfold attempt at h
  split at h
  · next hf =>
    cases h
    exact root_of_find hf
  · split at h <;> cases h

theorem root_of_again (h : (s.again e w).1 = .ok (some t)) : t.root = s.root := by
  unfold again at h
  split at h
  · cases h
  · exact root_of_attempt h

/-! ## Whole searches -/

theorem locate_none (s : Search) (e : Editor) (w : World) : s.locate none e w = s.attempt e w := by
  unfold locate
  split
  · next h => cases h
  · rfl

/-- What a search comes to. -/
inductive Ending (s : Search) (installer : Option Installer) (e : Editor) (w : World) :
    Told (Option Toolchain) → Prop where
  /-- The first attempt is the last. -/
  | attempted : Ending s installer e w (s.attempt e w)
  /-- The user does not want to install. -/
  | declined {e' : Editor} {w' : World} (ha : s.attempt e w = (.ok none, e', w')) :
      Ending s installer e w (.ok none, e'.confirmInstall, w')
  /-- Nothing was installed. -/
  | failed {install : Installer} {e' e'' : Editor} {w' w'' : World}
      {r : Except Crash (Option Toolchain)} (ha : s.attempt e w = (.ok none, e', w'))
      (hi : install ∈ installer) (hs : (install e'.confirmInstall w').2 = (e'', w''))
      (hr : ∀ t, r ≠ .ok (some t)) : Ending s installer e w (r, e'', w'')
  /-- There is another attempt behind the installation. -/
  | repeated {install : Installer} {e' e'' : Editor} {w' w'' : World}
      (ha : s.attempt e w = (.ok none, e', w')) (hi : install ∈ installer)
      (hs : (install e'.confirmInstall w').2 = (e'', w'')) :
        Ending s installer e w (s.again e'' w'')

theorem ending_locate (s : Search) (installer : Option Installer) (e : Editor) (w : World) :
    s.Ending installer e w (s.locate installer e w) := by
  unfold locate
  split
  · next e' w' install ha =>
    unfold offer
    dsimp only
    split
    · exact .declined ha
    · split
      · next hs => exact .failed ha rfl (congrArg Prod.snd hs) (by simp)
      · next hs => exact .failed ha rfl (congrArg Prod.snd hs) (by simp)
      · next hs => exact .repeated ha rfl (congrArg Prod.snd hs)
  · exact .attempted

theorem spawned_locate
    (hi : ∀ install ∈ installer, ∀ e w, (install e w).2.2.spawned = w.spawned) (e : Editor)
    (w : World) : (s.locate installer e w).2.2.spawned = w.spawned := by
  have hinstall {install : Installer} {e' e'' : Editor} {w' w'' : World} (h : install ∈ installer)
      (ha : s.attempt e w = (.ok none, e', w'))
      (hs : (install e'.confirmInstall w').2 = (e'', w'')) : w''.spawned = w.spawned := by
    have hw := s.world_attempt e w
    have hi := hi install h e'.confirmInstall w'
    rw [ha] at hw
    rw [hs] at hi
    obtain rfl : w' = w := hw
    exact hi
  have hending := s.ending_locate installer e w
  generalize s.locate installer e w = r at hending
  cases hending with
  | attempted => rw [world_attempt]
  | declined ha => rw [← s.world_attempt e w, ha]
  | failed ha hi hs => exact hinstall hi ha hs
  | repeated ha hi hs =>
    exact (congrArg World.spawned (world_again _ _ _)).trans (hinstall hi ha hs)

/-- A toolchain that is located is to run in the root of the search. -/
theorem root_of_locate (h : (s.locate installer e w).1 = .ok (some t)) : t.root = s.root := by
  have hending := s.ending_locate installer e w
  generalize s.locate installer e w = r at hending h
  cases hending with
  | attempted => exact root_of_attempt h
  | declined => cases h
  | failed _ _ _ hr => exact absurd h (hr t)
  | repeated => exact root_of_again h

end Workbench.Search
