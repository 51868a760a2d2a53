import Workbench.Proofs.Build.Snapshots
import Workbench.Proofs.Command.Builds

/-! # The report of a build command

The diagnostics of a report have one entry for each root, whatever it is called and however
often. The symbols are listed root by root as the roots were given, so those of a root that was
given twice are listed twice. So it is in any order in which the sessions take their steps.
-/

namespace Workbench

/-! ## Repetitions -/

section

variable {α β : Type} [BEq α] [LawfulBEq α] {l l' : List α}

/-- What is left out does not matter just if all of it gives nothing. -/
theorem flatMap_eq_iff_of_sublist {f : α → List β} (h : l.Sublist l') :
    l.flatMap f = l'.flatMap f ↔ ∀ k, f k ≠ [] → l.count k = l'.count k := by
  induction h with
  | slnil => simp
  | @cons l l' a h ih =>
    rw [List.flatMap_cons]
    by_cases ha : f a = []
    · rw [ha, List.nil_append, ih]
      refine forall₂_congr fun k hk => ?_
      rw [List.count_cons_of_ne]
      rintro rfl
      exact hk ha
    · have hl := (h.flatMap f).length_le
      have hpos := List.length_pos_iff.mpr ha
      refine iff_of_false (fun he => ?_) fun hc => ?_
      · have := congrArg List.length he
        rw [List.length_append] at this
        omega
      · have hle := h.count_le a
        have heq := hc a ha
        rw [List.count_cons_self] at heq
        omega
  | cons_cons a h ih =>
    rw [List.flatMap_cons, List.flatMap_cons, List.append_cancel_left_eq, ih]
    simp only [List.count_cons, Nat.add_right_cancel_iff]

theorem flatMap_eraseDups_eq_iff {f : α → List β} (l : List α) :
    l.eraseDups.flatMap f = l.flatMap f ↔ ∀ k, f k ≠ [] → l.count k ≤ 1 := by
  rw [flatMap_eq_iff_of_sublist (eraseDups_sublist l)]
  refine forall₂_congr fun k _ => ?_
  have hle := List.nodup_iff_count_le_one.mp (nodup_eraseDups l) k
  by_cases hk : k ∈ l
  · have h₁ := List.count_pos_iff.mpr (List.mem_eraseDups.mpr hk)
    have h₂ := List.count_pos_iff.mpr hk
    omega
  · rw [List.count_eq_zero_of_not_mem hk,
      List.count_eq_zero_of_not_mem (mt List.mem_eraseDups.mp hk)]
    simp

end

namespace Command

open Build Json

variable {t : Toolchain} {roots : List Text} {e : Editor} {w : World}

/-! ## What a report holds -/

theorem object_eq (roots : List Text) (g : Text → Value) :
    Value.object (roots.map fun root => (root, g root)) =
      .obj (roots.eraseDups.map fun root => (root, g root)) := by
  rw [Value.object, OrderedMap.entries_ofList_map,
    lawful_beq_subsingleton instBEqOfDecidableEq List.instBEq]

variable [Surroundings]

def Built.symbolsOf (b : Built) (key : Text) : List Value :=
  (b.coordinator.indices.symbols.forRoot key).map Report.symbol

def Built.diagnosticsOf (b : Built) (key : Text) : Value :=
  Report.diagnostics (b.coordinator.indices.diagnostics.get key)

namespace Built.Follows

variable {b : Built}

theorem roots_eq (h : b.Follows t roots e w) : b.coordinator.roots = roots.map Path.rootKey := by
  obtain ⟨events, hc, -⟩ := h.steps
  rw [hc, (Coordinator.settings_run _ _).2.1]
  exact List.map_congr_left fun root _ => (Path.rootKey_eq_absolute root).symm

/-- What the indices show is what the ends of the sessions make of empty indices, and each end is
told by the process that the world has for the task. -/
theorem indices (h : b.Follows t roots e w) :
    b.coordinator.indices = b.coordinator.finished.foldl Finish.publish {} ∧
      ∀ f ∈ b.coordinator.finished, f.Tells (w.startAt f.task) := by
  obtain ⟨events, hc, hstarts⟩ := h.steps
  have hledger := Coordinator.ledger_run t roots false e {}
    (w.requests (roots.map Path.absolute) ++ events)
  rw [← hc] at hledger
  refine ⟨hledger.indices, fun f hf => ?_⟩
  obtain ⟨start, hl, ht⟩ := hledger.tells f hf
  exact hstarts _ _ hl ▸ ht

theorem report (h : b.Follows t roots e w) :
    b.report.get? "diagnostics" = some (.obj ((roots.map Path.rootKey).eraseDups.map fun key =>
      (key, b.diagnosticsOf key))) ∧
    b.report.get? "symbols" = some (.arr ((roots.map Path.rootKey).flatMap b.symbolsOf)) := by
  rw [← h.roots_eq, ← object_eq]
  exact ⟨rfl, rfl⟩

end Built.Follows

/-- Where a toolchain is found, a build command reports for each root once the diagnostics that
it shows, and for each time that it is given the symbols. These are listed once for each root just
if no root that has symbols is given twice. So it is in any order of the steps that its sessions
take. -/
theorem run_build_report {argv : List Text} {installer : Option Installer} {i : Invocation}
    {s : Settings} {w' : World} (hp : parse argv = .ok i) (ht : i.task = .build roots)
    (hs : Settings.read [] w.env = .ok s)
    (hl : Context.locate ⟨i.over s, installer⟩ roots { confirms := i.install } w =
      (.ok (some t), e, w')) :
    ∃ (out : Outcome) (made : Built) (keys : List Text), run argv installer w = .ok out ∧
      made = buildWith t (roots.map Path.absolute) e w' ∧ keys = roots.map Path.rootKey ∧
      out.output = made.report.indented ++ "\n" ∧
      made.Follows t (roots.map Path.absolute) e w' ∧
      ∀ b : Built, b.Follows t (roots.map Path.absolute) e w' →
        b.report.get? "diagnostics" =
          some (.obj (keys.eraseDups.map fun key => (key, b.diagnosticsOf key))) ∧
        b.report.get? "symbols" = some (.arr (keys.flatMap b.symbolsOf)) ∧
        (b.report.get? "symbols" = some (.arr (keys.eraseDups.flatMap b.symbolsOf)) ↔
          ∀ key, b.coordinator.indices.symbols.forRoot key ≠ [] → keys.count key ≤ 1) ∧
        b.coordinator.indices = b.coordinator.finished.foldl Finish.publish {} ∧
        ∀ f ∈ b.coordinator.finished, f.Tells (w'.startAt f.task) := by
  obtain ⟨w'', hrun⟩ := run_of_locate hp ht hs hl
  have hkeys : (roots.map Path.absolute).map Path.rootKey = roots.map Path.rootKey := by
    simp only [List.map_map, Function.comp_def, Path.rootKey_absolute]
  refine ⟨_, _, _, hrun, rfl, rfl, rfl, follows_buildWith _ _ _ _, fun b hb => ?_⟩
  obtain ⟨hd, hsym⟩ := hb.report
  obtain ⟨hindices, htells⟩ := hb.indices
  rw [hkeys] at hd hsym
  refine ⟨hd, hsym, ?_, hindices, htells⟩
  rw [hsym, Option.some.injEq, Value.arr.injEq, eq_comm, flatMap_eraseDups_eq_iff]
  simp only [Built.symbolsOf, Ne, List.map_eq_nil_iff]

def oneSymbol : List UInt8 := SymbolRecord.printed ⟨some .type, "A", "p", "a", default⟩

end Command

open Surroundings in
/-- A root without symbols may be given twice, in two spellings. -/
theorem Command.run_build_report_of_respelled :
    ∃ (w : World) (out : Outcome) (b : Built),
      run ["build", "/b", "/a", "/b/../b"] none w = .ok out ∧
      out.output = b.report.indented ++ "\n" ∧
      (b.coordinator.indices.symbols.forRoot "/a").length = 1 ∧
      b.report.get? "symbols" = some (.arr (b.symbolsOf "/b" ++ b.symbolsOf "/a")) := by
  obtain ⟨w, s, hs, hl, ha, hb⟩ : ∃ (w : World) (s : Settings),
      Settings.read [] w.env = .ok s ∧
      Context.locate ⟨Invocation.over ⟨none, none, false, .build ["/b", "/a", "/b/../b"]⟩ s, none⟩
        ["/b", "/a", "/b/../b"] {} w = (.ok (some ⟨"/opt/reproto", some "/b"⟩), {}, w) ∧
      ((buildWith ⟨"/opt/reproto", some "/b"⟩ (List.map Path.absolute ["/b", "/a", "/b/../b"]) {}
        w).coordinator.indices.symbols.forRoot "/a").length = 1 ∧
      ((buildWith ⟨"/opt/reproto", some "/b"⟩ (List.map Path.absolute ["/b", "/a", "/b/../b"]) {}
        w).coordinator.indices.symbols.forRoot "/b").length = 0 := by
    refine ⟨{ files := .ofList [("/a/reproto.toml", []), ("/b/reproto.toml", [])]
              env := [("REPROTO_EXECUTABLE", "/opt/reproto")]
              starts := [.ok {}, .ok { out := oneSymbol }, .ok {}] }, _, rfl, rfl, ?_⟩
    decide +kernel
  have hp : parse ["build", "/b", "/a", "/b/../b"] =
      .ok ⟨none, none, false, .build ["/b", "/a", "/b/../b"]⟩ := by decide +kernel
  have hk : List.map Path.rootKey ["/b", "/a", "/b/../b"] = (["/b", "/a", "/b"] : List Text) := by
    decide +kernel
  have hd : List.eraseDups (["/b", "/a", "/b"] : List Text) = (["/b", "/a"] : List Text) := by
    decide +kernel
  obtain ⟨out, b, keys, ho, rfl, rfl, hout, hmade, hany⟩ := run_build_report hp rfl hs hl
  obtain ⟨-, -, hsym, -⟩ := hany _ hmade
  have honce := hsym.mpr fun key hne => by
    have hkey : key ≠ "/b" := by
      rintro rfl
      exact hne (List.eq_nil_of_length_eq_zero hb)
    rw [hk, List.count_cons_of_ne hkey.symm]
    exact List.nodup_iff_count_le_one.mp (by decide) key
  rw [hk, hd, List.flatMap_cons, List.flatMap_singleton] at honce
  exact ⟨w, out, _, ho, hout, ha, honce⟩

open Surroundings in
/-- The symbols of a root that is given twice are listed twice. -/
theorem Command.build_lists_symbols_twice :
    ∃ (w : World) (out : Outcome) (b : Built) (symbol : Json.Value),
      run ["build", "/a", "/a"] none w = .ok out ∧ out.output = b.report.indented ++ "\n" ∧
      b.symbolsOf "/a" = [symbol] ∧ b.report.get? "symbols" = some (.arr [symbol, symbol]) := by
  obtain ⟨w, s, hs, hl, ha⟩ : ∃ (w : World) (s : Settings), Settings.read [] w.env = .ok s ∧
      Context.locate ⟨Invocation.over ⟨none, none, false, .build ["/a", "/a"]⟩ s, none⟩
        ["/a", "/a"] {} w = (.ok (some ⟨"/opt/reproto", some "/a"⟩), {}, w) ∧
      ((buildWith ⟨"/opt/reproto", some "/a"⟩ (List.map Path.absolute ["/a", "/a"]) {}
        w).coordinator.indices.symbols.forRoot "/a").length = 1 := by
    refine ⟨{ files := .ofList [("/a/reproto.toml", [])]
              env := [("REPROTO_EXECUTABLE", "/opt/reproto")]
              starts := [.ok { out := oneSymbol }, .ok { out := oneSymbol }] }, _, rfl, rfl, ?_⟩
    decide +kernel
  have hp : parse ["build", "/a", "/a"] = .ok ⟨none, none, false, .build ["/a", "/a"]⟩ := by
    decide +kernel
  have hk : (List.map Path.absolute ["/a", "/a"]).map Path.rootKey =
      (["/a", "/a"] : List Text) := by decide +kernel
  obtain ⟨w', ho⟩ := run_of_locate hp rfl hs hl
  obtain ⟨symbol, hone⟩ := List.length_eq_one_iff.mp ha
  have hof : (buildWith ⟨"/opt/reproto", some "/a"⟩ (List.map Path.absolute ["/a", "/a"]) {}
      w).symbolsOf "/a" = [Report.symbol symbol] := by
    rw [Built.symbolsOf, hone, List.map_singleton]
  have hsym := (follows_buildWith ⟨"/opt/reproto", some "/a"⟩
    (List.map Path.absolute ["/a", "/a"]) {} w).report.2
  rw [hk, List.flatMap_cons, List.flatMap_singleton, hof] at hsym
  exact ⟨w, _, _, _, ho, rfl, hof, hsym⟩

end Workbench
