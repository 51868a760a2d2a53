import Workbench.Proofs.Build.Snapshots
import Workbench.Proofs.Report
import Workbench.Proofs.Uri.Files

/-! # What builds deliver

A process that prints texts without lone surrogates, and no more than can be counted, leaves
diagnostics, symbols and a result that can be reported. So whatever events come in whatever
order, all that a coordinator keeps of such processes can be.
-/

namespace Workbench

open Json (integerLimit)

/-! ## Findings and indices -/

theorem forall_mem_of_forall₂ {α β : Type} {R : α → β → Prop} {P : β → Prop} {as : List α}
    {bs : List β} (h : List.Forall₂ R as bs) (hp : ∀ a ∈ as, ∀ b, R a b → P b) :
    ∀ b ∈ bs, P b := by
  induction h with
  | nil => exact nofun
  | cons hr _ ih =>
    rw [List.forall_mem_cons] at hp ⊢
    exact ⟨hp.1 _ hr, ih hp.2⟩

theorem Stream.mem_diagnosticRecords {items : List Item} {r : DiagnosticRecord} :
    r ∈ items.filterMap diagnosticRecord? ↔ .record (.diagnostic r) ∈ items := by
  rw [List.mem_filterMap]
  constructor
  · rintro ⟨item, hi, hr⟩
    unfold diagnosticRecord? at hr
    split at hr <;> cases hr
    exact hi
  · exact fun h => ⟨_, h, rfl⟩

theorem Stream.mem_symbolRecords {items : List Item} {r : SymbolRecord} :
    r ∈ items.filterMap symbolRecord? ↔ .record (.symbol r) ∈ items := by
  rw [List.mem_filterMap]
  constructor
  · rintro ⟨item, hi, hr⟩
    unfold symbolRecord? at hr
    split at hr <;> cases hr
    exact hi
  · exact fun h => ⟨_, h, rfl⟩

/-- No surrogate stands alone in the texts of the record that an index keeps. -/
def Record.Scalar : Record → Prop
  | .diagnostic r => r.path.Scalar ∧ r.message.Scalar
  | .symbol r => r.name.Scalar ∧ r.package.Scalar ∧ r.path.Scalar
  | .log _ => True
  | .unknown .. => True

structure Findings.Plain (f : Findings) : Prop where
  diagnostics : f.diagnostics.Plain
  symbols : ∀ s ∈ f.symbols, s.Plain
  byFile : ∀ e ∈ f.byFile.entries, ∀ s ∈ e.2, s.Plain

theorem OrderedMap.mem_grouped {α β γ : Type} [DecidableEq α] {key : γ → α} {f : γ → β}
    {xs : List γ} {e : α × List β} (h : e ∈ (grouped key f xs).entries) :
    e.1 ∈ xs.map key ∧ ∀ y ∈ e.2, ∃ x ∈ xs, f x = y := by
  obtain ⟨k, hk, rfl⟩ := List.mem_map.mp h
  refine ⟨List.mem_eraseDups.mp hk, fun y hy => ?_⟩
  obtain ⟨x, hx, rfl⟩ := List.mem_map.mp hy
  exact ⟨x, List.mem_of_mem_filter hx, rfl⟩

theorem Findings.plain_add {ds : List Diagnostic} {ss : List Symbol} (hd : ∀ d ∈ ds, d.Plain)
    (hs : ∀ s ∈ ss, s.Plain) : (Findings.add {} ds ss).Plain := by
  refine ⟨?_, hs, ?_⟩
  · rw [add_empty_diagnostics]
    refine ⟨OrderedMap.nodup_keys_grouped _ _ _, fun e he => ?_, fun e he d hde => ?_⟩
    · obtain ⟨d, hm, hp⟩ := List.mem_map.mp (OrderedMap.mem_grouped he).1
      exact hp ▸ (hd d hm).path
    · obtain ⟨d, hm, rfl⟩ := (OrderedMap.mem_grouped he).2 d hde
      exact hd d hm
  · rw [add_empty_byFile]
    intro e he s hse
    obtain ⟨s, hm, rfl⟩ := (OrderedMap.mem_grouped he).2 s hse
    exact hs s hm

theorem Findings.diagnosticCount_add (ds : List Diagnostic) (ss : List Symbol) :
    (Findings.add {} ds ss).diagnosticCount = ds.length :=
  OrderedMap.length_flatten_pushed Diagnostic.path id ds

structure Indices.Plain (x : Indices) : Prop where
  diagnostics : ∀ e ∈ x.diagnostics.byRoot.entries, e.2.Plain
  byRoot : ∀ e ∈ x.symbols.byRoot.entries, ∀ s ∈ e.2, s.Plain
  byFile : ∀ e ∈ x.symbols.byFile.entries, ∀ s ∈ e.2, s.Plain

namespace Indices.Plain

variable {x : Indices}

theorem forFile (h : x.Plain) (uri : Text) : ∀ s ∈ x.symbols.forFile uri, s.Plain := by
  rw [SymbolIndex.forFile, OrderedMap.getD]
  cases hg : x.symbols.byFile.get? uri with
  | none => exact fun _ hs => absurd hs List.not_mem_nil
  | some ss => exact h.byFile _ (OrderedMap.mem_of_get? hg)

theorem search (h : x.Plain) (query : Text) : ∀ s ∈ x.symbols.search query, s.Plain := by
  intro s hs
  obtain ⟨ss, hm, hs⟩ := List.mem_flatten.mp (List.mem_of_mem_filter hs)
  obtain ⟨e, he, rfl⟩ := List.mem_map.mp hm
  exact h.byRoot e he s hs

end Indices.Plain

variable [Surroundings]

/-! ## Output -/

namespace Stream

theorem exists_line_of_mem_read {lines : List Text} {item : Item} (h : item ∈ (read lines).1) :
    ∃ line, Item.ofLine line = .ok item := by
  induction lines with
  | nil => cases h
  | cons line lines ih =>
    cases hl : Item.ofLine line with
    | error => simp [read, hl] at h
    | ok item' =>
      simp only [read, hl, List.mem_cons] at h
      rcases h with rfl | h
      · exact ⟨line, hl⟩
      · exact ih h

theorem length_read_le (lines : List Text) : (read lines).1.length ≤ lines.length := by
  induction lines with
  | nil => exact le_rfl
  | cons line lines ih =>
    cases hl : Item.ofLine line with
    | error => simp [read, hl]
    | ok item => simpa [read, hl] using ih

/-- Each item takes an octet at least. -/
theorem length_items_le (bytes : List UInt8) : (items bytes).1.length ≤ bytes.length :=
  calc (items bytes).1.length
      ≤ (lines bytes).length := length_read_le _
    _ ≤ (Utf8.decode bytes).length := Text.length_contentLines_le _
    _ ≤ bytes.length := (Utf8.decodes_decode bytes).length_le

end Stream

/-- The process prints records without lone surrogates, and its output and its status are no
larger than any that there are. -/
structure Script.Plain (p : Script) : Prop where
  records : ∀ r, Item.record r ∈ (Stream.items p.out).1 → r.Scalar
  size : p.out.length < 10 ^ integerLimit
  status : ∀ n, p.exit.code = some n → n.natAbs < 10 ^ integerLimit

/-- The working directory is named without lone surrogates, integers are counted as documented,
and replies do not nest too deep for the reader. -/
structure Surroundings.Plain : Prop where
  directory : Text.Scalar Path.workingDirectory
  integers : Field.LaxIntegers
  nesting : 5 ≤ Json.depthLimit

def Start.Plain (start : Start) : Prop := ∀ p, start = .ok p → p.Plain

/-! ## Processes -/

theorem Uri.scalar_ofFile {path root uri : Text} (h : ofFile path root = .ok uri) : uri.Scalar := by
  unfold ofFile ofPath at h
  split at h
  · next bytes _ =>
    cases h
    refine Text.scalar_append.mpr ⟨Text.scalar_ofString _, fun s hs => ?_⟩
    have hv := (Percent.isVisible_of_mem_encode hs).2.1
    simp only [CodePoint.val] at hv
    omega
  · cases h

theorem DiagnosticRecord.LocatedIn.plain {root : Text} {r : DiagnosticRecord} {d : Diagnostic}
    (h : r.LocatedIn root d) (hs : Record.Scalar (.diagnostic r))
    (hb : Record.Bounded (.diagnostic r)) : d.Plain := by
  obtain ⟨uri, hu, rfl⟩ := h
  exact ⟨hs.1, Uri.scalar_ofFile hu, hb, hs.2⟩

theorem SymbolRecord.LocatedIn.plain {root : Text} {r : SymbolRecord} {s : Symbol}
    (h : r.LocatedIn root s) (hs : Record.Scalar (.symbol r))
    (hb : Record.Bounded (.symbol r)) : s.Plain := by
  obtain ⟨uri, hu, rfl⟩ := h
  exact ⟨hs.1, hs.2.1, hs.2.2, Uri.scalar_ofFile hu, hb⟩

theorem Script.Plain.findings {p : Script} (hs : Surroundings.Plain) (h : p.Plain) {root : Text}
    {ds : List Diagnostic} {ss : List Symbol} (hg : Gathered root (Stream.items p.out).1 ds ss) :
    (Findings.add {} ds ss).Plain ∧ ds.length ≤ p.out.length ∧ ss.length ≤ p.out.length := by
  have hbounded (r : Record) (hr : Item.record r ∈ (Stream.items p.out).1) : r.Bounded := by
    obtain ⟨line, hl⟩ := Stream.exists_line_of_mem_read hr
    exact bounded_of_ofLine hs.integers hl
  refine ⟨Findings.plain_add ?_ ?_, ?_, ?_⟩
  · refine forall_mem_of_forall₂ hg.diagnostics fun r hr d hd => ?_
    have hm := Stream.mem_diagnosticRecords.mp hr
    exact hd.plain (h.records _ hm) (hbounded _ hm)
  · refine forall_mem_of_forall₂ hg.symbols fun r hr s hs => ?_
    have hm := Stream.mem_symbolRecords.mp hr
    exact hs.plain (h.records _ hm) (hbounded _ hm)
  · rw [← hg.diagnostics.length_eq]
    exact (List.length_filterMap_le _ _).trans (Stream.length_items_le p.out)
  · rw [← hg.symbols.length_eq]
    exact (List.length_filterMap_le _ _).trans (Stream.length_items_le p.out)

namespace Indices.Plain

variable {x : Indices}

theorem commit (h : x.Plain) {f : Findings} (hf : f.Plain) (root : Text) (code : Option ℤ) :
    (x.commit root f code).Plain := by
  have hdiagnostics : ∀ e ∈ (x.commit root f code).diagnostics.byRoot.entries, e.2.Plain := by
    intro e he
    rcases OrderedMap.mem_insert he with he | rfl
    · exact h.diagnostics e he
    · exact hf.diagnostics
  refine ⟨hdiagnostics, ?_, ?_⟩
  · rw [Indices.commit]
    dsimp only
    split_ifs
    · intro e he
      rcases OrderedMap.mem_insert he with he | rfl
      · exact h.byRoot e he
      · exact hf.symbols
    · exact h.byRoot
  · rw [Indices.commit]
    dsimp only
    split_ifs
    · intro e he
      rcases OrderedMap.mem_insertAll he with he | he
      · exact h.byFile e (OrderedMap.mem_foldl_erase he)
      · exact hf.byFile e he
    · exact h.byFile

theorem get (h : x.Plain) (root : Text) : (x.diagnostics.get root).Plain := by
  rw [DiagnosticIndex.get, OrderedMap.getD]
  cases hg : x.diagnostics.byRoot.get? (Path.rootKey root) with
  | none =>
    exact ⟨List.nodup_nil, fun _ he => absurd he List.not_mem_nil,
      fun _ he => absurd he List.not_mem_nil⟩
  | some ds => exact h.diagnostics _ (OrderedMap.mem_of_get? hg)

end Indices.Plain

end Workbench
