import Workbench.Proofs.Build.Forwarding
import Workbench.Proofs.Index.History

/-! # Files told beside the symbols

A session enters each symbol in its list and, in the same step, under the URI of its file. What
stands under the URIs is at any time what a commit would put together from the list. So the
index comes to the same state with the files told or not, whatever it was before.
-/

namespace Workbench

open OrderedMap

/-! ## Records whose paths have a URI -/

section

variable [Surroundings]

namespace Uri

variable {α : Type} {root path uri : Text} {located : Text → α}

def locate? (root path : Text) (located : Text → α) : Option α :=
  (ofFile path root).toOption.map located

theorem locate?_of_ok (h : ofFile path root = .ok uri) :
    locate? root path located = some (located uri) := by
  rw [locate?, h]
  rfl

theorem locate?_of_error {u : Unencodable} (h : ofFile path root = .error u) :
    locate? root path located = none := by
  rw [locate?, h]
  rfl

end Uri

namespace Stream

def diagnosticsIn (root : Text) (items : List Item) : List Diagnostic :=
  (items.filterMap diagnosticRecord?).filterMap fun r => Uri.locate? root r.path r.located

def symbolsIn (root : Text) (items : List Item) : List Symbol :=
  (items.filterMap symbolRecord?).filterMap fun r => Uri.locate? root r.path r.located

variable {root : Text}

theorem diagnosticsIn_append (a b : List Item) :
    diagnosticsIn root (a ++ b) = diagnosticsIn root a ++ diagnosticsIn root b := by
  simp only [diagnosticsIn, List.filterMap_append]

theorem symbolsIn_append (a b : List Item) :
    symbolsIn root (a ++ b) = symbolsIn root a ++ symbolsIn root b := by
  simp only [symbolsIn, List.filterMap_append]

theorem diagnosticsIn_singleton (r : DiagnosticRecord) :
    diagnosticsIn root [.record (.diagnostic r)] = (Uri.locate? root r.path r.located).toList := by
  change [r].filterMap _ = _
  rw [List.filterMap_cons]
  cases Uri.locate? root r.path r.located <;> rfl

theorem symbolsIn_singleton (r : SymbolRecord) :
    symbolsIn root [.record (.symbol r)] = (Uri.locate? root r.path r.located).toList := by
  change [r].filterMap _ = _
  rw [List.filterMap_cons]
  cases Uri.locate? root r.path r.located <;> rfl

end Stream

omit [Surroundings] in
theorem filterMap_eq_of_forall₂ {α β : Type} {R : α → β → Prop} {f : α → Option β}
    (hf : ∀ a b, R a b → f a = some b) {as : List α} {bs : List β} (h : List.Forall₂ R as bs) :
    as.filterMap f = bs := by
  induction h with
  | nil => rfl
  | cons hr _ ih => rw [List.filterMap_cons_some (hf _ _ hr), ih]

theorem Gathered.eq_in {root : Text} {items : List Item} {ds : List Diagnostic}
    {ss : List Symbol} (h : Gathered root items ds ss) :
    ds = Stream.diagnosticsIn root items ∧ ss = Stream.symbolsIn root items := by
  constructor
  · refine (filterMap_eq_of_forall₂ ?_ h.diagnostics).symm
    rintro r d ⟨uri, hu, rfl⟩
    exact Uri.locate?_of_ok hu
  · refine (filterMap_eq_of_forall₂ ?_ h.symbols).symm
    rintro r s ⟨uri, hu, rfl⟩
    exact Uri.locate?_of_ok hu

/-! ## Item by item -/

namespace Session

variable {root : Text}

/-- Hands on items one by one, and goes on behind an item that is refused. -/
def handOn (root : Text) (items : List Item) (st : Findings × Editor) : Findings × Editor :=
  items.foldl (fun st item => ((handlers root).dispatch item st).1) st

/-- A handler adds what its item tells of, or nothing if it refuses the item. -/
theorem fst_dispatch (item : Item) (st : Findings × Editor) :
    ((handlers root).dispatch item st).1.1 =
      st.1.add (Stream.diagnosticsIn root [item]) (Stream.symbolsIn root [item]) := by
  rcases item with ((r | r | r | _) | f)
  · change (onDiagnostic root r st).1.1 = st.1.add (Stream.diagnosticsIn root _) []
    rw [Stream.diagnosticsIn_singleton, onDiagnostic]
    cases hu : Uri.ofFile r.path root with
    | error u =>
      rw [Uri.locate?_of_error hu]
      exact (Findings.add_nil _).symm
    | ok uri =>
      rw [Uri.locate?_of_ok hu]
      exact congrArg (fun ss => (⟨_, ss, _⟩ : Findings)) (List.append_nil _).symm
  · change (onSymbol root r st).1.1 = st.1.add [] (Stream.symbolsIn root _)
    rw [Stream.symbolsIn_singleton, onSymbol]
    cases hu : Uri.ofFile r.path root with
    | error u =>
      rw [Uri.locate?_of_error hu]
      exact (Findings.add_nil _).symm
    | ok uri =>
      rw [Uri.locate?_of_ok hu]
      rfl
  · exact (Findings.add_nil _).symm
  · exact (Findings.add_nil _).symm
  · exact (Findings.add_nil _).symm

theorem fst_handOn (items : List Item) (st : Findings × Editor) :
    (handOn root items st).1 =
      st.1.add (Stream.diagnosticsIn root items) (Stream.symbolsIn root items) := by
  induction items generalizing st with
  | nil => exact (Findings.add_nil _).symm
  | cons item items ih =>
    rw [← List.singleton_append, Stream.diagnosticsIn_append, Stream.symbolsIn_append,
      ← Findings.add_add, ← fst_dispatch]
    exact ih _

end Session

/-! ## A session that commits -/

namespace Reading

variable {root : Text} {t : Toolchain} {p : Script} {e : Editor}

theorem reads_readParts (root : Text) (t : Toolchain) (p : Script) (e : Editor)
    (parts : List Part) : (readParts (Session.create root t) p e parts).1.Reads root p := by
  induction parts using List.reverseRecOn with
  | nil => exact .start root t p
  | append_singleton parts part ih =>
    rw [readParts, List.foldl_append]
    cases part with
    | output n => exact ih.readOutput _ n
    | errors n => exact ih.readErrors _ n

/-- In whatever parts the streams were read, what a session has found at the end is told by the
items of its output. -/
theorem findings_readParts {parts : List Part} {r : Reading} {e' : Editor}
    (hr : readParts (Session.create root t) p e parts = (r, e')) (ho : r.isOver)
    (hc : r.ended = none) :
    r.session.findings =
      (Session.handOn (Path.absolute root) (Stream.items p.out).1 ({}, e)).1 := by
  have hread := reads_readParts root t p e parts
  rw [hr] at hread
  have hout := ((isOver_iff.mp ho).resolve_left (absurd hc)).1
  obtain ⟨-, -, ds, ss, hg, hf⟩ := hread.gathered_all (ended_eq_none_iff.mp hc).2 hout
  obtain ⟨rfl, rfl⟩ := hg.eq_in
  rw [hf, Session.fst_handOn]

theorem symbols_leave {parts : List Part} {r : Reading} {e' : Editor}
    (hr : readParts (Session.create root t) p e parts = (r, e')) (hc : r.ended = none)
    (hp : p.exit.code = some 0) (x : Indices) :
    (r.leave x e').indices.symbols =
      x.symbols.commitFiles (Path.absolute root) r.session.findings.symbols
        r.session.findings.byFile := by
  have hread := reads_readParts root t p e parts
  rw [hr] at hread
  rw [leave, hc, hread.script_eq, (Session.leave_none _).1, hread.root_eq, Indices.commit,
    if_pos hp]

end Reading

/-! ## With the files told or not -/

namespace SymbolIndex

omit [Surroundings] in
theorem group_eq_grouped (ss : List Symbol) : group ss = grouped Symbol.uri id ss :=
  pushed_eq_grouped Symbol.uri id ss

/-- Symbols that were handed on record by record stand under the URIs of their files as a commit
would group them: the URIs in the order of first mention, the symbols of each in the order of
their records. With the files told or not the index comes to one state, out of whatever state,
for whatever root, and in whichever order the files are taken out that are not mentioned any
more. It is the state that a session leaves behind which has read these records. -/
theorem commitFiles_gathered {root : Text} {items : List Item} {e : Editor} {f : Findings}
    (hf : (Session.handOn root items ({}, e)).1 = f) :
    f.symbols = Stream.symbolsIn root items ∧
    f.byFile = group f.symbols ∧
    f.byFile = grouped Symbol.uri id f.symbols ∧
    ∀ x : SymbolIndex,
      (∀ other, x.commitFiles other f.symbols f.byFile = x.commit other f.symbols) ∧
      (∀ c : Commit, c.symbols = f.symbols → c.given = none ∨ c.given = some f.byFile →
        ∀ uris : List Text, uris.Nodup → (∀ uri, uri ∈ uris ↔ uri ∈ x.unmentioned c) →
          x.applyLoop c uris = some (x.commit c.root f.symbols)) ∧
      (∀ (ws : Text) (t : Toolchain) (p : Script) (parts : List Reading.Part) (y : Indices)
        (r : Reading) (e' : Editor), Path.absolute ws = root → (Stream.items p.out).1 = items →
        y.symbols = x → Reading.readParts (Session.create ws t) p e parts = (r, e') →
        r.isOver → r.ended = none → p.exit.code = some 0 →
          (r.leave y e').indices.symbols = x.commit root f.symbols) := by
  rw [Session.fst_handOn] at hf
  have hs : f.symbols = Stream.symbolsIn root items := by rw [← hf]; rfl
  have hg : f.byFile = group f.symbols := by rw [← hf]; rfl
  refine ⟨hs, hg, hg.trans (group_eq_grouped _), fun x => ⟨fun _ => by rw [hg, commit], ?_, ?_⟩⟩
  · intro c hc hgiven uris hn hm
    have hfiles : c.files = group f.symbols := by
      rcases hgiven with h | h <;> rw [Commit.files, h]
      · exact congrArg group hc
      · exact hg
    rw [x.applyLoop_eq c hn hm, apply_eq, hfiles, hc, commit]
  · rintro ws t p parts y r e' rfl rfl rfl hr ho hc hp
    have hfind := Reading.findings_readParts hr ho hc
    rw [Session.fst_handOn, hf] at hfind
    rw [Reading.symbols_leave hr hc hp, hfind, hg, commit]

end SymbolIndex

end

open Surroundings in
/-- Records of two files in turn, one of them spelled in two ways, with a record between that has
no URI. Of the three files that are not mentioned any more one has another owner. -/
theorem SymbolIndex.commitFiles_gathered_of_spellings :
    let record (name path : Text) : Item := .record (.symbol ⟨none, name, [], path, default⟩)
    let f := (Session.handOn "/w" [record "A" "a", record "B" "b", record "lost" [.surrogate 0],
      record "C" "./a", record "D" "/w//b"] ({}, {})).1
    let names : List (Text × List Text) :=
      [("file:///w/a", ["A", "C"]), ("file:///w/b", ["B", "D"])]
    let old (uri : Text) : Symbol := ⟨[], none, [], [], uri, default⟩
    let x := history [⟨"/w", [old "u", old "v", old "z"], none, nofun⟩,
      ⟨"/w/c", [old "z"], none, nofun⟩]
    let p : Script := { out := SymbolRecord.printed ⟨none, "A", [], "./a", default⟩ }
    let q := Reading.readParts (Session.create "/w" default) p {}
      [.output 90, .output 7, .errors 0, .output 65536, .output 0]
    let g := (Session.handOn "/w" (Stream.items p.out).1 ({}, {})).1
    f.byFile.map (·.map Symbol.name) = ⟨names⟩ ∧
      x.commitFiles "/w" f.symbols f.byFile = x.commit "/w" f.symbols ∧
      (∀ hn, x.applyLoop ⟨"/w", f.symbols, some f.byFile, hn⟩ ["v", "z", "u"] =
        x.applyLoop ⟨"/w", f.symbols, none, nofun⟩ ["z", "u", "v"]) ∧
      (q.1.leave { symbols := x } q.2).indices.symbols = x.commit "/w" g.symbols := by
  intro record f names old x p q g
  obtain ⟨-, -, -, hx⟩ := commitFiles_gathered (f := f) rfl
  obtain ⟨hcommit, hloop, -⟩ := hx x
  obtain ⟨-, -, -, hy⟩ := commitFiles_gathered (f := g) rfl
  obtain ⟨-, -, hsession⟩ := hy x
  have hover : q.1.isOver ∧ q.1.ended = none := by decide +kernel
  let uris : List Text := ["u", "v", "z"]
  have halone : x.unmentioned ⟨"/w", f.symbols, none, nofun⟩ = uris := by decide +kernel
  have hgiven (hn) : x.unmentioned ⟨"/w", f.symbols, some f.byFile, hn⟩ = uris := by
    change (x.filesOf.getD (Path.rootKey "/w") []).filter (!f.byFile.contains ·) = uris
    decide +kernel
  refine ⟨by decide +kernel, hcommit _, fun hn => ?_, ?_⟩
  · trans some (x.commit "/w" f.symbols)
    · refine hloop _ rfl (.inr rfl) _ (by decide) fun uri => ?_
      rw [hgiven]
      exact List.Perm.mem_iff (by decide)
    · refine (hloop ⟨"/w", f.symbols, none, nofun⟩ rfl (.inl rfl) _ (by decide) fun uri => ?_).symm
      rw [halone]
      exact List.Perm.mem_iff (by decide)
  · have hroot : Path.absolute "/w" = "/w" := by decide +kernel
    exact hsession "/w" default p _ { symbols := x } q.1 q.2 hroot rfl rfl Prod.mk.eta.symm
      hover.1 hover.2 rfl

end Workbench
