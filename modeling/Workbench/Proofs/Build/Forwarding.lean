import Workbench.Proofs.Build.Answers
import Workbench.Proofs.Build.Idle
import Workbench.Proofs.Toolchain.Beginning
import Workbench.Proofs.Uri.Files

/-! # The error stream is forwarded as it is

A session hands the error stream to the editor chunk by chunk, with a decoder that remembers a
character that has begun. The run that begins a project decodes line by line. A line feed is no
part of a longer character, so both come to the text of the whole stream, and nothing else that is
read adds to it.
-/

namespace Workbench

/-! ## Lines of octets -/

namespace Toolchain

variable {a b : List UInt8}

theorem cutLines_append (h : 10 ∉ a) (b : List UInt8) :
    cutLines (a ++ 10 :: b) = (a ++ [10]) :: cutLines b := by
  induction a with
  | nil => rfl
  | cons x a ih =>
    obtain ⟨hx, ha⟩ := not_or.mp (mt List.mem_cons.mpr h)
    have hc : cutLines (x :: (a ++ 10 :: b)) = (x :: (a ++ [10])) :: cutLines b := by
      rw [cutLines, List.foldr_cons, ← cutLines, ih ha, if_neg (Ne.symm hx)]
      simp
    exact hc

theorem cutLines_of_not_mem (h : 10 ∉ a) (hn : a ≠ []) : cutLines a = [a] := by
  induction a with
  | nil => exact absurd rfl hn
  | cons x a ih =>
    obtain ⟨hx, ha⟩ := not_or.mp (mt List.mem_cons.mpr h)
    rw [cutLines, List.foldr_cons, ← cutLines, if_neg (Ne.symm hx)]
    cases a with
    | nil => rfl
    | cons y a => rw [ih ha (List.cons_ne_nil y a)]; rfl

/-- Lines that are decoded one by one come to the text of the whole. -/
theorem decode_cutLines (bytes : List UInt8) :
    (cutLines bytes).flatMap Utf8.decode = Utf8.decode bytes := by
  induction h : bytes.length using Nat.strongRecOn generalizing bytes with
  | _ n ih =>
    by_cases hm : 10 ∈ bytes
    · obtain ⟨a, b, rfl, ha⟩ := List.eq_append_cons_of_mem hm
      have hb : b.length < n := by
        rw [← h, List.length_append, List.length_cons]
        omega
      rw [cutLines_append ha, List.flatMap_cons, ih _ hb b rfl,
        Utf8.decode_append_ascii a (by decide), Utf8.decode_append_ascii a (by decide)]
      simp [Utf8.decode, Utf8.finish]
    · cases bytes with
      | nil => rfl
      | cons x bytes =>
        rw [cutLines_of_not_mem hm (List.cons_ne_nil x bytes), List.flatMap_singleton]

end Toolchain

/-! ## The output channel -/

namespace Editor

def handed (e : Editor) : Text := output e.calls

theorem handed_call (e : Editor) (c : Call) : (e.call c).handed = e.handed ++ output [c] :=
  List.flatMap_append

theorem handed_showOutput (e : Editor) : e.showOutput.handed = e.handed :=
  (e.handed_call .showOutput).trans (List.append_nil _)

theorem handed_told (e : Editor) (ts : List Text) :
    (e.told .piece ts).handed = e.handed ++ ts.flatten := by
  have houtput : output (ts.map Entry.piece.call) = ts.flatten := by
    rw [output, List.flatMap_map]
    exact List.flatMap_id
  rw [handed, calls_told, ← houtput]
  exact List.flatMap_append

theorem handed_add_piece {e : Editor} {t : Text} (h : (e.add .piece t).2 = none) :
    (e.add .piece t).1.handed = e.handed ++ t := by
  have ht : e.takes .piece = true := by
    by_contra hn
    rw [add_of_refuses (Bool.not_eq_true _ ▸ hn)] at h
    cases h
  rw [add_of_takes ht, handed_told, List.flatten_singleton]

theorem handed_add_line (e : Editor) (t : Text) : (e.add .line t).1.handed = e.handed := by
  unfold add
  split
  · exact (handed_call (e.behind 1 .line) _).trans (List.append_nil _)
  · rfl

end Editor

open Editor

/-! ## A session -/

section

variable [Surroundings]

namespace Reading

/-- The text that the error stream is still to bring. -/
def errorsToCome (r : Reading) : Text :=
  match r.errors with
  | none => []
  | some (u, bytes) => (Utf8.feed u bytes).1 ++ Utf8.finish (Utf8.feed u bytes).2

variable {r : Reading} {u : Utf8.State} {bytes : List UInt8}

omit [Surroundings] in
theorem errorsToCome_of_none (h : r.errors = none) : r.errorsToCome = [] := by
  rw [errorsToCome, h]

omit [Surroundings] in
theorem errorsToCome_of_some (h : r.errors = some (u, bytes)) :
    r.errorsToCome = (Utf8.feed u bytes).1 ++ Utf8.finish (Utf8.feed u bytes).2 := by
  rw [errorsToCome, h]

omit [Surroundings] in
theorem handed_forwardTail {e : Editor} (h : (Session.forwardTail u e).2 = none) :
    (Session.forwardTail u e).1.handed = e.handed ++ Utf8.finish u := by
  unfold Session.forwardTail at h ⊢
  split at h
  · next hf => rw [hf]; exact (List.append_nil _).symm
  · exact handed_add_piece h

omit [Surroundings] in
theorem of_afterErrors {left : Option (Utf8.State × List UInt8)} {out : Editor × Option Crash}
    (h : (r.afterErrors left out).1.ended = none) :
    out.2 = none ∧ r.afterErrors left out = ({ r with errors := left }, out.1) := by
  obtain ⟨e, _ | c⟩ := out
  · exact ⟨rfl, rfl⟩
  · obtain ⟨hf, hc⟩ := ended_eq_none_iff.mp h
    change r.crash = none at hc
    simp [afterErrors, hc] at hf

omit [Surroundings] in
theorem handed_readErrors {e : Editor} {n : Nat} (h : (r.readErrors e n).1.ended = none) :
    (r.readErrors e n).2.handed ++ (r.readErrors e n).1.errorsToCome =
      e.handed ++ r.errorsToCome := by
  unfold readErrors at h ⊢
  split at h
  · rfl
  · next u hu =>
    obtain ⟨ht, hr⟩ := of_afterErrors h
    rw [hr, errorsToCome_of_some hu, errorsToCome_of_none rfl, handed_forwardTail ht,
      Utf8.feed_nil, List.append_nil, List.nil_append]
  · next u bytes _ hu =>
    obtain ⟨ht, hr⟩ := of_afterErrors h
    have hb := Utf8.feed_append u (bytes.take (portion n)) (bytes.drop (portion n))
    rw [List.take_append_drop] at hb
    rw [hr, errorsToCome_of_some hu, errorsToCome_of_some rfl, hb]
    dsimp only [Session.forwardChunk]
    rw [append, handed_add_piece ht]
    simp only [List.append_assoc]

theorem errors_readOutput (r : Reading) (e : Editor) (n : Nat) :
    (r.readOutput e n).1.errors = r.errors := by
  rcases r.readOutput_cases n with h | ⟨rest, piece, h⟩
  · rw [h]
  · rw [h]
    rfl

theorem handed_readOutput (r : Reading) (e : Editor) (n : Nat) :
    (r.readOutput e n).2.handed ++ (r.readOutput e n).1.errorsToCome =
      e.handed ++ r.errorsToCome := by
  have he : (r.readOutput e n).2.handed = e.handed :=
    readOutput_keeps (P := fun e' => e'.handed = e.handed)
      (fun e' t h => (e'.handed_add_line t).trans h) r n rfl
  rw [he, errorsToCome, errorsToCome, errors_readOutput]

inductive Part where
  | output (arrived : Nat)
  | errors (arrived : Nat)

def readPart (q : Reading × Editor) : Part → Reading × Editor
  | .output n => q.1.readOutput q.2 n
  | .errors n => q.1.readErrors q.2 n

/-- Reads both streams side by side. -/
def readParts (s : Session) (p : Script) (e : Editor) (parts : List Part) : Reading × Editor :=
  parts.foldl readPart (start s p, e)

theorem ended_readOutput (r : Reading) (e : Editor) (n : Nat) (h : r.ended ≠ none) :
    (r.readOutput e n).1.ended ≠ none := by
  unfold readOutput
  intro hn
  split at hn
  · next hc _ => exact h (ended_eq_none_iff.mpr ⟨(ended_eq_none_iff.mp hn).1, hc⟩)
  · next hc _ => exact h (ended_eq_none_iff.mpr ⟨(ended_eq_none_iff.mp hn).1, hc⟩)
  · exact h hn

theorem handed_readParts {s : Session} {p : Script} {e : Editor} {parts : List Part}
    (h : (readParts s p e parts).1.ended = none) :
    (readParts s p e parts).2.handed ++ (readParts s p e parts).1.errorsToCome =
      e.handed ++ Utf8.decode p.err := by
  induction parts using List.reverseRecOn with
  | nil => rfl
  | append_singleton parts part ih =>
    rw [readParts, List.foldl_append] at h ⊢
    cases part with
    | output n =>
      rw [← ih (by_contra fun hn => ended_readOutput _ _ n hn h)]
      exact handed_readOutput _ _ n
    | errors n =>
      rw [← ih (by_contra fun hn => (readErrors_keeps _ _ n).2.2 hn h)]
      exact handed_readErrors h

omit [Surroundings] in
theorem errorsToCome_of_over (h : r.isOver) (hn : r.ended = none) :
    r.errorsToCome = [] :=
  errorsToCome_of_none ((isOver_iff.mp h).resolve_left (absurd hn)).2

end Reading

namespace Session

omit [Surroundings] in
theorem flatten_pieces (u : Utf8.State) (chunks : List (List UInt8)) :
    (pieces u chunks).flatten = (Utf8.feed u chunks.flatten).1 ++
      Utf8.finish (Utf8.feed u chunks.flatten).2 := by
  induction chunks generalizing u with
  | nil =>
    rw [pieces, List.flatten_nil, Utf8.feed_nil, List.nil_append]
    by_cases hf : Utf8.finish u = []
    · simp [hf]
    · simp [hf]
  | cons chunk chunks ih =>
    rw [pieces, List.flatten_cons, ih, List.flatten_cons, Utf8.feed_append]
    simp only [List.append_assoc]

omit [Surroundings] in
theorem handed_forwardErrors {e : Editor} {chunks : List (List UInt8)}
    (h : (forwardErrors e chunks).2 = none) :
    (forwardErrors e chunks).1.handed = e.handed ++ Utf8.decode chunks.flatten := by
  have ht := tells_foldUntil e .piece (pieces .start chunks)
  rw [← forwardErrors_eq] at ht
  generalize forwardErrors e chunks = out at h ht
  obtain ⟨e', c⟩ := out
  obtain rfl : c = none := h
  rw [ht.of_none.2, handed_told, flatten_pieces]
  rfl

theorem handed_readOutput (s : Session) (e : Editor) (chunks : List (List UInt8)) :
    (s.readOutput e chunks).2.1.handed = e.handed :=
  readOutput_keeps (P := fun e' => e'.handed = e.handed)
    (fun e' t h => (e'.handed_add_line t).trans h) s chunks rfl

theorem handed_leave (s : Session) (p : Script) (c : Option Crash) (x : Indices) (e : Editor) :
    (s.leave p c x e).editor.handed = e.handed := by
  unfold leave
  cases c with
  | some c => rfl
  | none =>
    dsimp only
    split_ifs
    · rfl
    · exact e.handed_showOutput

theorem handed_run {s : Session} {p : Script} {x : Indices} {e : Editor}
    (h : (s.run (.ok p) x e).result.toOption.isSome) :
    (s.run (.ok p) x e).editor.handed = e.handed ++ Utf8.decode p.err := by
  rw [run] at h ⊢
  cases hc : ((s.enter .running).readOutput e p.outChunks).2.2.or
      (forwardErrors ((s.enter .running).readOutput e p.outChunks).2.1 p.errChunks).2 with
  | some c =>
    rw [hc, leave_some] at h
    cases h
  | none =>
    rw [handed_leave, handed_forwardErrors (Option.or_eq_none_iff.mp hc).2, handed_readOutput,
      Script.errChunks, flatten_chunksOf]

end Session

/-! ## Beginning a project -/

namespace Toolchain.Beginning

variable {b : Beginning}

def textToCome (b : Beginning) : Text := (b.errors.getD []).flatMap Utf8.decode

theorem handed_readOutput (b : Beginning) (arrived : Nat) :
    (b.readOutput arrived).editor.handed = b.editor.handed := by
  have hkeeps (item : Item) (e' : Editor) (h : e'.handed = b.editor.handed) :=
    initHandlers_keeps (P := fun e' => e'.handed = b.editor.handed)
      (fun e' t h => (e'.handed_add_line t).trans h) item h
  unfold readOutput
  split
  · exact (Pump.agrees_readLast initHandlers b.pump).keeps hkeeps rfl
  · exact (Pump.agrees_readChunk initHandlers b.pump _).keeps hkeeps rfl
  · rfl

omit [Surroundings] in
theorem handed_readError (h : b.readError.fault = none) : b.fault = none ∧
    b.readError.editor.handed ++ b.readError.textToCome = b.editor.handed ++ b.textToCome := by
  unfold readError at h ⊢
  split at h
  · next hf hb => exact ⟨hf, by rw [textToCome, textToCome, hb]; rfl⟩
  · next line rest hf hb =>
    by_cases hl : Overlong line
    · obtain ⟨ended, ho⟩ := forwardLine_of_overlong (e := b.editor) hl
      rw [ho] at h
      cases h
    · rw [forwardLine_of_not_overlong hl] at h ⊢
      refine ⟨hf, ?_⟩
      rw [textToCome, textToCome, hb]
      exact (congrArg (· ++ rest.flatMap Utf8.decode) (handed_add_piece h)).trans
        (List.append_assoc _ _ _)
  · exact ⟨h, rfl⟩

theorem handed_readParts (parts : List Part) (h : (b.readParts parts).fault = none) :
    b.fault = none ∧ (b.readParts parts).editor.handed ++ (b.readParts parts).textToCome =
      b.editor.handed ++ b.textToCome := by
  induction parts generalizing b with
  | nil => exact ⟨h, rfl⟩
  | cons part parts ih =>
    obtain ⟨hf, hparts⟩ := ih h
    cases part with
    | output arrived =>
      obtain ⟨herrors, hfault⟩ := b.errors_readOutput arrived
      have htext : (b.readOutput arrived).textToCome = b.textToCome := by
        rw [textToCome, textToCome, herrors]
      refine ⟨hfault.symm.trans hf, hparts.trans ?_⟩
      rw [readPart, htext, handed_readOutput]
    | error =>
      obtain ⟨hf, hstep⟩ := handed_readError hf
      exact ⟨hf, hparts.trans hstep⟩

end Toolchain.Beginning

namespace Toolchain

theorem handed_initWith {t : Toolchain} {p : Script} {e : Editor}
    (h : ∀ c, (t.initWith p e).result ≠ .error (.crash c)) :
    (t.initWith p e).editor.handed = e.handed ++ Utf8.decode p.err := by
  obtain ⟨parts, more, ho, hi, hmore⟩ := t.exists_parts_initWith p e
  rcases Beginning.leave_cases t ho with ⟨c, -, hr, -⟩ | ⟨hn, -, -, -⟩
  · rw [hi] at h
    exact absurd hr (h c)
  · obtain ⟨hc, hf, -, herrors⟩ := Beginning.ended_of_isOver ho hn
    obtain ⟨-, hparts⟩ := Beginning.handed_readParts parts hf
    rw [Beginning.textToCome, herrors] at hparts
    rw [hi, hmore hc, List.append_nil]
    refine ((List.append_nil _).symm.trans hparts).trans ?_
    exact congrArg (e.handed ++ ·) (decode_cutLines p.err)

end Toolchain

/-- The text of an error stream has one U+FFFD for each longest ill-formed piece. It is what a
session hands to its editor, however the stream is cut into chunks and whatever is read of the
output in between, and what the run that begins a project hands to its editor. -/
theorem errors_forwarded (err : List UInt8) :
    ∃ t, Utf8.Decodes err t ∧ (∀ t', Utf8.Decodes err t' → t' = t) ∧
      (∀ s : Text, s.Scalar → Utf8.encode s = err → t = s) ∧
      (∀ (e : Editor) (chunks : List (List UInt8)), chunks.flatten = err →
        (Session.forwardErrors e chunks).2 = none →
        (Session.forwardErrors e chunks).1.handed = e.handed ++ t) ∧
      (∀ (s : Session) (p : Script) (e : Editor) (x : Indices), p.err = err →
        (∀ parts r e', Reading.readParts s p e parts = (r, e') → r.isOver → r.ended = none →
          (r.leave x e').editor.handed = e.handed ++ t) ∧
        ((s.run (.ok p) x e).result.toOption.isSome →
          (s.run (.ok p) x e).editor.handed = e.handed ++ t)) ∧
      (∀ (tc : Toolchain) (p : Script) (e : Editor) (w : World), p.err = err →
        (tc.spawn Toolchain.initArgs none w).1 = .ok p →
        (∀ c, (tc.initProject e w).1 ≠ .error (.crash c)) →
        (tc.initProject e w).2.1.handed = e.handed ++ t) := by
  refine ⟨Utf8.decode err, Utf8.decodes_decode err, fun t' h => Utf8.decodes_iff.mp h, ?_, ?_, ?_,
    ?_⟩
  · rintro s hs rfl
    exact Utf8.decode_encode hs
  · rintro e chunks rfl hn
    exact Session.handed_forwardErrors hn
  · rintro s p e x rfl
    refine ⟨fun parts r e' hr ho hn => ?_, fun hs => Session.handed_run hs⟩
    have hended : (Reading.readParts s p e parts).1.ended = none := by rw [hr, hn]
    have h := Reading.handed_readParts hended
    rw [hr, Reading.errorsToCome_of_over ho hn, List.append_nil] at h
    exact (r.session.handed_leave r.script r.ended x e').trans h
  · rintro tc p e w rfl hp hn
    rw [Toolchain.initProject] at hn ⊢
    dsimp only at hn ⊢
    rw [hp] at hn ⊢
    exact (Toolchain.handed_initWith hn).trans
      (congrArg (· ++ Utf8.decode p.err) e.handed_showOutput)

end

open Surroundings in
/-- A sequence that a line feed cuts short, and a character that a chunk cuts in two. -/
theorem errors_forwarded_of_cut_sequences :
    let p : Script := { err := [0xE2, 0x82, 0x0A, 0xC3, 0xA9] }
    let t := Text.ofString "\uFFFD\né"
    let tc : Toolchain := ⟨Text.ofString "/opt/reproto", none⟩
    let s := Session.create (Text.ofString "/ws") tc
    let q := Reading.readParts s p {} [.errors 1, .output 0, .errors 3, .errors 9, .errors 0]
    (Session.forwardErrors {} [[0xE2], [0x82, 0x0A, 0xC3], [0xA9]]).1.handed = t ∧
      (q.1.leave {} q.2).editor.handed = t ∧
      (s.run (.ok p) {} {}).editor.handed = t ∧
      (tc.initProject {} { starts := [.ok p] }).2.1.handed = t := by
  intro p t tc s q
  obtain ⟨t', ht, -, -, hchunks, hsession, hinit⟩ := errors_forwarded p.err
  have heq : t' = t := (Utf8.decodes_iff.mp ht).trans (by decide)
  obtain ⟨hparts, hrun⟩ := hsession s p {} {} rfl
  rw [heq] at hchunks hparts hrun hinit
  have hinitOk : (tc.initProject {} { starts := [.ok p] }).1.toOption = some () := by decide +kernel
  refine ⟨hchunks {} _ rfl ?_, hparts _ _ _ rfl ?_ ?_, hrun ?_, hinit tc p {} _ rfl rfl
    fun c hc => ?_⟩
  · decide +kernel
  · decide +kernel
  · decide +kernel
  · decide +kernel
  · rw [hc] at hinitOk
    cases hinitOk

end Workbench
