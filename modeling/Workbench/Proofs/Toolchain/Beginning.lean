import Workbench.Proofs.Build.Reading
import Workbench.Proofs.Editor
import Workbench.Toolchain.Invoke

/-! # How a run that begins a project is left

Output and error stream are read side by side, in any order. The output ends the run with a crash
where the editor refuses a line or a line cannot be decoded, the error stream where the editor
refuses what came or a line is too long. Whatever is read first, these alone decide whether the
process is waited for.
-/

namespace Workbench

namespace Toolchain

open Editor (Tells Took)

variable {p : Script} {e : Editor} {t : Toolchain}

/-! ## Lines for the editor -/

def told? : Item → Option Text
  | .record (.log r) => some r.line
  | .failure f => some f.message
  | _ => none

def toldLines (items : List Item) : List Text := items.filterMap told?

theorem toldLines_append (a b : List Item) : toldLines (a ++ b) = toldLines a ++ toldLines b :=
  List.filterMap_append

theorem dispatchAll_initHandlers (r : Routed Editor) (items : List Item) :
    ((r.dispatchAll initHandlers items).1.state, (r.dispatchAll initHandlers items).2) =
      foldUntil (Editor.add · .line ·) r.state (toldLines items) := by
  induction items generalizing r with
  | nil => rfl
  | cons item items ih =>
    have hskip (h : told? item = none) : r.dispatch initHandlers item =
        (⟨r.counts.add item, r.state⟩, none) := by
      rcases item with (_ | _ | _ | _) | _
      · rfl
      · rfl
      · cases h
      · rfl
      · cases h
    have htell (t : Text) (h : told? item = some t) : r.dispatch initHandlers item =
        (⟨r.counts.add item, (r.state.add .line t).1⟩, (r.state.add .line t).2) := by
      rcases item with (_ | _ | _ | _) | _ <;> cases h <;> rfl
    rw [Routed.dispatchAll, foldUntil, toldLines]
    cases ht : told? item with
    | none =>
      rw [hskip ht, List.filterMap_cons_none ht]
      exact ih _
    | some t =>
      rw [htell t ht, List.filterMap_cons_some ht, foldUntil]
      rcases r.state.add .line t with ⟨e', _ | c⟩
      · exact ih ⟨_, e'⟩
      · rfl

theorem tells_dispatchAll (r : Routed Editor) (items : List Item) :
    Tells r.state .line (toldLines items)
      ((r.dispatchAll initHandlers items).1.state, (r.dispatchAll initHandlers items).2) := by
  rw [dispatchAll_initHandlers]
  exact Editor.tells_foldUntil _ _ _

theorem initHandlers_keeps {P : Editor → Prop} (hP : ∀ e t, P e → P (e.add .line t).1)
    (item : Item) (h : P e) : P (initHandlers.dispatch item e).1 := by
  rcases item with (_ | _ | r | _) | f
  · exact h
  · exact h
  · exact hP e r.line h
  · exact h
  · exact hP e f.message h

def Overlong (line : List UInt8) : Prop := lineLimit < (line.takeWhile (· ≠ 10)).length

theorem forwardLine_of_overlong {line : List UInt8} (h : Overlong line) :
    ∃ ended, forwardLine e line = (e, some (.overlongLine ended)) := ⟨_, if_pos h⟩

theorem forwardLine_of_not_overlong {line : List UInt8} (h : ¬ Overlong line) :
    forwardLine e line = e.add .piece (Utf8.decode line) := if_neg h

/-- The process was waited for or killed, and the error stream was read to its end. -/
structure InitRun.Reaped (r : InitRun) : Prop where
  asked : r.process.calls ≠ []
  drained : r.drained = true

variable [Surroundings]

namespace Beginning

variable {b : Beginning} {parts : List Part}

/-! ## Reading -/

def linesOf (p : Script) : List Text := toldLines (Stream.items p.out).1

/-- Something ends the reading of an output: the editor refuses a line, or a line aborts. -/
def OutputFails (p : Script) (e : Editor) : Prop :=
  ¬ e.Takes .line (linesOf p).length ∨ (Stream.items p.out).2.isSome

/-- Something ends the reading of an error stream: the editor refuses a line of it, or a line is
too long. -/
def ErrorsFail (p : Script) (e : Editor) : Prop :=
  ¬ e.Takes .piece (cutLines p.err).length ∨ ∃ line ∈ cutLines p.err, Overlong line

/-- What is known of a run that reads the streams of a process. -/
structure Reads (b : Beginning) (p : Script) (e : Editor) : Prop where
  crashed : b.crash.isSome → OutputFails p e
  reading : b.crash = none → ∃ items later, (Stream.items p.out).1 = items ++ later ∧
    b.pump.decoder.Expects b.output later (Stream.items p.out).2 ∧
    Took e .line (toldLines items).length b.editor
  faulted : b.fault.isSome → ErrorsFail p e
  forwarding : b.fault = none → ∃ read, cutLines p.err = read ++ b.errors.getD [] ∧
    (∀ line ∈ read, ¬ Overlong line) ∧ Took e .piece read.length b.editor

omit [Surroundings] in
theorem ended_of_isOver (ho : b.isOver) (hn : b.crash.or b.fault = none) :
    b.crash = none ∧ b.fault = none ∧ b.output = none ∧ b.errors = none := by
  obtain ⟨hc, hf⟩ := Option.or_eq_none_iff.mp hn
  simp only [isOver, hc, hf, Option.isSome_none, Bool.false_or, Bool.and_eq_true,
    Option.isNone_iff_eq_none] at ho
  exact ⟨hc, hf, ho⟩

namespace Reads

theorem start (p : Script) (e : Editor) : (Beginning.start p e).Reads p e where
  crashed := nofun
  reading _ := ⟨[], _, rfl, Decoder.expects_empty p.out, .refl e _⟩
  faulted := nofun
  forwarding _ := ⟨[], rfl, nofun, .refl e _⟩

theorem afterPart (h : b.Reads p e) (hc : b.crash = none) {bytes : List UInt8}
    (hb : b.output = some bytes) {piece left : Option (List UInt8)}
    (hp : Decoder.Cut bytes piece left) {out : Pump Editor × Option Crash}
    (ha : Pump.Agrees initHandlers b.pump out.1 out.2 (b.pump.decoder.part piece)) :
    (b.afterPart left out).Reads p e := by
  obtain ⟨items, later, hi, hx, ht⟩ := h.reading hc
  rw [hb] at hx
  obtain ⟨rest, rfl, habort, hx⟩ := hx.part hp
  have hpieces : out.1.state.next .piece = b.editor.next .piece :=
    ha.keeps (P := fun e' => e'.next .piece = b.editor.next .piece) (fun item _ =>
      initHandlers_keeps (fun e' t h => (e'.next_add .line t .piece).trans h) item) rfl
  obtain ⟨hrouted, hending, hdecoder⟩ := ha
  have htells : Tells b.editor .line _ _ :=
    tells_dispatchAll b.pump.routed (b.pump.decoder.part piece).items
  rw [← hrouted] at htells
  have hlines : (linesOf p).length = (toldLines items).length +
      (toldLines (b.pump.decoder.part piece).items).length + (toldLines rest).length := by
    simp [linesOf, toldLines, hi, Nat.add_assoc]
  refine ⟨fun hs => ?_, fun hn => ?_, h.faulted, fun hf => ?_⟩
  · obtain ⟨c, hs⟩ := Option.isSome_iff_exists.mp hs
    rcases Option.or_eq_some_iff.mp (hending.symm.trans hs) with hr | ⟨-, hr⟩
    · refine .inl fun hall => ?_
      have htaken : b.editor.Takes .line (toldLines (b.pump.decoder.part piece).items).length :=
        ht.takes_iff.mpr (hall.mono (by omega))
      cases (htells.snd_eq_none_iff.mpr htaken).symm.trans hr
    · obtain ⟨a, hr, -⟩ := Option.map_eq_some_iff.mp hr
      exact .inr (Option.isSome_of_eq_some (habort a hr))
  · have hnone := Option.or_eq_none_iff.mp (hending.symm.trans hn)
    rw [hnone.1] at htells
    obtain ⟨htaken, hstate⟩ := htells.of_none
    refine ⟨items ++ (b.pump.decoder.part piece).items, rest, by rw [hi, List.append_assoc], ?_, ?_⟩
    · have hx := hx (Option.map_eq_none_iff.mp hnone.2)
      rwa [← hdecoder hn] at hx
    · have htook := ht.told htaken
      rwa [← hstate, ← List.length_append, ← toldLines_append] at htook
  · obtain ⟨read, hr, hs, ht⟩ := h.forwarding hf
    exact ⟨read, hr, hs, ht.congr hpieces rfl⟩

theorem readOutput (h : b.Reads p e) (arrived : Nat) : (b.readOutput arrived).Reads p e := by
  unfold Beginning.readOutput
  split
  · next hc hb => exact h.afterPart hc hb .last (Pump.agrees_readLast _ _)
  · next bytes _ hc hb =>
    exact h.afterPart hc hb (.chunk (List.take_append_drop _ _)) (Pump.agrees_readChunk _ _ _)
  · exact h

theorem readError (h : b.Reads p e) : b.readError.Reads p e := by
  unfold Beginning.readError
  split
  · next hf hb =>
    obtain ⟨read, hr, hs, ht⟩ := h.forwarding hf
    rw [hb] at hr
    exact ⟨h.crashed, h.reading, h.faulted, fun _ => ⟨read, hr, hs, ht⟩⟩
  · next line rest hf hb =>
    obtain ⟨read, hr, hs, ht⟩ := h.forwarding hf
    rw [hb] at hr
    -- A line that is handed on, or refused, is not one of the output.
    have hreading {e' : Editor} (hn : e'.next .line = b.editor.next .line)
        (hrest : e'.takesRest .line = b.editor.takesRest .line) (hc : b.crash = none) :
        ∃ items later, (Stream.items p.out).1 = items ++ later ∧
          b.pump.decoder.Expects b.output later (Stream.items p.out).2 ∧
          Took e .line (toldLines items).length e' := by
      obtain ⟨items, later, hi, hx, ht⟩ := h.reading hc
      exact ⟨items, later, hi, hx, ht.congr hn hrest⟩
    by_cases hl : Overlong line
    · obtain ⟨ended, ho⟩ := forwardLine_of_overlong (e := b.editor) hl
      rw [ho]
      exact ⟨h.crashed, hreading rfl rfl, fun _ => .inr ⟨line, by simp [hr], hl⟩, nofun⟩
    · rw [forwardLine_of_not_overlong hl]
      have hn : (b.editor.add .piece (Utf8.decode line)).1.next .line = b.editor.next .line :=
        b.editor.next_add .piece _ .line
      refine ⟨h.crashed, hreading hn (Editor.takesRest_add _ _ _ _), fun hs => ?_, fun hnone => ?_⟩
      · refine .inl fun hall => ?_
        have htaken : b.editor.Takes .piece 1 := ht.takes_iff.mpr (hall.mono (by simp [hr]))
        have h0 := (b.editor.takesAfter_zero _).symm.trans (htaken 0 Nat.zero_lt_one)
        rw [Editor.add_of_takes h0] at hs
        cases hs
      · refine ⟨read ++ [line], by simp [hr], ?_, ?_⟩
        · simpa [or_imp, forall_and] using ⟨hs, hl⟩
        · have h0 : b.editor.takes .piece = true := by
            by_contra h0
            rw [Editor.add_of_refuses (Bool.not_eq_true _ ▸ h0)] at hnone
            cases hnone
          have htaken : b.editor.Takes .piece [Utf8.decode line].length := by
            intro i hi
            obtain rfl := Nat.lt_one_iff.mp hi
            rw [Editor.takesAfter_zero, h0]
          rw [Editor.add_of_takes h0, List.length_append]
          exact ht.told htaken
  · exact h

theorem readParts (h : b.Reads p e) (parts : List Part) : (b.readParts parts).Reads p e := by
  induction parts generalizing b with
  | nil => exact h
  | cons part parts ih =>
    cases part with
    | output arrived => exact ih (h.readOutput arrived)
    | error => exact ih h.readError

/-- A run that is over has crashed just when something ends the reading of a stream. -/
theorem isSome_iff (h : b.Reads p e) (ho : b.isOver) : (b.crash.or b.fault).isSome ↔
    OutputFails p e ∨ ErrorsFail p e := by
  constructor
  · intro hs
    obtain ⟨c, hs⟩ := Option.isSome_iff_exists.mp hs
    rcases Option.or_eq_some_iff.mp hs with hc | ⟨-, hf⟩
    · exact .inl (h.crashed (Option.isSome_of_eq_some hc))
    · exact .inr (h.faulted (Option.isSome_of_eq_some hf))
  · intro hfails
    by_contra hn
    obtain ⟨hc, hf, hout, herr⟩ := ended_of_isOver ho (Option.not_isSome_iff_eq_none.mp hn)
    obtain ⟨items, later, hi, hx, ht⟩ := h.reading hc
    obtain ⟨read, hr, hs, htook⟩ := h.forwarding hf
    rw [hout] at hx
    rw [herr, Option.getD_none, List.append_nil] at hr
    obtain ⟨rfl, habort⟩ := hx.of_none
    rcases hfails with (hrefused | haborts) | hrefused | ⟨line, hm, hl⟩
    · rw [linesOf, hi, List.append_nil] at hrefused
      exact hrefused ht.taken
    · rw [habort] at haborts
      cases haborts
    · exact hrefused (hr ▸ htook.taken)
    · exact hs line (hr ▸ hm) hl

end Reads

/-! ## Reading to the end -/

theorem readParts_append (b : Beginning) (parts more : List Part) :
    b.readParts (parts ++ more) = (b.readParts parts).readParts more :=
  List.foldl_append

theorem errors_readOutput (b : Beginning) (arrived : Nat) :
    (b.readOutput arrived).errors = b.errors ∧ (b.readOutput arrived).fault = b.fault := by
  unfold readOutput
  split <;> exact ⟨rfl, rfl⟩

theorem errors_readOutputs (b : Beginning) (n arrived : Nat) :
    (b.readParts (List.replicate n (.output arrived))).errors = b.errors ∧
      (b.readParts (List.replicate n (.output arrived))).fault = b.fault := by
  induction n generalizing b with
  | zero => exact ⟨rfl, rfl⟩
  | succ n ih =>
    obtain ⟨he, hf⟩ := b.errors_readOutput arrived
    exact ⟨(ih _).1.trans he, (ih _).2.trans hf⟩

theorem output_readErrors (b : Beginning) (n : Nat) :
    (b.readParts (List.replicate n .error)).output = b.output ∧
      (b.readParts (List.replicate n .error)).crash = b.crash := by
  induction n generalizing b with
  | zero => exact ⟨rfl, rfl⟩
  | succ n ih =>
    have hb : b.readError.output = b.output ∧ b.readError.crash = b.crash := by
      unfold readError
      split <;> exact ⟨rfl, rfl⟩
    exact ⟨(ih _).1.trans hb.1, (ih _).2.trans hb.2⟩

theorem readParts_replicate {part : Part} (h : b.readPart part = b) (n : Nat) :
    b.readParts (List.replicate n part) = b := by
  induction n with
  | zero => rfl
  | succ n ih =>
    rw [List.replicate_succ, readParts, List.foldl_cons, h]
    exact ih

theorem readPart_of_crash (h : b.crash.isSome) (arrived : Nat) :
    b.readPart (.output arrived) = b := by
  obtain ⟨c, hc⟩ := Option.isSome_iff_exists.mp h
  rw [readPart, readOutput, hc]

theorem readPart_of_fault (h : b.fault.isSome) : b.readPart .error = b := by
  obtain ⟨c, hc⟩ := Option.isSome_iff_exists.mp h
  rw [readPart, readError, hc]

theorem output_ends {chunks : List (List UInt8)} {bytes : List UInt8} (hc : b.crash = none)
    (hb : b.output = some bytes) (hs : chunksOf readSize bytes = chunks) :
    let b' := b.readParts (List.replicate (chunks.length + 1) (.output readSize))
    b'.crash.isSome ∨ b'.output = none := by
  induction chunks generalizing b bytes with
  | nil =>
    obtain rfl := Reading.eq_nil_of_chunksOf hs
    have hread : b.readOutput readSize = b.afterPart none (b.pump.readLast initHandlers) := by
      rw [readOutput, hc, hb]
    exact .inr (congrArg Beginning.output hread)
  | cons chunk chunks ih =>
    obtain ⟨⟨x, xs, rfl⟩, -, hrest⟩ := Reading.cons_of_chunksOf hs
    intro b'
    have hread : b.readOutput readSize = b.afterPart (some ((x :: xs).drop readSize))
        (b.pump.readChunk initHandlers (.bytes ((x :: xs).take readSize))) := by
      rw [readOutput, hc, hb]
      rfl
    have hb' : b' = (b.readOutput readSize).readParts
        (List.replicate (chunks.length + 1) (.output readSize)) := rfl
    rw [hb']
    cases hn : (b.readOutput readSize).crash with
    | none => exact ih hn (by rw [hread]; rfl) hrest
    | some c =>
      have hsome := Option.isSome_of_eq_some hn
      rw [readParts_replicate (readPart_of_crash hsome readSize)]
      exact .inl hsome

theorem errors_end {lines : List (List UInt8)} (hb : b.errors = some lines) :
    let b' := b.readParts (List.replicate (lines.length + 1) .error)
    b'.fault.isSome ∨ b'.errors = none := by
  cases hf : b.fault with
  | some c =>
    have hsome := Option.isSome_of_eq_some hf
    rw [readParts_replicate (readPart_of_fault hsome)]
    exact .inl hsome
  | none =>
    induction lines generalizing b with
    | nil =>
      have hread : b.readError = { b with errors := none } := by rw [readError, hf, hb]
      exact .inr (congrArg Beginning.errors hread)
    | cons line lines ih =>
      have hread : b.readError.errors = some lines := by rw [readError, hf, hb]
      cases hf' : b.readError.fault with
      | none => exact ih hread hf'
      | some c =>
        have hsome := Option.isSome_of_eq_some hf'
        have hrest := readParts_replicate (readPart_of_fault hsome) (lines.length + 1)
        exact .inl ((congrArg (·.fault.isSome) hrest).trans hsome)

/-! ## Leaving -/

omit [Surroundings] in
/-- The ways to leave a run: after a crash the process is left as it is, else its status is asked
for. -/
theorem leave_cases (t : Toolchain) (ho : b.isOver) :
    (∃ c, b.crash.or b.fault = some c ∧ (b.leave t).result = .error (.crash c) ∧
      (b.leave t).process.calls = []) ∨
    (b.crash.or b.fault = none ∧ (∀ c, (b.leave t).result ≠ .error (.crash c)) ∧
      (b.leave t).process.calls = [.wait] ∧ (b.leave t).drained = true) := by
  unfold leave
  cases hs : b.crash.or b.fault with
  | some c => exact .inl ⟨c, rfl, rfl, rfl⟩
  | none =>
    refine .inr ⟨rfl, fun c => ?_, rfl, ?_⟩
    · dsimp only
      split_ifs <;> nofun
    · exact Option.isNone_iff_eq_none.mpr (ended_of_isOver ho hs).2.2.2

theorem Reads.leave (h : b.Reads p e) (t : Toolchain) (ho : b.isOver) :
    ((b.leave t).Reaped ↔ ∀ c, (b.leave t).result ≠ .error (.crash c)) ∧
    ((∃ c, (b.leave t).result = .error (.crash c)) ↔ (b.leave t).process.calls = []) ∧
    ((∃ c, (b.leave t).result = .error (.crash c)) ↔ OutputFails p e ∨ ErrorsFail p e) := by
  rw [← h.isSome_iff ho]
  rcases b.leave_cases t ho with ⟨c, hc, hr, hp⟩ | ⟨hn, hr, hp, hd⟩
  · refine ⟨⟨fun hs => absurd hp hs.asked, fun hs => absurd hr (hs c)⟩, ?_, ?_⟩
    · exact ⟨fun _ => hp, fun _ => ⟨c, hr⟩⟩
    · exact ⟨fun _ => Option.isSome_of_eq_some hc, fun _ => ⟨c, hr⟩⟩
  · refine ⟨⟨fun _ => hr, fun _ => ⟨by simp [hp], hd⟩⟩, ?_, ?_⟩
    · exact ⟨fun ⟨c, hc⟩ => absurd hc (hr c), fun hn => by simp [hp] at hn⟩
    · exact ⟨fun ⟨c, hc⟩ => absurd hc (hr c), fun hs => by simp [hn] at hs⟩

end Beginning

open Beginning

/-- Beginning a project is one order of reading the streams up to the point where the run is left.
Only behind a crash there is more to read. -/
theorem exists_parts_initWith (t : Toolchain) (p : Script) (e : Editor) :
    ∃ parts more, ((start p e).readParts parts).isOver ∧
      t.initWith p e = { ((start p e).readParts parts).leave t with
        editor := ((start p e).readParts (parts ++ more)).editor } ∧
      (((start p e).readParts parts).crash = none → more = []) := by
  obtain ⟨herrors, hfault⟩ : ((start p e).readParts (outputParts p)).errors =
      some (cutLines p.err) ∧ ((start p e).readParts (outputParts p)).fault = none :=
    (start p e).errors_readOutputs (p.outChunks.length + 1) readSize
  unfold initWith
  dsimp only
  by_cases ho : ((start p e).readParts (outputParts p)).isOver
  · rw [if_pos ho, ← readParts_append]
    refine ⟨_, _, ho, rfl, fun hc => ?_⟩
    have hended := ended_of_isOver ho (by rw [hc, hfault]; rfl)
    cases herrors.symm.trans hended.2.2.2
  · rw [if_neg ho, ← readParts_append]
    refine ⟨outputParts p ++ errorParts p, [], ?_, by rw [List.append_nil], fun _ => rfl⟩
    -- The run was not left yet, so the output ended without a crash, and the error stream ends now.
    have hout : ((start p e).readParts (outputParts p)).output = none :=
      (output_ends rfl rfl rfl).resolve_left fun hc => ho (Bool.or_eq_true_iff.mpr (.inl hc))
    obtain ⟨hsame, -⟩ := ((start p e).readParts (outputParts p)).output_readErrors
      ((cutLines p.err).length + 1)
    rw [readParts_append, isOver, errorParts, hsame, hout]
    rcases errors_end herrors with herr | herr
    · simp [herr]
    · simp [herr]

/-- Whatever is read first of its streams, a run that begins a project is left with its process
waited for and its error stream read to the end just when it ends without a crash. After a crash
nobody waits for the process and nobody kills it. A run crashes just when the editor refuses a line
of either stream, or a line of the output aborts, or a line of the error stream is too long. -/
theorem init_reaped_iff (t : Toolchain) (p : Script) (e : Editor) :
    (∀ parts, ((start p e).readParts parts).isOver →
      let r := ((start p e).readParts parts).leave t
      (r.Reaped ↔ ∀ c, r.result ≠ .error (.crash c)) ∧
      ((∃ c, r.result = .error (.crash c)) ↔ r.process.calls = []) ∧
      ((∃ c, r.result = .error (.crash c)) ↔ OutputFails p e ∨ ErrorsFail p e)) ∧
    (∃ parts more, ((start p e).readParts parts).isOver ∧
      t.initWith p e = { ((start p e).readParts parts).leave t with
        editor := ((start p e).readParts (parts ++ more)).editor } ∧
      (((start p e).readParts parts).crash = none → more = [])) ∧
    ∀ w e', (t.spawn initArgs none w).1 = .ok p → e'.showOutput = e →
      (t.initProject e' w).1 = (t.initWith p e).result := by
  refine ⟨fun parts ho => ((Reads.start p e).readParts parts).leave t ho,
    t.exists_parts_initWith p e, ?_⟩
  rintro w e' hp rfl
  rw [initProject]
  dsimp only
  rw [hp]

end Toolchain

open Toolchain.Beginning Surroundings in
/-- An editor that takes one line: the second line of the output ends the run, whether or not the
error stream has been read before. -/
theorem Toolchain.init_reaped_iff_of_second_line :
    let p : Script := { out := Utf8.encode "x\ny\n", err := Utf8.encode "tail\n" }
    let tc : Toolchain := ⟨Text.ofString "/opt/reproto", none⟩
    ∀ parts ∈ [[.output 9], [.error, .output 0, .output 0, .error, .output 0, .output 0]],
      let b := (start p { nextLines := [true, false] }).readParts parts
      b.isOver ∧ (b.leave tc).process.calls = [] ∧ ¬ (b.leave tc).Reaped := by
  intro p tc parts hparts
  have hlines : (linesOf p).length = 2 := by decide +kernel
  have hfails : OutputFails p { nextLines := [true, false] } := by
    refine .inl fun h => ?_
    cases h 1 (by rw [hlines]; decide)
  have hover : ((start p { nextLines := [true, false] }).readParts parts).isOver := by
    simp only [List.mem_cons, List.not_mem_nil, or_false] at hparts
    rcases hparts with rfl | rfl <;> decide +kernel
  obtain ⟨hreaped, hcalls, hcrash⟩ :=
    (init_reaped_iff tc p { nextLines := [true, false] }).1 parts hover
  obtain ⟨c, hc⟩ := hcrash.mpr (.inl hfails)
  exact ⟨hover, hcalls.mp ⟨c, hc⟩, fun h => hreaped.mp h c hc⟩

open Toolchain.Beginning Surroundings in
/-- Where the editor is closed a run that begins a project leaves its process running and its error
stream unread; a build with the same process kills it and waits for it. -/
theorem Toolchain.init_leaves_process :
    let p : Script := { out := Utf8.encode "x\n", err := Utf8.encode "tail\n" }
    let tc : Toolchain := ⟨Text.ofString "/opt/reproto", none⟩
    let r := tc.initWith p { closed := true }
    let s := Session.create (Text.ofString "/ws") tc
    r.process.calls = [] ∧ r.drained = false ∧ ¬ r.Reaped ∧
      (s.run (.ok p) {} { closed := true }).process.map Process.calls =
        some [.kill true, .wait] := by
  intro p tc r s
  have hcalls : r.process.calls = [] := by decide +kernel
  refine ⟨hcalls, ?_, fun h => h.asked hcalls, ?_⟩
  · decide +kernel
  · decide +kernel

end Workbench
