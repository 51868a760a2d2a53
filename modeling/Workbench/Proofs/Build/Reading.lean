import Workbench.Build.Reading
import Workbench.Proofs.Build.Abort

/-! # What a session has read

The output of a build comes in chunks of any sizes, with the error stream in between. What
a session has gathered is told by the items on the lines that are complete, so at the end
it is told by the whole output, as if that had been read at once.
-/

namespace Workbench

variable [Surroundings]

namespace Decoder

def part (d : Decoder) : Option (List UInt8) → Run
  | some chunk => d.feed (.bytes chunk)
  | none => d.finish

/-- A part that is read from some octets, and what is left; behind the octets is the end. -/
inductive Cut : List UInt8 → Option (List UInt8) → Option (List UInt8) → Prop where
  | chunk {bytes chunk rest : List UInt8} (h : chunk ++ rest = bytes) :
      Cut bytes (some chunk) (some rest)
  | last : Cut [] none none

/-- The items that are to come, in whatever chunks, and the abort behind them. After the end
there is nothing to come. -/
inductive Expects (d : Decoder) : Option (List UInt8) → List Item → Option Abort → Prop where
  | more {bytes : List UInt8} {items : List Item} {a : Option Abort}
      (h : ∀ chunks : List (List UInt8), chunks.flatten = bytes →
        (d.run (chunks.map .bytes)).items = items ∧ (d.run (chunks.map .bytes)).aborted = a) :
      d.Expects (some bytes) items a
  | over : d.Expects none [] none

variable {d : Decoder} {bytes : List UInt8} {piece left : Option (List UInt8)}
  {items : List Item} {a : Option Abort}

theorem expects_empty (bytes : List UInt8) :
    empty.Expects (some bytes) (Stream.items bytes).1 (Stream.items bytes).2 := by
  refine .more fun chunks he => ?_
  rw [← he]
  exact ⟨fresh_items chunks, fresh_aborted chunks⟩

theorem Expects.of_none (h : d.Expects none items a) : items = [] ∧ a = none := by
  cases h
  exact ⟨rfl, rfl⟩

/-- A part brings the first of the items to come, and what is expected then is the others. -/
theorem Expects.part (h : d.Expects (some bytes) items a) (hc : Cut bytes piece left) :
    ∃ later, items = (d.part piece).items ++ later ∧
      (∀ b, (d.part piece).aborted = some b → a = some b) ∧
      ((d.part piece).aborted = none → (d.part piece).decoder.Expects left later a) := by
  obtain ⟨h⟩ := h
  cases hc with
  | last =>
    obtain ⟨hi, rfl⟩ := h [] rfl
    refine ⟨[], (hi.symm.trans (List.append_nil _).symm), fun _ hb => hb, fun hb => ?_⟩
    rw [show (d.run ([].map Chunk.bytes)).aborted = none from hb]
    exact .over
  | @chunk _ chunk rest hb =>
    -- Whichever way the rest is cut, this chunk comes first, and so do its items.
    have hc (chunks : List (List UInt8)) (he : chunks.flatten = rest) :=
      h (chunk :: chunks) (by rw [List.flatten_cons, he, hb])
    have hr := hc [rest] (List.append_nil rest)
    simp only [List.map_cons, run, Decoder.part] at hc hr ⊢
    cases ha : (d.feed (.bytes chunk)).aborted with
    | some b =>
      simp only [ha] at hr
      exact ⟨[], hr.1.symm.trans (List.append_nil _).symm, fun _ hb => hr.2.symm.trans hb, by simp⟩
    | none =>
      simp only [ha] at hc hr
      refine ⟨_, hr.1.symm, by simp, fun _ => .more fun chunks he => ⟨?_, (hc chunks he).2⟩⟩
      exact List.append_cancel_left ((hc chunks he).1.trans hr.1.symm)

theorem errors_part (d : Decoder) (piece : Option (List UInt8)) :
    (d.part piece).decoder.errors = d.errors + (d.part piece).items.countP Item.isFailure := by
  cases piece with
  | none => exact (readLines_counts _ _).2
  | some chunk => exact (readLines_counts _ _).2

end Decoder

namespace Session

inductive Stops (root : Text) : List Item × Option Abort → Crash → Prop where
  | refused {items : List Item} {a : Option Abort} {item : Item} {e : Editor} {c : Crash}
      (hi : item ∈ items) (hc : Refused root e item c) : Stops root (items, a) c
  | aborted {items : List Item} {a : Abort} : Stops root (items, some a) (.aborted a)

theorem Stops.mono {root : Text} {o o' : List Item × Option Abort} {c : Crash}
    (h : Stops root o c) (hi : o.1 ⊆ o'.1) (ha : ∀ a, o.2 = some a → o'.2 = some a) :
    Stops root o' c := by
  obtain ⟨items', a'⟩ := o'
  cases h with
  | refused hm hc => exact .refused (hi hm) hc
  | aborted =>
    obtain rfl : a' = some _ := ha _ rfl
    exact .aborted

theorem exists_afterPump (s : Session) (e : Editor) (piece : Option (List UInt8)) :
    ∃ out, s.readPart e piece = s.afterPump out ∧
      Pump.Agrees (handlers s.root) (s.pump e) out.1 out.2 (s.decoder.part piece) := by
  cases piece with
  | none => exact ⟨_, rfl, Pump.agrees_readLast _ _⟩
  | some chunk => exact ⟨_, rfl, Pump.agrees_readChunk _ _ _⟩

variable {s : Session} {e : Editor} {piece : Option (List UInt8)} {c : Crash}

theorem readPart_none (h : (s.readPart e piece).2.2 = none) :
    (s.decoder.part piece).aborted = none ∧
      (s.readPart e piece).1.decoder = (s.decoder.part piece).decoder ∧
      ∃ ds ss, Gathered s.root (s.decoder.part piece).items ds ss ∧
        (s.readPart e piece).1.findings = s.findings.add ds ss := by
  obtain ⟨⟨q, crash⟩, ho, ha⟩ := exists_afterPump s e piece
  rw [ho] at h ⊢
  obtain rfl : crash = none := h
  obtain ⟨hn, hd⟩ := ha.of_none
  exact ⟨hn, ha.decoder rfl, dispatchAll_handlers hd⟩

theorem readPart_some (h : (s.readPart e piece).2.2 = some c) :
    Stops s.root ((s.decoder.part piece).items, (s.decoder.part piece).aborted) c := by
  obtain ⟨⟨q, crash⟩, ho, ha⟩ := exists_afterPump s e piece
  rw [ho] at h
  obtain rfl : crash = some c := h
  rcases Option.or_eq_some_iff.mp ha.ending.symm with hr | ⟨-, hb⟩
  · obtain ⟨before, item, after, q, hi, -, hr⟩ := foldUntil_eq_some_iff.mp hr
    refine .refused ?_ (dispatch_handlers_eq_some_iff.mp hr)
    rw [hi]
    exact List.mem_append_right _ List.mem_cons_self
  · obtain ⟨a, hs, rfl⟩ := Option.map_eq_some_iff.mp hb
    rw [hs]
    exact .aborted

theorem root_readPart (s : Session) (e : Editor) (piece : Option (List UInt8)) :
    (s.readPart e piece).1.root = s.root := by
  cases piece <;> rfl

end Session

namespace Reading

variable {root : Text} {p : Script} {r : Reading}

/-- A session that reads the output of a process has gathered what the items until now
tell of and counted the failures among them, or else has been stopped by the output. Of an empty
error stream nothing is handed on. -/
structure Reads (r : Reading) (root : Text) (p : Script) : Prop where
  script_eq : r.script = p
  root_eq : r.session.root = Path.absolute root
  stopped : ∀ c, r.crash = some c → Session.Stops (Path.absolute root) (Stream.items p.out) c
  gathered : r.crash = none → ∃ items later ds ss, Gathered (Path.absolute root) items ds ss ∧
    r.session.findings = Findings.add {} ds ss ∧ (Stream.items p.out).1 = items ++ later ∧
    r.session.decoder.Expects r.output later (Stream.items p.out).2 ∧
    r.session.decoder.errors = items.countP Item.isFailure
  silent : p.err = [] → r.fault = none ∧ ∀ q, r.errors = some q → q = (.start, [])

omit [Surroundings] in
theorem exists_afterErrors (r : Reading) (left : Option (Utf8.State × List UInt8))
    (out : Editor × Option Crash) :
    ∃ errors fault, r.afterErrors left out = ({ r with errors, fault }, out.1) := by
  obtain ⟨e, _ | c⟩ := out
  · exact ⟨_, _, rfl⟩
  · exact ⟨_, _, rfl⟩

omit [Surroundings] in
theorem exists_readErrors (r : Reading) (e : Editor) (n : Nat) :
    ∃ errors fault, (r.readErrors e n).1 = { r with errors, fault } := by
  unfold readErrors
  split
  · exact ⟨_, _, rfl⟩
  · obtain ⟨errors, fault, h⟩ := r.exists_afterErrors none (Session.forwardTail _ e)
    exact ⟨errors, fault, congrArg Prod.fst h⟩
  · obtain ⟨errors, fault, h⟩ := r.exists_afterErrors _ _
    exact ⟨errors, fault, congrArg Prod.fst h⟩

omit [Surroundings] in
theorem ended_eq_none_iff : r.ended = none ↔ r.fault = none ∧ r.crash = none :=
  Option.or_eq_none_iff

namespace Reads

theorem start (root : Text) (t : Toolchain) (p : Script) :
    (Reading.start (Session.create root t) p).Reads root p where
  script_eq := rfl
  root_eq := rfl
  stopped := nofun
  gathered _ := ⟨[], _, [], [], .nil, (Findings.add_nil _).symm, rfl,
    Decoder.expects_empty p.out, rfl⟩
  silent he := by
    refine ⟨rfl, ?_⟩
    rintro _ ⟨⟩
    rw [he]

theorem readErrors (h : r.Reads root p) (e : Editor) (n : Nat) :
    (r.readErrors e n).1.Reads root p := by
  have hsilent (he : p.err = []) : (r.readErrors e n).1.fault = none ∧
      ∀ q, (r.readErrors e n).1.errors = some q → q = (.start, []) := by
    obtain ⟨hf, hq⟩ := h.silent he
    unfold Reading.readErrors
    split
    · exact ⟨hf, hq⟩
    · next hu => cases hq _ hu; exact ⟨hf, nofun⟩
    · next hb hu => cases hq _ hu; exact absurd rfl hb
  obtain ⟨errors, fault, he⟩ := r.exists_readErrors e n
  rw [he] at hsilent ⊢
  exact ⟨h.script_eq, h.root_eq, h.stopped, h.gathered, hsilent⟩

theorem readPart (h : r.Reads root p) (e : Editor) (hc : r.crash = none) {bytes : List UInt8}
    (hb : r.output = some bytes) {piece left : Option (List UInt8)}
    (hp : Decoder.Cut bytes piece left) :
    (r.afterPart left (r.session.readPart e piece)).1.Reads root p := by
  obtain ⟨items, later, ds, ss, hg, hf, hi, hx, he⟩ := h.gathered hc
  rw [hb] at hx
  obtain ⟨rest, hl, ha, hx⟩ := hx.part hp
  refine ⟨h.script_eq, (r.session.root_readPart e piece).trans h.root_eq, fun c hs => ?_,
    fun hn => ?_, h.silent⟩
  · rw [← h.root_eq]
    refine (Session.readPart_some hs).mono ?_ ha
    rw [hi, hl]
    exact fun i hm => List.mem_append_right _ (List.mem_append_left _ hm)
  · obtain ⟨hna, hd, ds', ss', hg', hf'⟩ := Session.readPart_none hn
    rw [h.root_eq] at hg'
    refine ⟨_, rest, _, _, hg.append hg', ?_, ?_, ?_, ?_⟩
    · rw [← Findings.add_add, ← hf]
      exact hf'
    · rw [hi, hl, List.append_assoc]
    · exact (congrArg (Decoder.Expects · left rest _) hd).mpr (hx hna)
    · rw [List.countP_append, ← he, ← Decoder.errors_part]
      exact congrArg Decoder.errors hd

theorem readOutput (h : r.Reads root p) (e : Editor) (n : Nat) :
    (r.readOutput e n).1.Reads root p := by
  unfold Reading.readOutput
  split
  · next hc hb => exact h.readPart e hc hb .last
  · next bytes _ hc hb => exact h.readPart e hc hb (.chunk (List.take_append_drop _ _))
  · exact h

/-- What has ended the reading is in the output, or the error stream has come to the editor. -/
theorem cases_ended (h : r.Reads root p) {c : Crash} (hc : r.ended = some c) :
    Session.Stops (Path.absolute root) (Stream.items p.out) c ∨ p.err ≠ [] := by
  rcases Option.or_eq_some_iff.mp hc with hf | ⟨-, hc⟩
  · refine .inr fun he => ?_
    cases hf.symm.trans (h.silent he).1
  · exact .inl (h.stopped c hc)

theorem gathered_all (h : r.Reads root p) (hc : r.crash = none) (ho : r.output = none) :
    (Stream.items p.out).2 = none ∧
      r.session.decoder.errors = (Stream.items p.out).1.countP Item.isFailure ∧
      ∃ ds ss, Gathered (Path.absolute root) (Stream.items p.out).1 ds ss ∧
        r.session.findings = Findings.add {} ds ss := by
  obtain ⟨items, later, ds, ss, hg, hf, hi, hx, he⟩ := h.gathered hc
  rw [ho] at hx
  obtain ⟨rfl, ha⟩ := hx.of_none
  obtain rfl := hi.trans (List.append_nil items)
  exact ⟨ha, he, ds, ss, hg, hf⟩

end Reads

/-! ## A session alone -/

section Alone

variable {e : Editor} {bytes : List UInt8}

omit [Surroundings] in
theorem chunksOf_readSize (bytes : List UInt8) : chunksOf readSize bytes =
    if bytes = [] then [] else bytes.take readSize :: chunksOf readSize (bytes.drop readSize) := by
  rw [chunksOf]
  split_ifs with h h₁
  · rfl
  · exact absurd h (not_or.mpr ⟨h₁, by decide⟩)
  · exact absurd (.inl ‹_›) h
  · rfl

omit [Surroundings] in
theorem eq_nil_of_chunksOf (h : chunksOf readSize bytes = []) : bytes = [] := by
  rw [chunksOf_readSize] at h
  split_ifs at h with hb
  exact hb

omit [Surroundings] in
theorem cons_of_chunksOf {chunk : List UInt8} {chunks : List (List UInt8)}
    (h : chunksOf readSize bytes = chunk :: chunks) :
    (∃ b bs, bytes = b :: bs) ∧ chunk = bytes.take readSize ∧
      chunksOf readSize (bytes.drop readSize) = chunks := by
  rw [chunksOf_readSize] at h
  split_ifs at h with hb
  obtain ⟨hc, hcs⟩ := List.cons.inj h
  exact ⟨List.exists_cons_of_ne_nil hb, hc.symm, hcs⟩

def outputStep (q : Reading × Editor) : Reading × Editor := q.1.readOutput q.2 readSize

def errorStep (q : Reading × Editor) : Reading × Editor := q.1.readErrors q.2 readSize

theorem readOutput_cons (s : Session) (e : Editor) (chunk : List UInt8)
    (chunks : List (List UInt8)) :
    s.readOutput e (chunk :: chunks) = match s.readPart e (some chunk) with
      | (s, e, some c) => (s, e, some c)
      | (s, e, none) => s.readOutput e chunks := by
  rw [Session.readOutput, List.map_cons, Pump.readAll, foldUntil, Session.readPart]
  rcases Pump.readChunk (Session.handlers s.root) (s.pump e) (.bytes chunk) with ⟨q, _ | c⟩
  · rfl
  · rfl

theorem exists_iterate_outputStep (hc : r.crash = none) (hb : r.output = some bytes) :
    ∃ n o, outputStep^[n] (r, e) =
        r.afterPart o (r.session.readOutput e (chunksOf readSize bytes)) ∧
      ((r.session.readOutput e (chunksOf readSize bytes)).2.2 = none → o = none) := by
  generalize hcs : chunksOf readSize bytes = chunks
  induction chunks generalizing r e bytes with
  | nil =>
    obtain rfl := eq_nil_of_chunksOf hcs
    refine ⟨1, none, ?_, fun _ => rfl⟩
    rw [Function.iterate_one, outputStep, readOutput, hc, hb]
    rfl
  | cons chunk chunks ih =>
    obtain ⟨⟨b, bs, rfl⟩, rfl, hrest⟩ := cons_of_chunksOf hcs
    have hstep : outputStep (r, e) = r.afterPart (some ((b :: bs).drop readSize))
        (r.session.readPart e (some ((b :: bs).take readSize))) := by
      rw [outputStep, readOutput, hc, hb]
      rfl
    rw [readOutput_cons]
    rcases hp : r.session.readPart e (some ((b :: bs).take readSize)) with ⟨s, e', _ | c⟩
    · rw [hp] at hstep
      obtain ⟨n, o, hn, ho⟩ := ih (r := (r.afterPart (some ((b :: bs).drop readSize))
        (s, e', none)).1) (e := e') rfl rfl hrest
      exact ⟨n + 1, o, by rw [Function.iterate_succ_apply, hstep]; exact hn, ho⟩
    · rw [hp] at hstep
      exact ⟨1, _, hstep, nofun⟩

omit [Surroundings] in
theorem exists_iterate_errorStep {u : Utf8.State} (hb : r.errors = some (u, bytes)) :
    ∃ n, errorStep^[n] (r, e) = r.afterErrors none
      (foldUntil (Editor.add · .piece ·) e (Session.pieces u (chunksOf readSize bytes))) := by
  generalize hcs : chunksOf readSize bytes = chunks
  induction chunks generalizing r e u bytes with
  | nil =>
    obtain rfl := eq_nil_of_chunksOf hcs
    refine ⟨1, ?_⟩
    rw [Function.iterate_one, errorStep, readErrors, hb, ← Session.forwardTail_eq]
  | cons chunk chunks ih =>
    obtain ⟨⟨b, bs, rfl⟩, rfl, hrest⟩ := cons_of_chunksOf hcs
    have hstep : errorStep (r, e) = r.afterErrors
        (some ((Utf8.feed u ((b :: bs).take readSize)).2, (b :: bs).drop readSize))
        (e.add .piece (Utf8.feed u ((b :: bs).take readSize)).1) := by
      rw [errorStep, readErrors, hb]
      rfl
    rw [Session.pieces, foldUntil]
    rcases hadd : e.add .piece (Utf8.feed u ((b :: bs).take readSize)).1 with ⟨e', _ | c⟩
    · rw [hadd] at hstep
      obtain ⟨n, hn⟩ := ih (e := e')
        (r := { r with
          errors := some ((Utf8.feed u ((b :: bs).take readSize)).2, (b :: bs).drop readSize) })
        rfl hrest
      refine ⟨n + 1, ?_⟩
      rw [Function.iterate_succ_apply, hstep]
      refine hn.trans ?_
      dsimp only
      rcases foldUntil (Editor.add · .piece ·) e' _ with ⟨e'', _ | c⟩
      · rfl
      · rfl
    · rw [hadd] at hstep
      exact ⟨1, hstep⟩

end Alone

end Reading

end Workbench
