import Mathlib.Data.Nat.Notation
import Workbench.Proofs.Fold
import Workbench.Stream.Pump

/-! # Pumping is decoding and then routing

A pump that hands on every item as soon as its line has been read does what a run of
its decoder comes to, with the items handed on afterwards. What ends the pumping is the
first failure of a handler, or the abort behind all items.
-/

namespace Workbench

variable {σ ε : Type}

namespace Routed

def dispatchAll (h : Handlers σ ε) (r : Routed σ) (items : List Item) : Routed σ × Option ε :=
  foldUntil (dispatch h) r items

theorem dispatchAll_append (h : Handlers σ ε) (r : Routed σ) (a b : List Item) :
    r.dispatchAll h (a ++ b) = match r.dispatchAll h a with
      | (r, some e) => (r, some e)
      | (r, none) => r.dispatchAll h b := by
  simp only [dispatchAll, foldUntil_append]
  rcases foldUntil (dispatch h) r a with ⟨r', _ | e⟩ <;> rfl

theorem dispatchAll_singleton (h : Handlers σ ε) (r : Routed σ) (item : Item) :
    r.dispatchAll h [item] = r.dispatch h item :=
  foldUntil_singleton _ r item

end Routed

namespace Pump

variable {h : Handlers σ Crash} {p q : Pump σ} {crash : Option Crash} {r : Decoder.Run}

def routed (p : Pump σ) : Routed σ := ⟨p.counts, p.state⟩

/-- The pump went from one state to another and ended as a run of its decoder did, with
the items of the run handed on. -/
structure Agrees (h : Handlers σ Crash) (p q : Pump σ) (crash : Option Crash)
    (r : Decoder.Run) : Prop where
  routed : q.routed = (p.routed.dispatchAll h r.items).1
  ending : crash = (p.routed.dispatchAll h r.items).2.or (r.aborted.map .aborted)
  decoder : crash = none → q.decoder = r.decoder

theorem Agrees.of_none (h₁ : Agrees h p q none r) :
    r.aborted = none ∧ p.routed.dispatchAll h r.items = (q.routed, none) := by
  obtain ⟨hn, ha⟩ := Option.or_eq_none_iff.mp h₁.ending.symm
  exact ⟨Option.map_eq_none_iff.mp ha, Prod.ext h₁.routed.symm hn⟩

theorem Agrees.of_routed {p' : Pump σ} (h₁ : Agrees h p q crash r)
    (hp : p.routed = p'.routed) : Agrees h p' q crash r :=
  ⟨hp ▸ h₁.routed, hp ▸ h₁.ending, h₁.decoder⟩

theorem Agrees.append {q' : Pump σ} {r' : Decoder.Run} (h₁ : Agrees h p q none r)
    (h₂ : Agrees h q q' crash r') :
    Agrees h p q' crash { r' with items := r.items ++ r'.items } := by
  have hd : p.routed.dispatchAll h (r.items ++ r'.items) = q.routed.dispatchAll h r'.items := by
    rw [Routed.dispatchAll_append, h₁.of_none.2]
  exact ⟨by rw [hd]; exact h₂.routed, by rw [hd]; exact h₂.ending, h₂.decoder⟩

/-- What would have come after a failure of a handler does not matter. -/
theorem Agrees.append_of_some {c : Crash} (h₁ : Agrees h p q (some c) r)
    (hr : r.aborted = none) (items : List Item) (d : Decoder) (a : Option Abort) :
    Agrees h p q (some c) ⟨r.items ++ items, d, a⟩ := by
  have hc := h₁.ending
  rw [hr, Option.map_none, Option.or_none] at hc
  have hd : p.routed.dispatchAll h r.items = (q.routed, some c) :=
    Prod.ext h₁.routed.symm hc.symm
  have hda : p.routed.dispatchAll h (r.items ++ items) = (q.routed, some c) := by
    rw [Routed.dispatchAll_append, hd]
  exact ⟨by rw [hda], by rw [hda]; rfl, nofun⟩

variable [Json.Nesting] [Field.Coercion]

theorem agrees_readLine (h : Handlers σ Crash) (p : Pump σ) (line : Text) :
    Agrees h p (readLine h p line).1 (readLine h p line).2 (p.decoder.readLines [line]) := by
  unfold readLine Decoder.readLines
  rcases p.decoder.readLine line with a | ⟨_ | item, d⟩
  · exact ⟨rfl, rfl, nofun⟩
  · exact ⟨rfl, rfl, fun _ => rfl⟩
  · have hd := Routed.dispatchAll_singleton h p.routed item
    refine ⟨?_, ?_, fun _ => rfl⟩
    · exact (congrArg Prod.fst hd).symm
    · exact (Option.or_none.trans (congrArg Prod.snd hd)).symm

theorem readLines_cons (d : Decoder) (line : Text) (rest : List Text) :
    d.readLines (line :: rest) = match (d.readLines [line]).aborted with
      | some _ => d.readLines [line]
      | none =>
        { (d.readLines [line]).decoder.readLines rest with
          items := (d.readLines [line]).items ++
            ((d.readLines [line]).decoder.readLines rest).items } := by
  simp only [Decoder.readLines]
  rcases d.readLine line with a | ⟨item, d'⟩
  · rfl
  · simp

theorem agrees_readLines (h : Handlers σ Crash) (p : Pump σ) (lines : List Text) :
    Agrees h p (foldUntil (readLine h) p lines).1 (foldUntil (readLine h) p lines).2
      (p.decoder.readLines lines) := by
  induction lines generalizing p with
  | nil => exact ⟨rfl, rfl, fun _ => rfl⟩
  | cons line rest ih =>
    have hl := agrees_readLine h p line
    rw [foldUntil, readLines_cons]
    rcases hr : readLine h p line with ⟨q, _ | c⟩
    · rw [hr] at hl
      rw [hl.of_none.1, ← hl.decoder rfl]
      exact hl.append (ih q)
    · rw [hr] at hl
      cases ha : (p.decoder.readLines [line]).aborted with
      | some a => exact hl
      | none => exact hl.append_of_some ha _ _ _

theorem agrees_readChunk (h : Handlers σ Crash) (p : Pump σ) (c : Chunk) :
    Agrees h p (readChunk h p c).1 (readChunk h p c).2 (p.decoder.feed c) :=
  (agrees_readLines h { p with decoder := (p.decoder.take c).2 } _).of_routed rfl

theorem agrees_readLast (h : Handlers σ Crash) (p : Pump σ) :
    Agrees h p (readLast h p).1 (readLast h p).2 p.decoder.finish :=
  (agrees_readLine h { p with decoder := p.decoder.takeLast.2 } _).of_routed rfl

/-- Reading a whole stream is a run of the decoder with its items handed on. -/
theorem agrees_readAll (h : Handlers σ Crash) (p : Pump σ) (chunks : List Chunk) :
    Agrees h p (readAll h p chunks).1 (readAll h p chunks).2 (p.decoder.run chunks) := by
  induction chunks generalizing p with
  | nil => exact agrees_readLast h p
  | cons c cs ih =>
    have hc := agrees_readChunk h p c
    rw [readAll, foldUntil, Decoder.run]
    rcases hr : readChunk h p c with ⟨q, _ | e⟩
    · rw [hr] at hc
      rw [hc.of_none.1, ← hc.decoder rfl]
      exact hc.append (ih q)
    · rw [hr] at hc
      cases ha : (p.decoder.feed c).aborted with
      | some a => exact hc
      | none => exact hc.append_of_some ha _ _ _

omit [Json.Nesting] [Field.Coercion] in
theorem Agrees.keeps {P : σ → Prop} (ha : Agrees h p q crash r)
    (hP : ∀ item s, P s → P (h.dispatch item s).1) (hp : P p.state) : P q.state := by
  have hstep (r : Routed σ) (item : Item) (hr : P r.state) : P (r.dispatch h item).1.state ∧
      ∀ e, (r.dispatch h item).2 = some e → True :=
    ⟨hP item r.state hr, fun _ _ => trivial⟩
  have hr := (foldUntil_keeps (P := fun r : Routed σ => P r.state) (Q := fun _ => True) hstep
    (s := p.routed) hp r.items).1
  exact (congrArg (fun r : Routed σ => P r.state) ha.routed).mpr hr

end Pump

end Workbench
