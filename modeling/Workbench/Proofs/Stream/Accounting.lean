import Mathlib.Logic.Relation
import Workbench.Proofs.Stream.Isolation
import Workbench.Proofs.Stream.Pumping
import Workbench.Surroundings

/-! # What is decoded is what is routed

A stream is pumped item by item, and whoever pumps may go on behind an item that a handler
failed on. The decoder counts what it reads and the router what it is handed; at every item
the two accounts agree, and each handler has been called with the items of its kind.
-/

namespace Workbench

/-! ## Kinds -/

inductive Item.Kind where
  | diagnostic
  | symbol
  | log
  | unknown
  | failure
deriving DecidableEq

namespace Item

def kind : Item → Kind
  | record (.diagnostic _) => .diagnostic
  | record (.symbol _) => .symbol
  | record (.log _) => .log
  | record (.unknown ..) => .unknown
  | failure _ => .failure

def isKnown : Item → Bool
  | record (.unknown ..) => false
  | record _ => true
  | failure _ => false

end Item

def RouteCounts.of (c : RouteCounts) : Item.Kind → ℕ
  | .diagnostic => c.diagnostics
  | .symbol => c.symbols
  | .log => c.logs
  | .unknown => c.unknown
  | .failure => c.decodeErrors

theorem RouteCounts.of_add (c : RouteCounts) (item : Item) (k : Item.Kind) :
    (c.add item).of k = c.of k + [item].countP (·.kind = k) := by
  rcases item with ((_ | _ | _ | _) | _) <;> cases k <;> rfl

/-! ## Calls -/

namespace Handlers

variable {σ ε α : Type}

structure Call where
  handler : Item.Kind
  item : Item

def handles (h : Handlers σ ε) : Item.Kind → Bool
  | .diagnostic => h.onDiagnostic.isSome
  | .symbol => h.onSymbol.isSome
  | .log => h.onLog.isSome
  | .unknown => false
  | .failure => h.onDecodeError.isSome

def written (k : Item.Kind) (item : α → Item) (f : α → σ → σ × Option ε) (a : α)
    (s : σ × List Call) : (σ × List Call) × Option ε :=
  (((f a s.1).1, s.2 ++ [⟨k, item a⟩]), (f a s.1).2)

def recording (h : Handlers σ ε) : Handlers (σ × List Call) ε where
  onDiagnostic := h.onDiagnostic.map (written .diagnostic (.record ∘ .diagnostic))
  onSymbol := h.onSymbol.map (written .symbol (.record ∘ .symbol))
  onLog := h.onLog.map (written .log (.record ∘ .log))
  onDecodeError := h.onDecodeError.map (written .failure .failure)

def calls (h : Handlers σ ε) (items : List Item) : List Call :=
  (items.filter (h.handles ·.kind)).map fun item => ⟨item.kind, item⟩

theorem calls_append (h : Handlers σ ε) (a b : List Item) :
    h.calls (a ++ b) = h.calls a ++ h.calls b := by
  rw [calls, List.filter_append, List.map_append, calls, calls]

theorem calls_singleton (h : Handlers σ ε) (item : Item) :
    h.calls [item] = if h.handles item.kind then [⟨item.kind, item⟩] else [] := by
  rw [calls, List.filter_singleton]
  cases h.handles item.kind <;> rfl

theorem call_written (handler : Option (α → σ → σ × Option ε)) (k : Item.Kind)
    (item : α → Item) (a : α) (s : σ) (calls : List Call) :
    call (handler.map (written k item)) a (s, calls) =
      (((call handler a s).1, calls ++ if handler.isSome then [⟨k, item a⟩] else []),
        (call handler a s).2) := by
  cases handler with
  | none => exact congrArg (fun c => ((s, c), none)) (List.append_nil calls).symm
  | some f => rfl

theorem dispatch_recording (h : Handlers σ ε) (item : Item) (s : σ) (calls : List Call) :
    h.recording.dispatch item (s, calls) =
      (((h.dispatch item s).1, calls ++ h.calls [item]), (h.dispatch item s).2) := by
  rw [calls_singleton]
  rcases item with ((r | r | r | _) | e)
  · exact call_written h.onDiagnostic ..
  · exact call_written h.onSymbol ..
  · exact call_written h.onLog ..
  · exact congrArg (fun c => ((s, c), none)) (List.append_nil calls).symm
  · exact call_written h.onDecodeError ..

def calledWith (k : Item.Kind) (calls : List Call) : List Item :=
  (calls.filter (·.handler = k)).map Call.item

theorem calledWith_calls (h : Handlers σ ε) (items : List Item) {k : Item.Kind}
    (hk : h.handles k) : calledWith k (h.calls items) = items.filter (·.kind = k) := by
  have hf (item : Item) (_ : item ∈ items) :
      (decide (item.kind = k) && h.handles item.kind) = decide (item.kind = k) := by
    by_cases hi : item.kind = k <;> simp [hi, hk]
  rw [calledWith, calls, List.filter_map, List.map_map, List.filter_filter]
  exact (List.map_id _).trans (List.filter_congr hf)

theorem of_mem_calls {h : Handlers σ ε} {items : List Item} {c : Call}
    (hc : c ∈ h.calls items) : h.handles c.handler ∧ c.item.kind = c.handler := by
  obtain ⟨item, hi, rfl⟩ := List.mem_map.mp hc
  exact ⟨(List.mem_filter.mp hi).2, rfl⟩

end Handlers

/-! ## Items one at a time -/

/-- A stream in the middle of being pumped. -/
structure Flow (σ : Type) where
  /-- The chunks that are still to come; none once the stream has ended. -/
  coming : Option (List Chunk)
  /-- The lines that were completed and have not been read. -/
  waiting : List Text := []
  /-- The lines that nobody went on to. -/
  lost : List Text := []
  items : List Item := []
  pump : Pump σ

namespace Flow

variable {σ : Type} {h : Handlers σ Crash} {f g : Flow σ}

def start (s : σ) (chunks : List Chunk) : Flow σ := { coming := some chunks, pump := .start s }

variable [Json.Nesting] [Field.Coercion]

/-- The next chunk is asked for when no line is waiting. Behind an item that a handler failed
on the next line may be read, or the lines that wait are left. Behind a line that cannot be
read there is no other way than to leave them. -/
inductive Step (h : Handlers σ Crash) : Flow σ → Flow σ → Prop where

  | feed {c : Chunk} {cs : List Chunk} {lost : List Text} {items : List Item} {p : Pump σ} :
      Step h ⟨some (c :: cs), [], lost, items, p⟩
        ⟨some cs, (p.decoder.take c).1, lost, items, { p with decoder := (p.decoder.take c).2 }⟩

  | finish {lost : List Text} {items : List Item} {p : Pump σ} :
      Step h ⟨some [], [], lost, items, p⟩
        ⟨none, [p.decoder.takeLast.1], lost, items, { p with decoder := p.decoder.takeLast.2 }⟩

  | read {coming : Option (List Chunk)} {line : Text} {rest lost : List Text}
      {items : List Item} {p : Pump σ} {found : Option Item} {d : Decoder} :
      p.decoder.readLine line = .ok (found, d) →
      Step h ⟨coming, line :: rest, lost, items, p⟩
        ⟨coming, rest, lost, items ++ found.toList, (p.readLine h line).1⟩

  | leave {coming : Option (List Chunk)} {line : Text} {rest lost : List Text}
      {items : List Item} {p : Pump σ} :
      Step h ⟨coming, line :: rest, lost, items, p⟩ ⟨coming, [], lost ++ line :: rest, items, p⟩

abbrev Reaches (h : Handlers σ Crash) : Flow σ → Flow σ → Prop :=
  Relation.ReflTransGen (Step h)

/-! ### The pump of a session -/

theorem reaches_foldUntil_readLine (coming : Option (List Chunk)) (lines : List Text)
    (items : List Item) (p : Pump σ) :
    ∃ f : Flow σ, Reaches h ⟨coming, lines, [], items, p⟩ f ∧
      f.pump = (foldUntil (Pump.readLine h) p lines).1 ∧ f.coming = coming ∧ f.lost = [] ∧
      ((foldUntil (Pump.readLine h) p lines).2 = none → f.waiting = []) := by
  induction lines generalizing items p with
  | nil => exact ⟨_, .refl, rfl, rfl, rfl, fun _ => rfl⟩
  | cons line rest ih =>
    rw [foldUntil]
    cases hl : p.decoder.readLine line with
    | error a =>
      have hp : p.readLine h line = (p, some (.aborted a)) := by rw [Pump.readLine, hl]
      rw [hp]
      exact ⟨_, .refl, rfl, rfl, rfl, fun hn => absurd hn (Option.some_ne_none _)⟩
    | ok found =>
      have hs : Step h ⟨coming, line :: rest, [], items, p⟩ _ := .read hl
      rcases hp : p.readLine h line with ⟨q, _ | e⟩
      · obtain ⟨f, hr, hf⟩ := ih (items ++ found.1.toList) q
        rw [hp] at hs
        exact ⟨f, .head hs hr, hf⟩
      · rw [hp] at hs
        exact ⟨_, .single hs, rfl, rfl, rfl, fun hn => absurd hn (Option.some_ne_none _)⟩

theorem reaches_readChunk (c : Chunk) (cs : List Chunk) (items : List Item) (p : Pump σ) :
    ∃ f : Flow σ, Reaches h ⟨some (c :: cs), [], [], items, p⟩ f ∧
      f.pump = (Pump.readChunk h p c).1 ∧ f.coming = some cs ∧ f.lost = [] ∧
      ((Pump.readChunk h p c).2 = none → f.waiting = []) := by
  obtain ⟨f, hr, hf⟩ := reaches_foldUntil_readLine (h := h) (some cs) (p.decoder.take c).1
    items { p with decoder := (p.decoder.take c).2 }
  exact ⟨f, .head .feed hr, hf⟩

theorem reaches_readAll (chunks : List Chunk) (items : List Item) (p : Pump σ) :
    ∃ f : Flow σ, Reaches h ⟨some chunks, [], [], items, p⟩ f ∧
      f.pump = (Pump.readAll h p chunks).1 ∧ f.lost = [] := by
  induction chunks generalizing items p with
  | nil =>
    obtain ⟨f, hr, hf, -, hl, -⟩ := reaches_foldUntil_readLine (h := h) none
      [p.decoder.takeLast.1] items { p with decoder := p.decoder.takeLast.2 }
    rw [foldUntil_singleton] at hf
    exact ⟨f, .head .finish hr, hf, hl⟩
  | cons c cs ih =>
    obtain ⟨⟨_, _, _, items', _⟩, hr, rfl, rfl, rfl, hw⟩ :=
      reaches_readChunk (h := h) c cs items p
    rw [Pump.readAll, foldUntil]
    rcases hc : Pump.readChunk h p c with ⟨q, _ | e⟩
    · rw [hc] at hw hr
      cases hw rfl
      obtain ⟨g, hg, he⟩ := ih items' q
      exact ⟨g, hr.trans hg, he⟩
    · rw [hc] at hr
      exact ⟨_, hr, rfl, rfl⟩

/-! ### Accounts -/

structure Balanced (p : Pump σ) (items : List Item) : Prop where
  decoded : p.decoder.decoded = p.counts.diagnostics + p.counts.symbols + p.counts.logs +
    p.counts.unknown
  errors : p.decoder.errors = p.counts.decodeErrors
  routed : p.counts.routed = items.countP Item.isKnown
  counts : ∀ k, p.counts.of k = items.countP (·.kind = k)

omit [Json.Nesting] [Field.Coercion] in
theorem Balanced.start (s : σ) : Balanced (.start s) [] :=
  ⟨rfl, rfl, rfl, fun k => by cases k <;> rfl⟩

omit [Json.Nesting] [Field.Coercion] in
theorem Balanced.item {p : Pump σ} {items : List Item} (b : Balanced p items) (item : Item)
    (s : σ) : Balanced ⟨p.decoder.count item, p.counts.add item, s⟩ (items ++ [item]) := by
  obtain ⟨hd, he, hr, hk⟩ := b
  -- One item adds one to one count of the decoder and to the count of its kind.
  constructor
  · rcases item with ((_ | _ | _ | _) | _) <;> simp only [Decoder.count, RouteCounts.add, hd] <;>
      omega
  · rcases item with ((_ | _ | _ | _) | _) <;> simp only [Decoder.count, RouteCounts.add, he]
  · rw [List.countP_append, ← hr]
    rcases item with ((_ | _ | _ | _) | _) <;>
      simp [RouteCounts.routed, RouteCounts.add, Item.isKnown] <;> omega
  · intro k
    rw [RouteCounts.of_add, hk, List.countP_append]

omit [Json.Nesting] [Field.Coercion] in
theorem Balanced.of_decoder {p : Pump σ} {items : List Item} (b : Balanced p items) {d : Decoder}
    (hd : d.decoded = p.decoder.decoded) (he : d.errors = p.decoder.errors) :
    Balanced { p with decoder := d } items :=
  ⟨hd.trans b.decoded, he.trans b.errors, b.routed, b.counts⟩

/-- What the item on a line does to a pump, whether a handler fails on it or not. -/
def passed (h : Handlers σ Crash) (p : Pump σ) : Option Item → Pump σ
  | none => p
  | some item => ⟨p.decoder.count item, p.counts.add item, (h.dispatch item p.state).1⟩

theorem readLine_of_ok {p : Pump σ} {line : Text} {found : Option Item} {d : Decoder}
    (hl : p.decoder.readLine line = .ok (found, d)) :
    (p.readLine h line).1 = passed h p found := by
  simp only [Pump.readLine, hl]
  unfold Decoder.readLine at hl
  split at hl
  · cases hl
    rfl
  · cases hi : Item.ofLine line with
    | error a => simp [hi, Except.map] at hl
    | ok item =>
      rw [hi] at hl
      cases hl
      rfl

theorem Balanced.step (b : Balanced f.pump f.items) (hs : Step h f g) :
    Balanced g.pump g.items := by
  cases hs with
  | feed => exact b.of_decoder rfl rfl
  | finish => exact b.of_decoder rfl rfl
  | leave => exact b
  | @read _ _ _ _ _ _ found _ hl =>
    change Balanced (Pump.readLine h _ _).1 _
    rw [readLine_of_ok hl]
    cases found with
    | none => exact (List.append_nil _).symm ▸ b
    | some item => exact b.item item _

/-! ### Calls of handlers -/

def recorded (f : Flow σ) (calls : List Handlers.Call) : Flow (σ × List Handlers.Call) :=
  { f with pump := ⟨f.pump.decoder, f.pump.counts, (f.pump.state, calls)⟩ }

omit [Json.Nesting] [Field.Coercion] in
theorem passed_recording (p : Pump σ) (calls : List Handlers.Call) (found : Option Item) :
    passed h.recording ⟨p.decoder, p.counts, (p.state, calls)⟩ found =
      ⟨(passed h p found).decoder, (passed h p found).counts,
        ((passed h p found).state, calls ++ h.calls found.toList)⟩ := by
  cases found with
  | none =>
    change _ = Pump.mk p.decoder p.counts (p.state, calls ++ [])
    rw [List.append_nil]
    rfl
  | some item =>
    rw [passed, h.dispatch_recording]
    rfl

theorem Step.recorded (hs : Step h f g) :
    Step h.recording (f.recorded (h.calls f.items)) (g.recorded (h.calls g.items)) := by
  cases hs with
  | feed => exact .feed
  | finish => exact .finish
  | leave => exact .leave
  | @read coming line rest lost items p found d hl =>
    let q : Pump (σ × List Handlers.Call) := ⟨p.decoder, p.counts, (p.state, h.calls items)⟩
    have hq := (readLine_of_ok (p := q) (h := h.recording) hl).trans (passed_recording ..)
    have hr : Step h.recording ⟨coming, line :: rest, lost, items, q⟩
        ⟨coming, rest, lost, items ++ found.toList, _⟩ := .read hl
    rw [hq] at hr
    rw [readLine_of_ok hl, h.calls_append]
    exact hr

theorem Reaches.recorded {s : σ} {chunks : List Chunk} (hr : Reaches h (start s chunks) f) :
    Reaches h.recording (start (s, []) chunks) (f.recorded (h.calls f.items)) := by
  induction hr with
  | refl => exact .refl
  | tail _ hs ih => exact ih.tail hs.recorded

/-! ### Order -/

/-- The items that are still to be read. -/
def remaining (f : Flow σ) : List Item :=
  let r := f.pump.decoder.readLines f.waiting
  r.items ++ match r.aborted, f.coming with
    | none, some cs => (r.decoder.run cs).items
    | _, _ => []

/-- As long as no line is lost, each step only passes on what is to come. -/
theorem Step.items_append_remaining (hs : Step h f g) (hg : g.lost = []) :
    f.lost = [] ∧ g.items ++ g.remaining = f.items ++ f.remaining := by
  cases hs with
  | @feed c cs _ items p =>
    refine ⟨hg, ?_⟩
    have hf : (p.decoder.take c).2.readLines (p.decoder.take c).1 = p.decoder.feed c := rfl
    simp only [remaining, Decoder.readLines, Decoder.run, hf, List.nil_append]
    cases (p.decoder.feed c).aborted <;> simp
  | finish =>
    refine ⟨hg, ?_⟩
    simp [remaining, Decoder.readLines, Decoder.run, Decoder.finish]
  | leave => exact absurd (List.append_eq_nil_iff.mp hg).2 (List.cons_ne_nil _ _)
  | @read coming line rest _ items p found d hl =>
    refine ⟨hg, ?_⟩
    have hd : (p.readLine h line).1.decoder = d := by
      rw [Pump.readLine, hl]
      cases found <;> rfl
    simp [remaining, Decoder.readLines, hl, hd]

theorem remaining_start (s : σ) (chunks : List (List UInt8)) :
    (start s (chunks.map .bytes)).remaining = (Stream.items chunks.flatten).1 :=
  Decoder.fresh_items chunks

/-- Where every further step would lose a line, no item is left. -/
theorem remaining_of_forall_lost (hf : f.lost = []) (hs : ∀ g, Step h f g → g.lost ≠ []) :
    f.remaining = [] := by
  obtain ⟨coming, waiting, lost, items, p⟩ := f
  cases waiting with
  | cons line rest =>
    cases hl : p.decoder.readLine line with
    | error a => simp [remaining, Decoder.readLines, hl]
    | ok found => exact (hs _ (.read hl) hf).elim
  | nil =>
    rcases coming with _ | (_ | ⟨c, cs⟩)
    · rfl
    · exact (hs _ .finish hf).elim
    · exact (hs _ .feed hf).elim

/-! ### Whole streams -/

structure Accounts (h : Handlers σ Crash) (f : Flow σ) (calls : List Handlers.Call) : Prop
    extends Balanced f.pump f.items where
  called : ∀ k, h.handles k → Handlers.calledWith k calls = f.items.filter (·.kind = k)
  own : ∀ c ∈ calls, h.handles c.handler ∧ c.item.kind = c.handler ∧
    c.item.kind ≠ .unknown

theorem Reaches.accounts {s : σ} {chunks : List Chunk} (hr : Reaches h (start s chunks) f) :
    Accounts h f (h.calls f.items) where
  toBalanced := by
    induction hr with
    | refl => exact .start s
    | tail _ hs ih => exact ih.step hs
  called k hk := h.calledWith_calls f.items hk
  own c hc := by
    obtain ⟨hh, hk⟩ := Handlers.of_mem_calls hc
    refine ⟨hh, hk, ?_⟩
    intro hu
    rw [← hk, hu] at hh
    cases hh

theorem Reaches.items_append_remaining {s : σ} {chunks : List (List UInt8)}
    (hr : Reaches h (start s (chunks.map .bytes)) f) (hf : f.lost = []) :
    f.items ++ f.remaining = (Stream.items chunks.flatten).1 := by
  induction hr with
  | refl => exact remaining_start s chunks
  | tail _ hs ih =>
    obtain ⟨hl, he⟩ := hs.items_append_remaining hf
    exact he.trans (ih hl)

/-- The counts of the decoder and of the router agree after each item, whether the handler of
its kind failed on it or not, and each handler that there is has been called with the items of
its kind in their order, nobody with a record of an unknown type. Unless lines are left, the
items are those of the stream, from the first on and up to the last. The pump of a session goes
this way up to the first failure. -/
theorem accounts_of_stream (h : Handlers σ Crash) (s : σ) (chunks : List (List UInt8)) :
    (∀ f, Reaches h (start s (chunks.map .bytes)) f →
      (∃ calls, Reaches h.recording (start (s, []) (chunks.map .bytes)) (f.recorded calls) ∧
        Accounts h f calls) ∧
      (f.lost = [] → f.items <+: (Stream.items chunks.flatten).1 ∧
        ((∀ g, Step h f g → g.lost ≠ []) → f.items = (Stream.items chunks.flatten).1))) ∧
    ∃ f, Reaches h (start s (chunks.map .bytes)) f ∧
      f.pump = (Pump.readAll h (.start s) (chunks.map .bytes)).1 ∧ f.lost = [] := by
  constructor
  · intro f hr
    refine ⟨⟨_, hr.recorded, hr.accounts⟩, fun hf => ?_⟩
    have hi := hr.items_append_remaining hf
    refine ⟨⟨_, hi⟩, fun hs => ?_⟩
    rw [← hi, remaining_of_forall_lost hf hs, List.append_nil]
  · exact reaches_readAll (chunks.map .bytes) [] (.start s)

/-- A handler that fails on whatever is no record. -/
def refusing : Handlers ℕ Crash where
  onDecodeError := some fun _ n => (n + 1, some .closedOutput)

end Flow

open Surroundings in
/-- An empty object and two numbers in two chunks: the handler fails on both numbers. -/
theorem Flow.accounts_of_refusing :
    let stream : List (List UInt8) := [[0x7B, 0x7D, 0x0A, 0x35], [0x0A, 0x36]]
    ∃ f calls, Reaches refusing (start 0 (stream.map .bytes)) f ∧
      f.items.map Item.kind = [.unknown, .failure, .failure] ∧ f.pump.state = 2 ∧
      Accounts refusing f calls ∧ f.items <+: (Stream.items stream.flatten).1 := by
  intro stream
  have hr : Reaches refusing (start 0 (stream.map .bytes)) _ :=
    .head .feed <| .head (.read rfl) <| .head .feed <| .head (.read rfl) <| .head .finish <|
      .single (.read rfl)
  obtain ⟨⟨calls, -, ha⟩, hi⟩ := (accounts_of_stream refusing 0 stream).1 _ hr
  exact ⟨_, calls, hr, rfl, rfl, ha, (hi rfl).1⟩

end Workbench
