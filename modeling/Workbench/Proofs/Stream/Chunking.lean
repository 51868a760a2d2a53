import Workbench.Proofs.Text.Pieces
import Workbench.Proofs.Text.Utf8.Decoding
import Workbench.Stream.Decoder
import Workbench.Surroundings

/-! # Chunks do not matter

A decoder that is fed an input in chunks gives the items of the whole input.
The unfinished line holds no line feed, so what a chunk completes and what it
leaves are the lines of the input so far, whichever way the input is cut.
-/

namespace Workbench

/-! ## Lines -/

namespace LineBuffer

def outstanding (b : LineBuffer) (bytes : List UInt8) : Text :=
  b.pending ++ (Utf8.feed b.utf8 bytes).1 ++ Utf8.finish (Utf8.feed b.utf8 bytes).2

@[simp] theorem outstanding_empty (bytes : List UInt8) :
    ({} : LineBuffer).outstanding bytes = Utf8.decode bytes := by
  simp [outstanding, Utf8.decode]

/-- The shortcut for text without a line feed changes nothing. -/
theorem appendText_eq {b : LineBuffer} (h : Text.lineFeed ∉ b.pending) (t : Text) :
    b.appendText t = ((b.pending ++ t).rawLines.dropLast.map Text.chomp,
      { b with pending := (b.pending ++ t).rawLines.getLastD [] }) := by
  by_cases ht : Text.lineFeed ∈ t
  · simp only [appendText, if_pos ht]
  · have hn : Text.lineFeed ∉ b.pending ++ t := by
      rw [List.mem_append]
      exact not_or.mpr ⟨h, ht⟩
    simp [appendText, ht, Text.rawLines, Text.splitOn_eq_singleton hn]

theorem append_bytes {b : LineBuffer} (h : Text.lineFeed ∉ b.pending) (chunk : List UInt8) :
    b.append (.bytes chunk) =
      ((b.pending ++ (Utf8.feed b.utf8 chunk).1).rawLines.dropLast.map Text.chomp,
        ⟨(b.pending ++ (Utf8.feed b.utf8 chunk).1).rawLines.getLastD [],
          (Utf8.feed b.utf8 chunk).2⟩) :=
  appendText_eq (b := { b with utf8 := (Utf8.feed b.utf8 chunk).2 }) h _

theorem lineFeed_not_mem_append {b : LineBuffer} (h : Text.lineFeed ∉ b.pending)
    (chunk : List UInt8) : Text.lineFeed ∉ (b.append (.bytes chunk)).2.pending := by
  rw [append_bytes h]
  exact Text.lineFeed_not_mem_getLastD _

/-- A chunk completes the first of the lines that are to come. -/
theorem contentLines_append {b : LineBuffer} (h : Text.lineFeed ∉ b.pending)
    (chunk rest : List UInt8) :
    (b.outstanding (chunk ++ rest)).contentLines =
      (b.append (.bytes chunk)).1.filter (!·.isBlank) ++
        ((b.append (.bytes chunk)).2.outstanding rest).contentLines := by
  have hs : b.outstanding (chunk ++ rest) = (b.pending ++ (Utf8.feed b.utf8 chunk).1) ++
      ((Utf8.feed (Utf8.feed b.utf8 chunk).2 rest).1 ++
        Utf8.finish (Utf8.feed (Utf8.feed b.utf8 chunk).2 rest).2) := by
    simp [outstanding, Utf8.feed_append]
  rw [append_bytes h, hs, Text.contentLines_append, outstanding, ← List.append_assoc]

theorem lineFeed_not_mem_finish (s : Utf8.State) : Text.lineFeed ∉ Utf8.finish s := by
  cases s <;> simp [Utf8.finish, Utf8.replacement, Text.lineFeed]

theorem contentLines_flush {b : LineBuffer} (h : Text.lineFeed ∉ b.pending) :
    (b.outstanding []).contentLines = [b.flush.1].filter (!·.isBlank) := by
  have hn : Text.lineFeed ∉ b.outstanding [] := by
    simp only [outstanding, Utf8.feed_nil, List.append_nil, List.mem_append]
    exact not_or.mpr ⟨h, lineFeed_not_mem_finish _⟩
  rw [Text.contentLines_eq_filter hn]
  simp [outstanding, flush]

end LineBuffer

/-! ## Items -/

section

variable [Json.Nesting] [Field.Coercion]

namespace Stream

theorem read_append (a b : List Text) :
    read (a ++ b) = match read a with
      | (items, some e) => (items, some e)
      | (items, none) => (items ++ (read b).1, (read b).2) := by
  induction a with
  | nil => rfl
  | cons line rest ih =>
    simp only [List.cons_append, read, ih]
    cases Item.ofLine line with
    | error e => rfl
    | ok item =>
      rcases read rest with ⟨items, _ | e⟩ <;> rfl

end Stream

namespace Decoder

def Run.outcome (r : Run) : List Item × Option Abort := (r.items, r.aborted)

theorem readLines_outcome (d : Decoder) (lines : List Text) :
    (d.readLines lines).outcome = Stream.read (lines.filter (!·.isBlank)) := by
  induction lines generalizing d with
  | nil => rfl
  | cons line rest ih =>
    by_cases hb : line.isBlank
    · simp only [readLines, readLine, List.filter_cons, hb, Bool.not_true,
        Bool.false_eq_true, if_false, ← ih d]
      rfl
    · rw [List.filter_cons_of_pos (by simpa using hb)]
      simp only [readLines, readLine, if_neg hb, Stream.read]
      cases Item.ofLine line with
      | error e => rfl
      | ok item => exact congrArg (fun r => (item :: r.1, r.2)) (ih (d.count item))

omit [Json.Nesting] [Field.Coercion] in
theorem count_buffer (d : Decoder) (item : Item) : (d.count item).buffer = d.buffer := by
  cases item <;> rfl

theorem readLines_buffer (d : Decoder) (lines : List Text) :
    (d.readLines lines).decoder.buffer = d.buffer := by
  induction lines generalizing d with
  | nil => rfl
  | cons line rest ih =>
    by_cases hb : line.isBlank
    · simpa only [readLines, readLine, if_pos hb] using ih d
    · simp only [readLines, readLine, if_neg hb]
      cases Item.ofLine line with
      | error e => rfl
      | ok item => exact (ih (d.count item)).trans (count_buffer d item)

/-- A run over chunks is the reading of the lines of what the decoder holds and is given. -/
theorem run_outcome {d : Decoder} (h : Text.lineFeed ∉ d.buffer.pending)
    (chunks : List (List UInt8)) :
    (d.run (chunks.map .bytes)).outcome =
      Stream.read (d.buffer.outstanding chunks.flatten).contentLines := by
  induction chunks generalizing d with
  | nil =>
    rw [List.flatten_nil, LineBuffer.contentLines_flush h]
    exact readLines_outcome _ _
  | cons c cs ih =>
    have hf := readLines_outcome (d.take (.bytes c)).2 (d.take (.bytes c)).1
    have hb : (d.feed (.bytes c)).decoder.buffer = (d.buffer.append (.bytes c)).2 :=
      readLines_buffer _ _
    have hn := LineBuffer.lineFeed_not_mem_append h c
    rw [← hb] at hn
    rw [List.flatten_cons, LineBuffer.contentLines_append h, Stream.read_append, ← hb,
      ← ih hn]
    change (d.feed (.bytes c)).outcome = Stream.read ((d.buffer.append (.bytes c)).1.filter _) at hf
    rw [← hf, List.map_cons, run]
    rcases hr : d.feed (.bytes c) with ⟨items, d', _ | e⟩ <;> rfl

/-- A fresh decoder gives the items of the whole input, however it is cut. -/
theorem run_empty_outcome (chunks : List (List UInt8)) :
    (empty.run (chunks.map .bytes)).outcome = Stream.items chunks.flatten := by
  rw [run_outcome (d := empty) List.not_mem_nil]
  exact congrArg (fun t => Stream.read (Text.contentLines t))
    (LineBuffer.outstanding_empty chunks.flatten)

end Decoder

omit [Json.Nesting] [Field.Coercion] in
theorem flatten_chunksOf (size : ℕ) (bytes : List UInt8) :
    (chunksOf size bytes).flatten = bytes := by
  induction h : bytes.length using Nat.strongRecOn generalizing bytes with
  | _ n ih =>
    rw [chunksOf]
    split_ifs with h₁ h₂
    · simp [h₂]
    · simp
    · obtain ⟨hb, hs⟩ := not_or.mp h₁
      have hlt : (bytes.drop size).length < n := by
        have := List.length_pos_iff.mpr hb
        simp only [List.length_drop]
        omega
      rw [List.flatten_cons, ih _ hlt _ rfl, List.take_append_drop]

/-! ## Line endings -/

namespace Stream

/-- The second input is the first with some of its line feeds turned into a carriage
return and a line feed. -/
inductive SameLines : List UInt8 → List UInt8 → Prop where
  | nil : SameLines [] []
  | cons (b : UInt8) {x y : List UInt8} : SameLines x y → SameLines (b :: x) (b :: y)
  | crlf {x y : List UInt8} : SameLines x y → SameLines (0x0A :: x) (0x0D :: 0x0A :: y)

omit [Json.Nesting] [Field.Coercion] in
theorem lines_append (a b : List UInt8) : lines (a ++ 0x0A :: b) = lines a ++ lines b := by
  rw [lines, Utf8.decode_append_ascii a (by decide)]
  exact Text.contentLines_append_lineFeed _ _

omit [Json.Nesting] [Field.Coercion] in
@[simp] theorem lines_nil : lines [] = [] := Text.contentLines_nil

omit [Json.Nesting] [Field.Coercion] in
theorem lines_append_crlf (a b : List UInt8) :
    lines (a ++ 0x0D :: 0x0A :: b) = lines (a ++ 0x0A :: b) := by
  have hr : Utf8.decode (a ++ [0x0D]) = Utf8.decode a ++ [Text.carriageReturn] :=
    Utf8.decode_append_ascii a (by decide) []
  have ha : lines (a ++ [0x0D]) = lines a := by
    rw [lines, hr, Text.contentLines_append_return, lines]
  rw [List.append_cons a 0x0D, lines_append, lines_append, ha]

omit [Json.Nesting] [Field.Coercion] in
theorem SameLines.lines_eq {x y : List UInt8} (h : SameLines x y) : lines y = lines x := by
  have key : ∀ a : List UInt8, lines (a ++ y) = lines (a ++ x) := by
    induction h with
    | nil => exact fun _ => rfl
    | cons b _ ih =>
      intro a
      rw [List.append_cons a b, ih, ← List.append_cons]
    | crlf _ ih =>
      intro a
      rw [lines_append_crlf, List.append_cons a 0x0A, ih, ← List.append_cons]
  exact key []

end Stream

/-- A run of a fresh decoder shows what the whole input decodes to, line by line: the way
the input is cut, the form of its line endings and a last line feed do not matter. -/
theorem Decoder.outcome_eq_whole_input (bytes : List UInt8) :
    ∃ t, Utf8.Decodes bytes t ∧ (∀ t', Utf8.Decodes bytes t' → t' = t) ∧
      (∀ chunks : List (List UInt8), chunks.flatten = bytes →
        (empty.run (chunks.map .bytes)).outcome = Stream.read t.contentLines) ∧
      (∀ size, 1 ≤ size →
        (empty.run ((chunksOf size bytes).map .bytes)).outcome = Stream.read t.contentLines) ∧
      (∀ chunks : List (List UInt8), Stream.SameLines bytes chunks.flatten →
        (empty.run (chunks.map .bytes)).outcome = Stream.read t.contentLines) ∧
      (∀ chunks : List (List UInt8), chunks.flatten = bytes ++ [0x0A] →
        (empty.run (chunks.map .bytes)).outcome = Stream.read t.contentLines) := by
  refine ⟨Utf8.decode bytes, Utf8.decodes_decode bytes, fun t' h => Utf8.decodes_iff.mp h,
    fun chunks h => ?_, fun size _ => ?_, fun chunks h => ?_, fun chunks h => ?_⟩
  · rw [run_empty_outcome, h]; rfl
  · rw [run_empty_outcome, flatten_chunksOf]; rfl
  · rw [run_empty_outcome, Stream.items, h.lines_eq]; rfl
  · rw [run_empty_outcome, h, Stream.items, Stream.lines_append, Stream.lines_nil,
      List.append_nil]
    rfl

end

open Surroundings in
theorem Decoder.outcome_of_cut_character :
    (empty.run ([[0xC3], [0xA9, 0x0D], [0x0A, 0x5B]].map .bytes)).outcome =
      Stream.read [.ofString "é", .ofString "["] := by
  obtain ⟨t, ht, -, hc, -⟩ := outcome_eq_whole_input [0xC3, 0xA9, 0x0D, 0x0A, 0x5B]
  have hl : t.contentLines = [.ofString "é", .ofString "["] := by
    rw [Utf8.decodes_iff.mp ht]
    decide
  rw [hc _ rfl, hl]

end Workbench
