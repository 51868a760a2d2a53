import Workbench.Proofs.Json.Limits
import Workbench.Proofs.Stream.Chunking

/-! # One line, one item

A line gives one item, and what it gives does not hang on the lines around it. Only
a line whose reading is given up ends a run, and then the lines behind it are lost.
-/

namespace Workbench

/-! ## One line -/

def Abort.readError : Abort → Json.ReadError
  | longInteger digits => .longInteger digits
  | tooDeep c => .tooDeep c

theorem Record.ofMembers_ne_aborted [Field.Coercion] (ms : Field.Members) (a : Abort) :
    Record.ofMembers ms ≠ .error (.aborted a) := by
  unfold Record.ofMembers
  split
  · exact fun h => nomatch h
  · split <;> exact fun h => nomatch h

section

variable [Json.Nesting] [Field.Coercion]

theorem Record.ofLine_aborted_iff {line : Text} {a : Abort} :
    Record.ofLine line = .error (.aborted a) ↔ Json.read line = .error a.readError := by
  unfold Record.ofLine
  cases Json.read line with
  | error e =>
    cases e <;> cases a <;> simp [Abort.readError]
  | ok v =>
    cases v <;> simp [Record.ofMembers_ne_aborted]

namespace Item

theorem ofLine_error_iff {line : Text} {a : Abort} :
    Item.ofLine line = .error a ↔ Json.read line = .error a.readError := by
  rw [← Record.ofLine_aborted_iff]
  unfold Item.ofLine
  split <;> simp_all

theorem exists_ofLine_error_iff {line : Text} :
    (∃ a, Item.ofLine line = .error a) ↔ Json.GivenUp line := by
  simp only [ofLine_error_iff]
  constructor
  · rintro ⟨a, h⟩
    exact ⟨_, h, by cases a <;> trivial⟩
  · rintro ⟨e, h, he⟩
    cases e with
    | fault => exact he.elim
    | longInteger n => exact ⟨.longInteger n, h⟩
    | tooDeep c => exact ⟨.tooDeep c, h⟩

theorem exists_ofLine_ok_iff {line : Text} :
    (∃ item, Item.ofLine line = .ok item) ↔ ¬ Json.GivenUp line := by
  rw [← exists_ofLine_error_iff]
  cases Item.ofLine line <;> simp

def isRecord : Item → Bool
  | record _ => true
  | failure _ => false

def isFailure : Item → Bool
  | record _ => false
  | failure _ => true

end Item

/-! ## Many lines -/

namespace Stream

def Answers (lines : List Text) (items : List Item) : Prop :=
  List.Forall₂ (fun line item => Item.ofLine line = .ok item) lines items

theorem read_spec (lines : List Text) :
    ((read lines).2 = none ∧ Answers lines (read lines).1) ∨
      ∃ before bad after a, lines = before ++ bad :: after ∧ (read lines).2 = some a ∧
        Item.ofLine bad = .error a ∧ Answers before (read lines).1 := by
  induction lines with
  | nil => exact .inl ⟨rfl, .nil⟩
  | cons line rest ih =>
    cases h : Item.ofLine line with
    | error a =>
      refine .inr ⟨[], line, rest, a, rfl, ?_, h, ?_⟩
      · simp [read, h]
      · simpa [read, h] using .nil
    | ok item =>
      simp only [read, h]
      rcases ih with ⟨hn, hi⟩ | ⟨before, bad, after, a, rfl, ha, hb, hi⟩
      · exact .inl ⟨hn, .cons h hi⟩
      · exact .inr ⟨line :: before, bad, after, a, rfl, ha, hb, .cons h hi⟩

theorem answers_of_none {lines : List Text} (h : (read lines).2 = none) :
    Answers lines (read lines).1 := by
  rcases read_spec lines with ⟨-, hi⟩ | ⟨_, _, _, _, -, ha, -⟩
  · exact hi
  · rw [ha] at h
    cases h

theorem not_givenUp_of_answers {lines : List Text} {items : List Item}
    (h : Answers lines items) {line : Text} (hl : line ∈ lines) : ¬ Json.GivenUp line := by
  induction h with
  | nil => exact absurd hl List.not_mem_nil
  | cons h _ ih =>
    rcases List.mem_cons.mp hl with rfl | hl
    · exact Item.exists_ofLine_ok_iff.mp ⟨_, h⟩
    · exact ih hl

/-- Reading comes to its end just when no line is given up. -/
theorem read_eq_none_iff {lines : List Text} :
    (read lines).2 = none ↔ ∀ line ∈ lines, ¬ Json.GivenUp line := by
  rcases read_spec lines with ⟨hn, hi⟩ | ⟨before, bad, after, a, rfl, ha, hb, -⟩
  · exact ⟨fun _ _ hl => not_givenUp_of_answers hi hl, fun _ => hn⟩
  · rw [ha]
    constructor
    · exact fun h => nomatch h
    · intro h
      exact absurd (Item.exists_ofLine_error_iff.mp ⟨a, hb⟩) (h bad (by simp))

theorem read_append_eq_none_iff {a b : List Text} :
    (read (a ++ b)).2 = none ↔ (read a).2 = none ∧ (read b).2 = none := by
  simp only [read_eq_none_iff, List.mem_append, or_imp, forall_and]

theorem read_append_of_none {a : List Text} (h : (read a).2 = none) (b : List Text) :
    (read (a ++ b)).1 = (read a).1 ++ (read b).1 := by
  rw [read_append]
  rcases hr : read a with ⟨items, _ | e⟩
  · rfl
  · rw [hr] at h
    cases h

def WholeLines (bytes : List UInt8) : Prop := bytes = [] ∨ ∃ b, bytes = b ++ [0x0A]

omit [Json.Nesting] [Field.Coercion] in
theorem WholeLines.lines_append {a : List UInt8} (h : WholeLines a) (b : List UInt8) :
    lines (a ++ b) = lines a ++ lines b := by
  rcases h with rfl | ⟨a, rfl⟩
  · simp
  · rw [List.append_assoc, List.singleton_append, Stream.lines_append, Stream.lines_append,
      lines_nil, List.append_nil]

theorem WholeLines.items_append_eq_none_iff {a b : List UInt8} (h : WholeLines a) :
    (items (a ++ b)).2 = none ↔ (items a).2 = none ∧ (items b).2 = none := by
  rw [items, h.lines_append]
  exact read_append_eq_none_iff

theorem WholeLines.items_append {a : List UInt8} (h : WholeLines a)
    (hn : (items a).2 = none) (b : List UInt8) :
    (items (a ++ b)).1 = (items a).1 ++ (items b).1 := by
  rw [items, h.lines_append]
  exact read_append_of_none hn _

end Stream

/-! ## Counters -/

namespace Decoder

omit [Json.Nesting] [Field.Coercion] in
theorem count_decoded (d : Decoder) (item : Item) :
    (d.count item).decoded = d.decoded + [item].countP Item.isRecord := by
  cases item <;> rfl

omit [Json.Nesting] [Field.Coercion] in
theorem count_errors (d : Decoder) (item : Item) :
    (d.count item).errors = d.errors + [item].countP Item.isFailure := by
  cases item <;> rfl

theorem readLines_counts (d : Decoder) (lines : List Text) :
    (d.readLines lines).decoder.decoded =
        d.decoded + (d.readLines lines).items.countP Item.isRecord ∧
      (d.readLines lines).decoder.errors =
        d.errors + (d.readLines lines).items.countP Item.isFailure := by
  induction lines generalizing d with
  | nil => exact ⟨rfl, rfl⟩
  | cons line rest ih =>
    by_cases hb : line.isBlank
    · simp only [readLines, readLine, if_pos hb]
      exact ih d
    · simp only [readLines, readLine, if_neg hb]
      cases Item.ofLine line with
      | error e => exact ⟨rfl, rfl⟩
      | ok item =>
        obtain ⟨hd, he⟩ := ih (d.count item)
        simp only [Except.map, Option.toList_some, List.countP_append]
        rw [hd, he, count_decoded, count_errors, Nat.add_assoc, Nat.add_assoc]
        exact ⟨rfl, rfl⟩

theorem run_counts (d : Decoder) (chunks : List Chunk) :
    (d.run chunks).decoder.decoded =
        d.decoded + (d.run chunks).items.countP Item.isRecord ∧
      (d.run chunks).decoder.errors =
        d.errors + (d.run chunks).items.countP Item.isFailure := by
  induction chunks generalizing d with
  | nil => exact readLines_counts _ _
  | cons c cs ih =>
    have hf : (d.feed c).decoder.decoded = d.decoded + (d.feed c).items.countP Item.isRecord ∧
        (d.feed c).decoder.errors = d.errors + (d.feed c).items.countP Item.isFailure :=
      readLines_counts _ _
    simp only [run]
    cases (d.feed c).aborted with
    | some a => exact hf
    | none =>
      obtain ⟨hd, he⟩ := ih (d.feed c).decoder
      simp only [List.countP_append]
      omega

omit [Json.Nesting] [Field.Coercion] in
theorem countP_isRecord_add_countP_isFailure (items : List Item) :
    items.countP Item.isRecord + items.countP Item.isFailure = items.length := by
  induction items with
  | nil => rfl
  | cons item rest ih =>
    cases item <;> simp only [List.countP_cons, List.length_cons, Item.isRecord,
      Item.isFailure, if_true, Bool.false_eq_true, if_false] <;> omega

def fresh (chunks : List (List UInt8)) : Run := empty.run (chunks.map .bytes)

theorem fresh_outcome (chunks : List (List UInt8)) :
    ((fresh chunks).items, (fresh chunks).aborted) = Stream.items chunks.flatten :=
  run_empty_outcome chunks

theorem fresh_items (chunks : List (List UInt8)) :
    (fresh chunks).items = (Stream.items chunks.flatten).1 :=
  congrArg Prod.fst (fresh_outcome chunks)

theorem fresh_aborted (chunks : List (List UInt8)) :
    (fresh chunks).aborted = (Stream.items chunks.flatten).2 :=
  congrArg Prod.snd (fresh_outcome chunks)

theorem fresh_answers {chunks : List (List UInt8)} (h : (fresh chunks).aborted = none) :
    Stream.Answers (Stream.lines chunks.flatten) (fresh chunks).items := by
  rw [fresh_aborted] at h
  rw [fresh_items]
  exact Stream.answers_of_none h

theorem fresh_counts (chunks : List (List UInt8)) :
    (fresh chunks).decoder.decoded + (fresh chunks).decoder.errors =
      (fresh chunks).items.length := by
  obtain ⟨hd, he⟩ := run_counts empty (chunks.map .bytes)
  have := countP_isRecord_add_countP_isFailure (fresh chunks).items
  simp only [fresh] at this ⊢
  rw [hd, he, ← this]
  simp [empty]

/-! ## Lines that are lost -/

omit [Json.Nesting] [Field.Coercion] in
theorem lines_replicate {c : Char} {b : UInt8} (hc : Utf8.octets c.toNat = [b])
    (hb : ¬ (CodePoint.char c).isBlank) (n : ℕ) (rest : List UInt8) :
    Stream.lines (List.replicate (n + 1) b ++ 0x0A :: rest) =
      List.replicate (n + 1) (.char c) :: Stream.lines rest := by
  have hd : ∀ n, Utf8.Decodes (List.replicate n b) (List.replicate n (.char c)) := by
    intro n
    induction n with
    | zero => exact .nil
    | succ n ih =>
      rw [List.replicate_succ, ← List.singleton_append, ← hc]
      exact .char c ih
  have hne {d : CodePoint} (hd : d.isBlank) : d ≠ .char c := by
    rintro rfl
    exact hb hd
  have hn : Text.lineFeed ∉ List.replicate (n + 1) (CodePoint.char c) :=
    fun h => hne (d := Text.lineFeed) (by decide) (List.eq_of_mem_replicate h)
  have hr : ¬ ((CodePoint.char c == Text.carriageReturn) = true) := by
    rw [beq_iff_eq]
    exact Ne.symm (hne (d := Text.carriageReturn) (by decide))
  have hch : Text.chomp (List.replicate (n + 1) (CodePoint.char c)) =
      List.replicate (n + 1) (.char c) := by
    rw [Text.chomp, Text.trimRight, List.reverse_replicate, List.replicate_succ,
      List.dropWhile_cons_of_neg (p := (· == Text.carriageReturn)) hr, ← List.replicate_succ,
      List.reverse_replicate]
  have hbl : ¬ Text.isBlank (List.replicate (n + 1) (CodePoint.char c)) := by
    simpa [Text.isBlank] using hb
  rw [Stream.lines_append, Stream.lines, ← Utf8.decodes_iff.mp (hd (n + 1)),
    Text.contentLines_eq_filter hn, hch, List.filter_cons_of_pos (by simpa using hbl)]
  rfl

/-- Behind a line whose reading is given up nothing is read. -/
theorem fresh_of_ofLine_error {bytes : List UInt8} {line : Text} {rest : List Text} {a : Abort}
    (hl : Stream.lines bytes = line :: rest) (ha : Item.ofLine line = .error a) :
    (fresh [bytes]).aborted = some a ∧ (fresh [bytes]).items = [] := by
  rw [fresh_aborted, fresh_items, List.flatten_singleton, Stream.items, hl, Stream.read, ha]
  exact ⟨rfl, rfl⟩

/-- An integer of too many digits loses what stands behind it. -/
theorem fresh_ones {n : ℕ} (h : Json.integerLimit < n) (rest : List UInt8) :
    (fresh [List.replicate n 0x31 ++ 0x0A :: rest]).aborted = some (.longInteger n) ∧
      (fresh [List.replicate n 0x31 ++ 0x0A :: rest]).items = [] := by
  obtain ⟨n, rfl⟩ := Nat.exists_eq_add_one_of_ne_zero (Nat.ne_zero_of_lt h)
  have hd : ∀ c ∈ CodePoint.char '1' :: List.replicate n (.char '1'), c.isDigit := by
    simp [CodePoint.isDigit]
  refine fresh_of_ofLine_error (lines_replicate (c := '1') (by decide) (by decide) n rest) ?_
  rw [Item.ofLine_error_iff, List.replicate_succ,
    Json.read_digits (by decide) hd (by simpa using h)]
  simp [Abort.readError]

theorem fresh_brackets {n : ℕ} (h : Json.depthLimit < n) (rest : List UInt8) :
    (fresh [List.replicate n 0x5B ++ 0x0A :: rest]).aborted = some (.tooDeep .array) ∧
      (fresh [List.replicate n 0x5B ++ 0x0A :: rest]).items = [] := by
  obtain ⟨n, rfl⟩ := Nat.exists_eq_add_one_of_ne_zero (Nat.ne_zero_of_lt h)
  refine fresh_of_ofLine_error (lines_replicate (c := '[') (by decide) (by decide) n rest) ?_
  rw [Item.ofLine_error_iff, Json.read_brackets h]
  rfl

/-! ## Isolation -/

/-- Every line that is not blank gives one item and the counters agree, unless reading one
is given up, for an integer of too many digits or for containers that nest too deep. This is
exactly when a run does not come to its end, and the lines behind are lost, whatever the
limits are. Otherwise taking lines out of the input takes out their items and no others. -/
theorem ends_iff_no_line_given_up (chunks : List (List UInt8)) :
    ((fresh chunks).aborted = none ↔
      ∀ line ∈ Stream.lines chunks.flatten, ¬ Json.GivenUp line) ∧
    ((fresh chunks).aborted = none →
      Stream.Answers (Stream.lines chunks.flatten) (fresh chunks).items ∧
      (fresh chunks).decoder.decoded + (fresh chunks).decoder.errors =
        (Stream.lines chunks.flatten).length ∧
      ∀ (before lines after : List UInt8) (others : List (List UInt8)),
        Stream.WholeLines before → Stream.WholeLines lines →
        chunks.flatten = before ++ lines ++ after → others.flatten = before ++ after →
        (fresh others).aborted = none ∧
        (fresh others).items = (Stream.items before).1 ++ (Stream.items after).1 ∧
        (fresh chunks).items =
          (Stream.items before).1 ++ (Stream.items lines).1 ++ (Stream.items after).1) ∧
    (∀ a, (fresh chunks).aborted = some a →
      ∃ before bad after, Stream.lines chunks.flatten = before ++ bad :: after ∧
        Json.read bad = .error a.readError ∧ Stream.Answers before (fresh chunks).items) ∧
    ((∀ line ∈ Stream.lines chunks.flatten, line.countP Json.opens ≤ Json.depthLimit ∧
      ∀ n, Json.HasDigits n line → n ≤ Json.integerLimit) → (fresh chunks).aborted = none) ∧
    ∀ (n : ℕ) (rest : List UInt8),
      (Json.integerLimit < n → let r := fresh [List.replicate n 0x31 ++ 0x0A :: rest]
        r.aborted = some (.longInteger n) ∧ r.items = []) ∧
      (Json.depthLimit < n → let r := fresh [List.replicate n 0x5B ++ 0x0A :: rest]
        r.aborted = some (.tooDeep .array) ∧ r.items = []) := by
  have hend : (fresh chunks).aborted = none ↔
      ∀ line ∈ Stream.lines chunks.flatten, ¬ Json.GivenUp line := by
    rw [fresh_aborted]
    exact Stream.read_eq_none_iff
  refine ⟨hend, fun hn => ?_, fun a ha => ?_, fun hl => hend.mpr fun line hm hg => ?_,
    fun n rest => ⟨fun h => fresh_ones h rest, fun h => fresh_brackets h rest⟩⟩
  · have hi := fresh_answers hn
    refine ⟨hi, (fresh_counts chunks).trans hi.length_eq.symm, ?_⟩
    intro before lines after others hb hl hc ho
    rw [fresh_aborted, hc, List.append_assoc, hb.items_append_eq_none_iff,
      hl.items_append_eq_none_iff] at hn
    obtain ⟨hnb, hnl, hna⟩ := hn
    refine ⟨?_, ?_, ?_⟩
    · rw [fresh_aborted, ho, hb.items_append_eq_none_iff]
      exact ⟨hnb, hna⟩
    · rw [fresh_items, ho, hb.items_append hnb]
    · rw [fresh_items, hc, List.append_assoc, hb.items_append hnb, hl.items_append hnl,
        List.append_assoc]
  · rw [fresh_aborted] at ha
    rw [fresh_items]
    rcases Stream.read_spec (Stream.lines chunks.flatten) with
      ⟨hn, -⟩ | ⟨before, bad, after, a', hl, ha', hb, hi⟩
    · exact absurd (hn.symm.trans ha) (by simp)
    · cases Option.some.inj (ha'.symm.trans ha)
      exact ⟨before, bad, after, hl, Item.ofLine_error_iff.mp hb, hi⟩
  · obtain ⟨ho, hd⟩ := hl line hm
    rcases hg.cause with ⟨n, hn, hs⟩ | hs
    · exact absurd (hd n hs) (by omega)
    · exact absurd ho (by omega)

end Decoder

end

open Surroundings in
theorem Decoder.ends_of_short_lines :
    (fresh [[0x31, 0x0A], [0x0A, 0x5B]]).aborted = none ∧
      (fresh [[0x31, 0x0A], [0x0A, 0x5B]]).decoder.decoded +
        (fresh [[0x31, 0x0A], [0x0A, 0x5B]]).decoder.errors = 2 := by
  obtain ⟨-, ha, -, hb, -⟩ := ends_iff_no_line_given_up [[0x31, 0x0A], [0x0A, 0x5B]]
  have hl : Stream.lines [[0x31, 0x0A], [0x0A, 0x5B]].flatten =
      [Text.ofString "1", Text.ofString "["] := by decide
  have hn : (fresh [[0x31, 0x0A], [0x0A, 0x5B]]).aborted = none := by
    refine hb fun line hm => ⟨?_, fun n hd => ?_⟩
    · revert line
      rw [hl]
      decide
    · have hs : ∀ l ∈ [Text.ofString "1", Text.ofString "["], l.length ≤ 1 := by decide
      exact (hd.le_length.trans (hs line (hl ▸ hm))).trans (by decide)
  refine ⟨hn, ?_⟩
  rw [(ha hn).2.1, hl]
  rfl

open Surroundings in
/-- The object behind an integer of 4301 digits gives no item. -/
theorem Decoder.long_integer_loses_line :
    (fresh [List.replicate 4301 0x31 ++ [0x0A, 0x7B, 0x7D, 0x0A]]).aborted =
        some (.longInteger 4301) ∧
      (fresh [List.replicate 4301 0x31 ++ [0x0A, 0x7B, 0x7D, 0x0A]]).items = [] ∧
      Stream.lines (List.replicate 4301 0x31 ++ [0x0A, 0x7B, 0x7D, 0x0A]) =
        [List.replicate 4301 (.char '1'), Text.ofString "\x7b\x7d"] := by
  obtain ⟨ha, hi⟩ := fresh_ones (n := 4301) (by decide) [0x7B, 0x7D, 0x0A]
  refine ⟨ha, hi, ?_⟩
  rw [lines_replicate (c := '1') (by decide) (by decide)]
  exact congrArg _ (by decide)

end Workbench
