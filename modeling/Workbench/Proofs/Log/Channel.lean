import Mathlib.Data.List.DropRight
import Workbench.Log.Channel
import Workbench.Proofs.Stream.Chunking

/-! # What an output channel logs

Text for the output channel is logged by lines. A line of its own ends what was written before
it, and so does showing the channel. The messages are those of the stretches between such
ends, so the pieces that a stretch was written in do not matter.
-/

namespace Workbench.Log

open Text

/-! ## Stretches -/

def completed (t : Text) : List Text :=
  (List.splitOn lineFeed t).dropLast.map (List.rdropWhile (· == carriageReturn))

def unfinished (t : Text) : List Text :=
  [((List.splitOn lineFeed t).getLastD []).rdropWhile (· == carriageReturn)].filter (· ≠ [])

/-- Text that was ended, with the line that ended it if it was one. -/
structure Stretch where
  text : Text
  line : Option Text

def Stretch.messages (s : Stretch) : List Text :=
  completed s.text ++ unfinished s.text ++ s.line.toList

/-- What was written to the output channel: stretches that were ended, and the text since. -/
structure Written where
  stretches : List Stretch := []
  text : Text := []

namespace Written

def tell (w : Written) : Editor.Call → Written
  | .append t => { w with text := w.text ++ t }
  | .appendLine t => { stretches := w.stretches ++ [⟨w.text, some t⟩] }
  | .showOutput => { stretches := w.stretches ++ [⟨w.text, none⟩] }
  | _ => w

def ofCalls (calls : List Editor.Call) : Written := calls.foldl tell {}

/-- A line of the text since the last end is told as soon as it is completed, what is left of
it only at the next end. -/
def messages (w : Written) : List Text := w.stretches.flatMap Stretch.messages ++ completed w.text

end Written

theorem completed_eq (t : Text) : completed t = t.rawLines.dropLast.map chomp := by
  rw [completed, rawLines, splitOn_eq_listSplitOn]
  rfl

theorem unfinished_eq (t : Text) :
    unfinished t = [(t.rawLines.getLastD []).chomp].filter (· ≠ []) := by
  rw [unfinished, rawLines, splitOn_eq_listSplitOn]
  rfl

theorem completed_append (a b : Text) :
    completed (a ++ b) =
      completed a ++ (a.rawLines.getLastD [] ++ b).rawLines.dropLast.map chomp := by
  rw [completed_eq, completed_eq, rawLines_append, List.dropLast_append_of_ne_nil
    (rawLines_ne_nil _), List.map_append]

theorem getLastD_rawLines_append (a b : Text) :
    (a ++ b).rawLines.getLastD [] = (a.rawLines.getLastD [] ++ b).rawLines.getLastD [] := by
  rw [rawLines_append, getLastD_append (rawLines_ne_nil _)]

namespace Channel

variable {c : Channel} {w : Written}

def outputEntries (c : Channel) : List Entry := c.entries.filter (·.source == outputSource)

theorem outputEntries_output (c : Channel) (lines : List Text) :
    (c.output lines).outputEntries =
      c.outputEntries ++ lines.map (⟨outputSource, Level.info, ·⟩) := by
  have h : (lines.map (Entry.mk outputSource Level.info)).filter (·.source == outputSource) =
      lines.map (Entry.mk outputSource Level.info) := by
    rw [List.filter_eq_self]
    intro e he
    obtain ⟨line, -, rfl⟩ := List.mem_map.mp he
    exact beq_self_eq_true outputSource
  rw [outputEntries, output, log, List.filter_append, h]
  rfl

theorem outputEntries_notice (c : Channel) (level : Level) (message : Text) :
    (c.notice level message).outputEntries = c.outputEntries := by
  have h : (editorSource == outputSource) = false := by decide
  rw [outputEntries, notice, log, List.filter_append, List.map_singleton,
    List.filter_singleton, h]
  exact List.append_nil _

theorem append_eq (h : lineFeed ∉ c.rest.pending) (t : Text) :
    c.append t = Channel.output
      { c with rest := { c.rest with pending := (c.rest.pending ++ t).rawLines.getLastD [] } }
      ((c.rest.pending ++ t).rawLines.dropLast.map chomp) := by
  rw [append, LineBuffer.appendText_eq h]

/-! ## Calls -/

/-- The channel holds the unfinished line of what was written, and has logged the rest. -/
structure Follows (c : Channel) (w : Written) : Prop where
  rest : c.rest = { pending := w.text.rawLines.getLastD [] }
  entries : c.outputEntries = w.messages.map (⟨outputSource, Level.info, ·⟩)

namespace Follows

theorem lineFeed_not_mem (h : Follows c w) : lineFeed ∉ c.rest.pending := by
  rw [h.rest]
  exact lineFeed_not_mem_getLastD w.text

theorem append (h : Follows c w) (t : Text) : Follows (c.append t) (w.tell (.append t)) := by
  have hr := h.rest
  rw [append_eq h.lineFeed_not_mem]
  constructor
  · change LineBuffer.mk _ _ = LineBuffer.mk ((w.text ++ t).rawLines.getLastD []) _
    rw [hr, getLastD_rawLines_append w.text t]
  · rw [outputEntries_output, hr]
    change c.outputEntries ++ _ =
      (w.stretches.flatMap Stretch.messages ++ completed (w.text ++ t)).map _
    rw [h.entries, completed_append, ← List.append_assoc, List.map_append]
    rfl

theorem flush (h : Follows c w) :
    c.flush.rest = {} ∧ c.flush.outputEntries =
      (w.messages ++ unfinished w.text).map (⟨outputSource, Level.info, ·⟩) := by
  have hf : c.rest.flush = ((w.text.rawLines.getLastD []).chomp, {}) := by
    rw [LineBuffer.flush, h.rest]
    simp [Utf8.finish, LineBuffer.empty]
  have hu : unfinished w.text = if (w.text.rawLines.getLastD []).chomp.isEmpty then []
      else [(w.text.rawLines.getLastD []).chomp] := by
    rw [unfinished_eq]
    cases (w.text.rawLines.getLastD []).chomp <;> rfl
  constructor
  · change c.rest.flush.2 = _
    rw [hf]
  · rw [Channel.flush, outputEntries_output, hf, List.map_append, hu, ← h.entries]
    rfl

theorem ended (h : Follows c w) (line : Option Text) :
    Follows (c.flush.output line.toList) { stretches := w.stretches ++ [⟨w.text, line⟩] } := by
  obtain ⟨hr, he⟩ := h.flush
  constructor
  · exact hr
  · rw [outputEntries_output, he, ← List.map_append]
    refine congrArg _ ?_
    simp [Written.messages, Stretch.messages, completed_eq]

theorem tell (h : Follows c w) (call : Editor.Call) : Follows (c.tell call) (w.tell call) := by
  cases call with
  | append t => exact h.append t
  | appendLine t => exact h.ended (some t)
  | showOutput =>
    have he : c.tell .showOutput = c.flush.output [] := by
      simp [Channel.tell, showOutput, output, log]
    rw [he]
    exact h.ended none
  | confirmInstall => exact h
  -- The others are told to the editor's own source.
  | showError | showInfo | setStatus | openDocument =>
    exact ⟨h.rest, (outputEntries_notice _ _ _).trans h.entries⟩

end Follows

theorem follows_replay (calls : List Editor.Call) :
    Follows (replay {} calls) (.ofCalls calls) := by
  induction calls using List.reverseRecOn with
  | nil => exact ⟨rfl, rfl⟩
  | append_singleton calls call ih =>
    rw [replay, Written.ofCalls, List.foldl_concat, List.foldl_concat]
    exact ih.tell call

/-! ## Pieces -/

theorem append_append (h : lineFeed ∉ c.rest.pending) (a b : Text) :
    (c.append a).append b = c.append (a ++ b) := by
  have hl : lineFeed ∉ (c.append a).rest.pending := by
    rw [append_eq h]
    exact lineFeed_not_mem_getLastD _
  rw [append_eq hl, append_eq h, append_eq h, ← List.append_assoc,
    rawLines_append (c.rest.pending ++ a) b, getLastD_append (rawLines_ne_nil _),
    List.dropLast_append_of_ne_nil (rawLines_ne_nil _)]
  simp [output, log]

theorem append_nil (c : Channel) : c.append [] = c := by
  simp [append, LineBuffer.appendText, output, log]

theorem foldl_append (h : lineFeed ∉ c.rest.pending) (texts : List Text) :
    texts.foldl append c = c.append texts.flatten := by
  induction texts generalizing c with
  | nil => exact (append_nil c).symm
  | cons t texts ih =>
    have ht : lineFeed ∉ (c.append t).rest.pending := by
      rw [append_eq h]
      exact lineFeed_not_mem_getLastD _
    rw [List.foldl_cons, ih ht, append_append h, List.flatten_cons]

theorem replay_pieces (before after : List Editor.Call) (texts : List Text) :
    replay {} (before ++ texts.map .append ++ after) =
      replay {} (before ++ .append texts.flatten :: after) := by
  have h := foldl_append (follows_replay before).lineFeed_not_mem texts
  rw [replay, replay, List.foldl_append, List.foldl_append, List.foldl_append,
    List.foldl_map, List.foldl_cons]
  exact congrArg (after.foldl tell) h

/-- After any calls the output channel has logged what was written to it: of each stretch the
lines, then what was left unfinished, if anything was, then the line that ended it. Since the
last end it is the lines that have been completed. So text may be cut into any pieces. -/
theorem outputEntries_replay (calls : List Editor.Call) :
    (replay {} calls).outputEntries =
        (Written.ofCalls calls).messages.map (⟨outputSource, Level.info, ·⟩) ∧
      ∀ (before after : List Editor.Call) (texts : List Text),
        (replay {} (before ++ texts.map .append ++ after)).outputEntries =
          (replay {} (before ++ .append texts.flatten :: after)).outputEntries := by
  constructor
  · exact (follows_replay calls).entries
  · intro before after texts
    rw [replay_pieces]

example : (replay {} [.append "one\ntw", .append "o\r", .append "\nthree", .appendLine "x\r",
    .append "\r", .showOutput]).outputEntries.map Entry.message =
      [.ofString "one", .ofString "two", .ofString "three", .ofString "x\r"] := by decide

end Channel

end Workbench.Log
