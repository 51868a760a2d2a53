import Workbench.Record.Line
import Workbench.Stream.LineBuffer
import Workbench.Text.Blank

/-! # Decoding a stream

A decoder turns the chunks of one stream into items, one for each line that is
not blank, and counts them. `Stream.items` is what a whole input comes to.
-/

namespace Workbench

variable [Json.Nesting] [Field.Coercion]

structure Decoder where
  buffer : LineBuffer := {}
  decoded : Nat := 0
  errors : Nat := 0
deriving Inhabited

namespace Decoder

def empty : Decoder := {}

def count (d : Decoder) : Item → Decoder
  | .record _ => { d with decoded := d.decoded + 1 }
  | .failure _ => { d with errors := d.errors + 1 }

/-- Reads one line: the item on it, none on a blank one. -/
def readLine (d : Decoder) (line : Text) : Except Abort (Option Item × Decoder) :=
  if line.isBlank then .ok (none, d)
  else (Item.ofLine line).map fun item => (some item, d.count item)

structure Run where
  items : List Item
  decoder : Decoder
  aborted : Option Abort

/-- Reads lines in order; after an abort the lines that are left are lost. -/
def readLines (d : Decoder) : List Text → Run
  | [] => ⟨[], d, none⟩
  | line :: rest =>
    match d.readLine line with
    | .error a => ⟨[], d, some a⟩
    | .ok (item, d) =>
      let r := d.readLines rest
      { r with items := item.toList ++ r.items }

def take (d : Decoder) (c : Chunk) : List Text × Decoder :=
  let r := d.buffer.append c
  (r.1, { d with buffer := r.2 })

def takeLast (d : Decoder) : Text × Decoder :=
  let r := d.buffer.flush
  (r.1, { d with buffer := r.2 })

def feed (d : Decoder) (c : Chunk) : Run :=
  let r := d.take c
  r.2.readLines r.1

def finish (d : Decoder) : Run :=
  let r := d.takeLast
  r.2.readLines [r.1]

def run (d : Decoder) : List Chunk → Run
  | [] => d.finish
  | c :: cs =>
    let r := d.feed c
    match r.aborted with
    | some _ => r
    | none =>
      let s := r.decoder.run cs
      { s with items := r.items ++ s.items }

end Decoder

/-- The octets cut into chunks of `size`, the last one shorter. -/
def chunksOf (size : Nat) (bytes : List UInt8) : List (List UInt8) :=
  if _h : bytes = [] ∨ size = 0 then (if bytes = [] then [] else [bytes])
  else bytes.take size :: chunksOf size (bytes.drop size)
termination_by bytes.length
decreasing_by
  have : bytes.length ≠ 0 := fun e => _h (.inl (List.length_eq_zero_iff.1 e))
  simp; omega

def readSize : Nat := 65536

namespace Stream

/-- The items on lines that are not blank, up to an abort. -/
def read : List Text → List Item × Option Abort
  | [] => ([], none)
  | line :: rest =>
    match Item.ofLine line with
    | .error a => ([], some a)
    | .ok item => (item :: (read rest).1, (read rest).2)

def lines (bytes : List UInt8) : List Text := (Utf8.decode bytes).contentLines

/-- The items of a whole input, up to an abort. -/
def items (bytes : List UInt8) : List Item × Option Abort := read (lines bytes)

end Stream

end Workbench
