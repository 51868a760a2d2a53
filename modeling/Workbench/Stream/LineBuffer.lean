import Workbench.Text.Lines
import Workbench.Text.Utf8

/-! # Line buffer

Chunks come in, complete lines go out. The buffer holds the unfinished last
line and the octets of an unfinished character.
-/

namespace Workbench

inductive Chunk where
  | text (t : Text)
  | bytes (b : List UInt8)

structure LineBuffer where
  pending : Text := []
  utf8 : Utf8.State := .start
deriving Inhabited

namespace LineBuffer

def empty : LineBuffer := {}

/-- Adds text: the lines it completes, without their endings. Text without a line
feed completes none and is only kept. -/
def appendText (b : LineBuffer) (t : Text) : List Text × LineBuffer :=
  let pending := b.pending ++ t
  if Text.lineFeed ∈ t then
    let pieces := pending.rawLines
    (pieces.dropLast.map Text.chomp, { b with pending := pieces.getLastD [] })
  else ([], { b with pending })

def append (b : LineBuffer) : Chunk → List Text × LineBuffer
  | .text t => b.appendText t
  | .bytes bs =>
    let r := Utf8.feed b.utf8 bs
    { b with utf8 := r.2 }.appendText r.1

/-- Takes out the unfinished line; an unfinished character ends it as U+FFFD. -/
def flush (b : LineBuffer) : Text × LineBuffer :=
  ((b.pending ++ Utf8.finish b.utf8).chomp, empty)

end LineBuffer

end Workbench
