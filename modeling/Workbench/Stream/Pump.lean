import Workbench.Failure
import Workbench.Fold
import Workbench.Stream.Decoder
import Workbench.Stream.Router

/-! # Pumping a stream

A decoder and a router joined: every item is handed on as soon as its line has
been read. The first abort or failure of a handler ends the pumping there.
-/

namespace Workbench

variable [Json.Nesting] [Field.Coercion]

structure Pump (σ : Type) where
  decoder : Decoder := {}
  counts : RouteCounts := {}
  state : σ

namespace Pump

variable {σ : Type}

def start (s : σ) : Pump σ := { state := s }

def readLine (h : Handlers σ Crash) (p : Pump σ) (line : Text) : Pump σ × Option Crash :=
  match p.decoder.readLine line with
  | .error a => (p, some (.aborted a))
  | .ok (none, d) => ({ p with decoder := d }, none)
  | .ok (some item, d) =>
    let out := Routed.dispatch h ⟨p.counts, p.state⟩ item
    (⟨d, out.1.counts, out.1.state⟩, out.2)

def readChunk (h : Handlers σ Crash) (p : Pump σ) (c : Chunk) : Pump σ × Option Crash :=
  let taken := p.decoder.take c
  foldUntil (readLine h) { p with decoder := taken.2 } taken.1

def readLast (h : Handlers σ Crash) (p : Pump σ) : Pump σ × Option Crash :=
  let taken := p.decoder.takeLast
  readLine h { p with decoder := taken.2 } taken.1

def readAll (h : Handlers σ Crash) (p : Pump σ) (chunks : List Chunk) : Pump σ × Option Crash :=
  match foldUntil (readChunk h) p chunks with
  | (p, some c) => (p, some c)
  | (p, none) => readLast h p

end Pump

end Workbench
