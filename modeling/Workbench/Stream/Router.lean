import Workbench.Record.Line

/-! # Routing items

Each item goes to the handler of its kind, if there is one, and is counted.
A handler may fail; the item is counted all the same.
-/

namespace Workbench

structure RouteCounts where
  diagnostics : Nat := 0
  symbols : Nat := 0
  logs : Nat := 0
  unknown : Nat := 0
  decodeErrors : Nat := 0
deriving DecidableEq, Inhabited

namespace RouteCounts

def add (c : RouteCounts) : Item → RouteCounts
  | .record (.diagnostic _) => { c with diagnostics := c.diagnostics + 1 }
  | .record (.symbol _) => { c with symbols := c.symbols + 1 }
  | .record (.log _) => { c with logs := c.logs + 1 }
  | .record (.unknown ..) => { c with unknown := c.unknown + 1 }
  | .failure _ => { c with decodeErrors := c.decodeErrors + 1 }

def routed (c : RouteCounts) : Nat := c.diagnostics + c.symbols + c.logs

end RouteCounts

/-- Handlers on a state `σ`; a handler tells its failure, if it fails. -/
structure Handlers (σ ε : Type) where
  onDiagnostic : Option (DiagnosticRecord → σ → σ × Option ε) := none
  onSymbol : Option (SymbolRecord → σ → σ × Option ε) := none
  onLog : Option (LogRecord → σ → σ × Option ε) := none
  onDecodeError : Option (DecodeError → σ → σ × Option ε) := none

namespace Handlers

variable {σ ε α : Type}

def call (handler : Option (α → σ → σ × Option ε)) (a : α) (s : σ) : σ × Option ε :=
  match handler with
  | none => (s, none)
  | some f => f a s

def dispatch (h : Handlers σ ε) (item : Item) (s : σ) : σ × Option ε :=
  match item with
  | .record (.diagnostic r) => call h.onDiagnostic r s
  | .record (.symbol r) => call h.onSymbol r s
  | .record (.log r) => call h.onLog r s
  | .record (.unknown ..) => (s, none)
  | .failure e => call h.onDecodeError e s

end Handlers

structure Routed (σ : Type) where
  counts : RouteCounts := {}
  state : σ

def Routed.dispatch {σ ε : Type} (h : Handlers σ ε) (r : Routed σ) (item : Item) :
    Routed σ × Option ε :=
  let out := h.dispatch item r.state
  (⟨r.counts.add item, out.1⟩, out.2)

end Workbench
