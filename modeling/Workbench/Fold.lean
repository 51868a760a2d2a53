/-! # Folds that may end early

A step changes a state and may go wrong; the first that does ends the fold, and
the state stays as that step left it.
-/

namespace Workbench

/-- Applies a step to each item, up to the first that goes wrong. -/
def foldUntil {σ α ε : Type} (step : σ → α → σ × Option ε) (s : σ) : List α → σ × Option ε
  | [] => (s, none)
  | a :: rest =>
    match step s a with
    | (s, some e) => (s, some e)
    | (s, none) => foldUntil step s rest

def takeSteps {σ ε : Type} (s : σ) (steps : List (σ → σ × Option ε)) : σ × Option ε :=
  foldUntil (fun s step => step s) s steps

end Workbench
