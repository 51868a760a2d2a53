import Workbench.Field

/-! # Build results

What one finished build came to.
-/

namespace Workbench

structure BuildResult where
  root : Text
  /-- None if the process never reported a status. -/
  exitCode : Option Int
  diagnosticCount : Nat := 0
  symbolCount : Nat := 0
  decodeErrors : Nat := 0
  durationMs : Nat := 0
  symbolsCommitted : Bool := false
deriving DecidableEq, Inhabited

namespace BuildResult

def succeeded (r : BuildResult) : Bool := r.exitCode == some 0

def read [Field.Coercion] (ms : Field.Members) : Checked BuildResult :=
  BuildResult.mk <$> Field.required ms "root" Field.text
    <*> Field.required ms "exit_code" (Field.nullable Field.integer)
    <*> Field.optional ms "diagnostic_count" 0 Field.natural
    <*> Field.optional ms "symbol_count" 0 Field.natural
    <*> Field.optional ms "decode_errors" 0 Field.natural
    <*> Field.optional ms "duration_ms" 0 Field.natural
    <*> Field.optional ms "symbols_committed" false Field.switch

end BuildResult

end Workbench
