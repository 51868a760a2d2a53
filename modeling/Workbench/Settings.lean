import Workbench.Text.Case
import Workbench.Version

/-! # Settings

Options are given explicitly or through environment variables that begin with
`REPROTO_`; an explicit option wins. Names are matched without regard to case.
-/

namespace Workbench

open Json (Value)

abbrev Environment := List (Text × Text)

/-- The value of a variable; the last one counts. -/
def Environment.get? (env : Environment) (name : Text) : Option Text :=
  (env.reverse.find? (·.1 = name)).map (·.2)

structure Settings where
  executable : Option Text := none
  type : Option Tier := none
  debug : Bool := false
  log : Option Text := none
  initTimeout : Binary64 := Binary64.ofInt 30
  defaultType : Tier := .simple
  threshold : Text := "0.3.35"
  singleFlight : Bool := false
  logLevel : Text := "INFO"
  logFile : Option Text := none

namespace Settings

def defaultThreshold : Version := ⟨0, 3, 35⟩

/-- A text option; a blank text leaves it unset. -/
def textOrUnset (v : Value) : Except Field.Fault (Option Text) :=
  match v with
  | .str t => .ok (if t.isBlank then none else some t)
  | v => Field.nullable Field.text v

def tierName (v : Value) : Except Field.Fault Tier := do
  match Tier.ofName? (← Field.listed [Tier.simple.name, Tier.languageClient.name] v) with
  | some tier => .ok tier
  | none => .error .notListed

def versionText (v : Value) : Except Field.Fault Text := do
  let t ← Field.text v
  match Version.parse t with
  | .ok _ => .ok t
  | .error f => .error (.rejected ("Value error, " ++ f.message))

def variablePrefix : Text := "reproto_"

def ofEnvironment (env : Environment) : Field.Members :=
  env.filterMap fun (name, value) =>
    let name : Text := Text.lower name
    if variablePrefix.isPrefixOf name then
      some (name.drop variablePrefix.length, .str value)
    else none

/-- All options that are given, by name. Explicit names count in capitals or not, as those of
variables do: a keyword `EXECUTABLE` sets the executable. -/
def options (explicit : Field.Members) (env : Environment) : Field.Members :=
  (OrderedMap.ofList (ofEnvironment env ++ explicit.map fun m => (Text.lower m.1, m.2))).entries

def read [Field.Coercion] (explicit : Field.Members) (env : Environment) : Checked Settings :=
  let ms := options explicit env
  let d : Settings := {}
  Settings.mk <$> Field.optional ms "executable" d.executable textOrUnset
    <*> Field.optional ms "type" d.type (Field.nullable tierName)
    <*> Field.optional ms "debug" d.debug Field.switch
    <*> Field.optional ms "log" d.log textOrUnset
    <*> Field.optional ms "init_timeout" d.initTimeout Field.positiveFloat
    <*> Field.optional ms "default_type" d.defaultType tierName
    <*> Field.optional ms "threshold" d.threshold versionText
    <*> Field.optional ms "single_flight" d.singleFlight Field.switch
    <*> Field.optional ms "log_level" d.logLevel Field.text
    <*> Field.optional ms "log_file" d.logFile textOrUnset

/-- The threshold as a version; settings that were read always have one. -/
def thresholdVersion (s : Settings) : Version :=
  (Version.parse s.threshold).toOption.getD defaultThreshold

def tier (s : Settings) (version : Option Version) : Tier :=
  Tier.select version s.type s.defaultType s.thresholdVersion

def languageServerArgs (s : Settings) : List Text :=
  let debug : List Text := if s.debug then ["--debug"] else []
  let log : List Text := match s.log with
    | some path => ["--log", path]
    | none => []
  let command : List Text := ["language-server"]
  command ++ debug ++ log

end Settings

end Workbench
