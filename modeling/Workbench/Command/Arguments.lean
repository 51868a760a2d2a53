import Workbench.Text.Quoted

/-! # Command line arguments

Options begin with a hyphen, may be cut short while one option is meant, and
may have their value after an equals sign. All else is positional, and so is
what follows a double hyphen. Positionals take what stands between options.
-/

namespace Workbench.Command

inductive Effect where
  | value
  | switch
  | help
  | version
deriving DecidableEq

structure Opt where
  names : List Text
  effect : Effect
deriving DecidableEq

/-- How many arguments a positional takes; `rest` takes the options after it as well. -/
inductive Arity where
  | single
  | atMostOne
  | anyNumber
  | atLeastOne
  | rest
deriving DecidableEq

structure Positional where
  name : Text
  arity : Arity
deriving DecidableEq

structure Usage where
  program : Text
  options : List Opt
  positionals : List Positional

inductive Stop where
  | help
  | version
  | error (program message : Text)
  /-- The value of an option is a separator, which counts as no value. -/
  | noValue
deriving DecidableEq

def errorLine (program message : Text) : Text := program ++ ": error: " ++ message

namespace Opt

def title (o : Opt) : Text := Text.join "/" o.names

end Opt

/-! ## Marks -/

/-- An argument that is an option: which one under which name, with the value
after its equals sign; an option that is not known has no meaning. -/
structure Found where
  option : Opt
  name : Text
  value : Option Text

inductive Mark where
  | word
  | separator
  | option (meaning : Option Found)

structure Token where
  text : Text
  mark : Mark

def hyphen : CodePoint := .char '-'

def separatorText : Text := "--"

def isNegativeNumber : Text → Bool
  | .char '-' :: t =>
    let parts := Text.cut '.' t
    match parts.2 with
    | none => Text.isNumeral parts.1
    | some frac => parts.1.all (·.isDigit) && Text.isNumeral frac
  | _ => false

namespace Usage

def names (u : Usage) : List (Text × Opt) :=
  u.options.flatMap fun o => o.names.map (·, o)

def named? (u : Usage) (name : Text) : Option Opt := (u.names.find? (·.1 = name)).map (·.2)

/-- The options that an argument may be short for. -/
def candidates (u : Usage) (arg : Text) : List Found :=
  match arg with
  | .char '-' :: .char '-' :: _ =>
    let parts := Text.cut '=' arg
    u.names.filterMap fun n =>
      if parts.1.isPrefixOf n.1 then some ⟨n.2, n.1, parts.2⟩ else none
  | _ =>
    u.names.filterMap fun n =>
      if n.1 = arg.take 2 then some ⟨n.2, n.1, some (arg.drop 2)⟩
      else if arg.isPrefixOf n.1 then some ⟨n.2, n.1, none⟩
      else none

def ambiguous (u : Usage) (arg : Text) (found : List Found) : Stop :=
  .error u.program ("ambiguous option: " ++ arg ++ " could match " ++
    Text.join ", " (found.map (·.name)))

def spelled? (u : Usage) (arg : Text) : Option Found :=
  match u.named? arg with
  | some o => some ⟨o, arg, none⟩
  | none =>
    match Text.cut '=' arg with
    | (_, none) => none
    | (name, some value) => (u.named? name).map fun o => ⟨o, name, some value⟩

def mark (u : Usage) (arg : Text) : Except Stop Mark :=
  if arg.head? ≠ some hyphen || arg = [hyphen] then .ok .word
  else match u.spelled? arg with
    | some f => .ok (.option (some f))
    | none =>
      match u.candidates arg with
      | [f] => .ok (.option (some f))
      | f :: g :: more => .error (u.ambiguous arg (f :: g :: more))
      | [] =>
        if isNegativeNumber arg || arg.contains (.char ' ') then .ok .word
        else .ok (.option none)

def tokens (u : Usage) : List Text → Except Stop (List Token)
  | [] => .ok []
  | arg :: rest =>
    if arg = separatorText then .ok (⟨arg, .separator⟩ :: rest.map (⟨·, .word⟩))
    else do
      let m ← u.mark arg
      return ⟨arg, m⟩ :: (← u.tokens rest)

end Usage

/-! ## Positionals -/

def Token.isWord (t : Token) : Bool :=
  match t.mark with
  | .word => true
  | _ => false

def Token.isSeparator (t : Token) : Bool :=
  match t.mark with
  | .separator => true
  | _ => false

def Token.isOption (t : Token) : Bool :=
  match t.mark with
  | .option _ => true
  | _ => false

def separatorCount (ts : List Token) : Nat := (ts.takeWhile (·.isSeparator)).length

def countOne (ts : List Token) : Option Nat :=
  let n := separatorCount ts
  match ts.drop n with
  | t :: rest => if t.isWord then some (n + 1 + separatorCount rest) else none
  | [] => none

def Arity.count (ts : List Token) : Arity → Option Nat
  | single => countOne ts
  | atMostOne => some ((countOne ts).getD (separatorCount ts))
  | anyNumber => some (ts.takeWhile (!·.isOption)).length
  | atLeastOne => (countOne ts).map fun _ => (ts.takeWhile (!·.isOption)).length
  | rest => (countOne ts).map fun _ => ts.length

/-- The first separator is left out, except where the rest is taken as it is. -/
def Arity.values (args : List Text) : Arity → List Text
  | rest => args
  | _ => args.erase separatorText

structure Parsed where
  options : List (Opt × Text) := []
  positionals : List (Positional × List Text) := []
  extras : List Text := []

/-- As many positionals as the tokens have arguments for: these with their
arguments, those that are left, the tokens that are left. -/
def takePositionals (ts : List Token) :
    List Positional → List (Positional × List Text) × List Positional × List Token
  | [] => ([], [], ts)
  | p :: rest =>
    match p.arity.count ts with
    | none => ([], p :: rest, ts)
    | some n =>
      let r := takePositionals (ts.drop n) rest
      ((p, p.arity.values ((ts.take n).map (·.text))) :: r.1, r.2)

/-! ## Options -/

def argumentError (u : Usage) (o : Opt) (message : Text) : Stop :=
  .error u.program ("argument " ++ o.title ++ ": " ++ message)

def ignoredValue (u : Usage) (o : Opt) (value : Text) : Stop :=
  argumentError u o ("ignored explicit argument " ++ value.quoted)

def perform (o : Opt) : Except Stop (Option (Opt × Text)) :=
  match o.effect with
  | .help => .error .help
  | .version => .error .version
  | _ => .ok (some (o, []))

/-- Short options that are written together: all but the last have no value. -/
def performAll (u : Usage) (o : Opt) : Text → Except Stop (Option (Opt × Text))
  | [] => perform o
  | c :: rest =>
    match u.named? [hyphen, c] with
    | some o => performAll u o rest
    | none => .error (ignoredValue u o (c :: rest))

def takeOption (u : Usage) (f : Found) (rest : List Token) :
    Except Stop (Option (Opt × Text) × List Token) :=
  match f.option.effect, f.value with
  | .value, some v =>
    if v = separatorText then .error .noValue else .ok (some (f.option, v), rest)
  | .value, none =>
    match rest with
    | t :: more =>
      if t.isWord then .ok (some (f.option, t.text), more)
      else .error (argumentError u f.option "expected one argument")
    | [] => .error (argumentError u f.option "expected one argument")
  | _, none => (perform f.option).map (·, rest)
  | _, some v =>
    if f.name.length = 2 ∧ v ≠ [] then (performAll u f.option v).map (·, rest)
    else .error (ignoredValue u f.option v)

/-! ## Parsing -/

/-- Reads tokens in order; the bound on their number is an argument. -/
def readTokens (u : Usage) :
    Nat → List Positional → List Token → Parsed → Except Stop (Parsed × List Positional)
  | 0, left, _, p => .ok (p, left)
  | n + 1, left, ts, p =>
    match ts with
    | ⟨text, .option none⟩ :: rest =>
      readTokens u n left rest { p with extras := p.extras ++ [text] }
    | ⟨_, .option (some f)⟩ :: rest => do
      let (setting, rest) ← takeOption u f rest
      readTokens u n left rest { p with options := p.options ++ setting.toList }
    | _ =>
      let (taken, left, rest) := takePositionals ts left
      let p := { p with positionals := p.positionals ++ taken }
      if rest.any (·.isOption) then
        let skipped : List Token :=
          if rest.length < ts.length then [] else rest.takeWhile (!·.isOption)
        readTokens u n left (rest.drop skipped.length)
          { p with extras := p.extras ++ skipped.map (·.text) }
      else .ok ({ p with extras := p.extras ++ rest.map (·.text) }, left)

def missing (left : List Positional) : List Text :=
  (left.filter fun p => p.arity != .atMostOne && p.arity != .anyNumber).map (·.name)

def Usage.parse (u : Usage) (args : List Text) : Except Stop Parsed := do
  let ts ← u.tokens args
  let (p, left) ← readTokens u (ts.length + 1) u.positionals ts {}
  match missing left with
  | [] => return p
  | names =>
    throw (.error u.program ("the following arguments are required: " ++ Text.join ", " names))

namespace Parsed

def value? (p : Parsed) (name : Text) : Option Text :=
  (p.options.reverse.find? (name ∈ ·.1.names)).map (·.2)

def isSet (p : Parsed) (name : Text) : Bool := (p.value? name).isSome

def arguments (p : Parsed) (name : Text) : List Text :=
  ((p.positionals.find? (·.1.name == name)).map (·.2)).getD []

end Parsed

end Workbench.Command
