import Workbench.Field
import Workbench.Json.Reader
import Workbench.Text.Blank
import Workbench.Text.Quoted

/-! # Versions and tiers

A version has three components. The tier says how much a toolchain can do: a
version reaches the upper tier if each component reaches the threshold's.
-/

namespace Workbench

structure Version where
  major : Nat
  minor : Nat
  patch : Nat
deriving DecidableEq, Inhabited

namespace Version

def text (v : Version) : Text :=
  Text.ofNat v.major ++ "." ++ Text.ofNat v.minor ++ "." ++ Text.ofNat v.patch

/-- Why a text is no version: it has another form, or a component too long to read. -/
inductive Fault where
  | notVersion (t : Text)
  | longComponent (digits : Nat)
deriving DecidableEq

def Fault.message : Fault → Text
  | notVersion t => "not a version: " ++ t.quoted
  | longComponent digits => Json.longIntegerMessage digits

def component (t : Text) : Except Fault Nat :=
  if Json.integerLimit < t.length then .error (.longComponent t.length) else .ok t.digitsVal

def ofComponents (a b c : Text) : Except Fault Version := do
  return ⟨← component a, ← component b, ← component c⟩

def parse (t : Text) : Except Fault Version :=
  match t.strip.splitOn '.' with
  | [a, b, c] =>
    if a.isNumeral && b.isNumeral && c.isNumeral then ofComponents a b c
    else .error (.notVersion t)
  | _ => .error (.notVersion t)

def pieces (t : Text) : List Text :=
  (t.splitOn '.').flatMap (Text.splitOn '-')

/-- The version that a tool reports: its name, then a word that begins with
three components. -/
def ofReport (tool output : Text) : Except Fault (Option Version) :=
  match output.words with
  | name :: word :: _ =>
    if name = tool then
      match pieces word with
      | a :: b :: c :: _ =>
        if a.isNumeral && b.isNumeral && c.isNumeral then
          (ofComponents a b c).map some
        else .ok none
      | _ => .ok none
    else .ok none
  | _ => .ok none

/-- Each component reaches that of the threshold. -/
def meets (v threshold : Version) : Bool :=
  threshold.major ≤ v.major && threshold.minor ≤ v.minor && threshold.patch ≤ v.patch

def read [Field.Coercion] (ms : Field.Members) : Checked Version :=
  Version.mk <$> Field.required ms "major" Field.natural
    <*> Field.required ms "minor" Field.natural
    <*> Field.required ms "patch" Field.natural

end Version

inductive Tier where
  | simple
  | languageClient
deriving DecidableEq, Inhabited

namespace Tier

def name : Tier → Text
  | simple => "simple"
  | languageClient => "language-client"

def ofName? (t : Text) : Option Tier := [simple, languageClient].find? (·.name == t)

/-- The tier that is forced, else the one of the version, else the default. -/
def select (version : Option Version) (forced : Option Tier) (default : Tier)
    (threshold : Version) : Tier :=
  match forced, version with
  | some tier, _ => tier
  | none, none => default
  | none, some v => if v.meets threshold then languageClient else simple

end Tier

end Workbench
