import Workbench.Text.Basic

/-! # Internet addresses

Which texts are addresses of the fourth and of the sixth version, and which
name a later version. Only the form matters here, not the number.
-/

namespace Workbench.Host

def isOctet (t : Text) : Bool :=
  t.isNumeral && t.length ≤ 3 && (t.head? != some (.char '0') || t.length == 1) &&
    t.digitsVal ≤ 255

def isV4 (t : Text) : Bool :=
  let parts := t.splitOn '.'
  parts.length == 4 && parts.all isOctet

def isHex (c : CodePoint) : Bool := c.hexVal?.isSome

def isGroup (t : Text) : Bool := !t.isEmpty && t.length ≤ 4 && t.all isHex

/-- The places, apart from both ends, at which an empty group stands. -/
def gaps (groups : List Text) : List Nat :=
  (List.range groups.length).filter fun i =>
    0 < i && i + 1 < groups.length && (groups[i]?.getD []).isEmpty

def isGrouped (groups : List Text) : Bool :=
  match gaps groups with
  | [] => groups.length == 8 && groups.all isGroup
  | [gap] =>
    let before := groups.take gap
    let after := groups.drop (gap + 1)
    let before := if before.head? == some [] then before.drop 1 else before
    let after := if after.getLast? == some [] then after.dropLast else after
    (groups.head? != some [] || gap == 1) &&
      (groups.getLast? != some [] || gap + 2 == groups.length) &&
      before.length + after.length < 8 && before.all isGroup && after.all isGroup
  | _ => false

/-- The groups with an address of the fourth version at the end taken as two. -/
def groups? (t : Text) : Option (List Text) :=
  let parts := t.splitOn ':'
  let last := parts.getLastD []
  if parts.length < 3 then none
  else if last.contains (.char '.') then
    if isV4 last then some (parts.dropLast ++ [Text.ofNat 0, Text.ofNat 0]) else none
  else some parts

def isV6 (t : Text) : Bool :=
  let parts := Text.cut '%' t
  let zone := match parts.2 with
    | none => true
    | some z => !z.isEmpty && !z.contains (.char '%')
  !t.contains (.char '/') && zone && match groups? parts.1 with
    | some gs => gs.length ≤ 9 && isGrouped gs
    | none => false

def isFuture (t : Text) : Bool :=
  match t with
  | .char 'v' :: rest =>
    let version := rest.takeWhile isHex
    match rest.drop version.length with
    | .char '.' :: name => !version.isEmpty && !name.isEmpty && !name.contains (.char '\n')
    | _ => false
  | _ => false

end Workbench.Host
