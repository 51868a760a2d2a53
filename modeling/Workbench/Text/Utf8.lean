import Workbench.Text.Basic

/-! # UTF-8

Encoding and incremental decoding. The decoder reads one octet at a time and
holds an unfinished sequence; a longest ill-formed piece becomes one U+FFFD.
So what is read does not depend on how the octets are cut into chunks.
-/

namespace Workbench.Utf8

/-- The octets of a code point by its number; a lone surrogate is encoded by the same rule. -/
def octets (n : Nat) : List UInt8 :=
  if n < 0x80 then [n.toUInt8]
  else if n < 0x800 then [(0xC0 + n / 64).toUInt8, (0x80 + n % 64).toUInt8]
  else if n < 0x10000 then
    [(0xE0 + n / 4096).toUInt8, (0x80 + n / 64 % 64).toUInt8, (0x80 + n % 64).toUInt8]
  else
    [(0xF0 + n / 262144).toUInt8, (0x80 + n / 4096 % 64).toUInt8, (0x80 + n / 64 % 64).toUInt8,
      (0x80 + n % 64).toUInt8]

def encode (t : Text) : List UInt8 := t.flatMap fun c => octets c.val

def replacement : CodePoint := .char '\uFFFD'

inductive State where
  /-- Between characters. -/
  | start
  /-- Inside a sequence: the number read so far, how many octets are owed after
  the next one, and the range in which the next octet lies. -/
  | inside (acc owed : Nat) (lo hi : UInt8)
  /-- After the first two octets of an encoded surrogate, which are ill-formed
  but told only when the next octet is seen. -/
  | surrogate
deriving DecidableEq, Inhabited

def first (b : UInt8) : Text × State :=
  if b < 0x80 then ([CodePoint.ofNat b.toNat], .start)
  else if 0xC2 ≤ b ∧ b ≤ 0xDF then ([], .inside (b.toNat - 0xC0) 0 0x80 0xBF)
  else if b = 0xE0 then ([], .inside 0 1 0xA0 0xBF)
  else if b = 0xED then ([], .inside 0xD 1 0x80 0x9F)
  else if 0xE1 ≤ b ∧ b ≤ 0xEF then ([], .inside (b.toNat - 0xE0) 1 0x80 0xBF)
  else if b = 0xF0 then ([], .inside 0 2 0x90 0xBF)
  else if b = 0xF4 then ([], .inside 4 2 0x80 0x8F)
  else if 0xF1 ≤ b ∧ b ≤ 0xF3 then ([], .inside (b.toNat - 0xF0) 2 0x80 0xBF)
  else ([replacement], .start)

/-- The octets after which the next one would complete an encoded surrogate. -/
def startsSurrogate (hi b : UInt8) : Bool := hi == 0x9F && 0xA0 ≤ b && b ≤ 0xBF

/-- Reads one octet. One that cannot go on with the unfinished sequence ends it
as a single U+FFFD and is read again where a character begins. -/
def step (s : State) (b : UInt8) : Text × State :=
  match s with
  | .start => first b
  | .surrogate => (replacement :: replacement :: (first b).1, (first b).2)
  | .inside acc owed lo hi =>
    if lo ≤ b ∧ b ≤ hi then
      match owed with
      | 0 => ([CodePoint.ofNat (64 * acc + (b.toNat - 0x80))], .start)
      | n + 1 => ([], .inside (64 * acc + (b.toNat - 0x80)) n 0x80 0xBF)
    else if startsSurrogate hi b then ([], .surrogate)
    else (replacement :: (first b).1, (first b).2)

def feed (s : State) (chunk : List UInt8) : Text × State :=
  let r := chunk.foldl (fun (r : Array CodePoint × State) b =>
    ((step r.2 b).1.foldl Array.push r.1, (step r.2 b).2)) (#[], s)
  (r.1.toList, r.2)

/-- What is left of an unfinished sequence when the input ends. -/
def finish : State → Text
  | .start => []
  | .inside .. => [replacement]
  | .surrogate => [replacement, replacement]

def decode (bytes : List UInt8) : Text :=
  (feed .start bytes).1 ++ finish (feed .start bytes).2

end Workbench.Utf8
