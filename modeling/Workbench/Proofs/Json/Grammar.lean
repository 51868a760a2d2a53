import Workbench.Proofs.Json.Limits
import Workbench.Proofs.Text.Words

/-! # The grammar of JSON

What a text looks like that holds one value, told without reading it: a string by the way each
code point is written, a number by its parts, a container by its items between commas.
-/

namespace Workbench.Json

open Text (Opens)

def Spaces (s : Text) : Prop := ∀ c ∈ s, isSpace c

/-! ## Strings -/

def LowFollows (s : Text) : Prop :=
  ∃ a b c d m rest, s = .char '\\' :: .char 'u' :: a :: b :: c :: d :: rest ∧
    hex4? [a, b, c, d] = some m ∧ isLowSurrogate m

/-- What stands between the quotes of a string, and the text that it stands for. -/
inductive Spells : Text → Text → Prop where
  | nil : Spells [] []
  | plain {c : CodePoint} {s t : Text} (hq : c ≠ .char '"') (hb : c ≠ .char '\\')
      (hc : 0x20 ≤ c.val) (hs : Spells s t) : Spells (c :: s) (c :: t)
  | escape {d : CodePoint} {c : Char} {s t : Text} (hd : simpleEscape? d = some c)
      (hs : Spells s t) : Spells (.char '\\' :: d :: s) (.char c :: t)
  | unit {a b c d : CodePoint} {n : ℕ} {s t : Text} (hn : hex4? [a, b, c, d] = some n)
      (hl : isHighSurrogate n → ¬ LowFollows s) (hs : Spells s t) :
      Spells (.char '\\' :: .char 'u' :: a :: b :: c :: d :: s) (CodePoint.ofNat n :: t)
  | pair {a b c d a' b' c' d' : CodePoint} {n m : ℕ} {s t : Text}
      (hn : hex4? [a, b, c, d] = some n) (hm : hex4? [a', b', c', d'] = some m)
      (hh : isHighSurrogate n) (hl : isLowSurrogate m) (hs : Spells s t) :
      Spells (.char '\\' :: .char 'u' :: a :: b :: c :: d ::
          .char '\\' :: .char 'u' :: a' :: b' :: c' :: d' :: s)
        (CodePoint.ofNat (0x10000 + (n - 0xD800) * 1024 + (m - 0xDC00)) :: t)

def StringText (t s : Text) : Prop :=
  ∃ body, Spells body t ∧ s = .char '"' :: (body ++ [.char '"'])

/-! ## Numbers -/

def IsWhole (s : Text) : Prop := s.isNumeral ∧ (s.head? = some (.char '0') → s = [.char '0'])

inductive FractionText : Text → Text → Prop where
  | absent : FractionText [] []
  | digits {ds : Text} (hd : ds.isNumeral) : FractionText ds (.char '.' :: ds)

inductive ExponentText : Option ℤ → Text → Prop where
  | absent : ExponentText none []
  | unsigned {e : Char} {ds : Text} (he : e = 'e' ∨ e = 'E') (hd : ds.isNumeral) :
      ExponentText (some ds.digitsVal) (.char e :: ds)
  | plus {e : Char} {ds : Text} (he : e = 'e' ∨ e = 'E') (hd : ds.isNumeral) :
      ExponentText (some ds.digitsVal) (.char e :: .char '+' :: ds)
  | minus {e : Char} {ds : Text} (he : e = 'e' ∨ e = 'E') (hd : ds.isNumeral) :
      ExponentText (some (-ds.digitsVal)) (.char e :: .char '-' :: ds)

inductive NumberText : Value → Text → Prop where
  | mk {negative : Bool} {whole frac fracText expText : Text} {exp : Option ℤ} {v : Value}
      (hw : IsWhole whole) (hf : FractionText frac fracText) (he : ExponentText exp expText)
      (hv : numberOf negative whole frac exp = .ok v) :
      NumberText v ((if negative then [.char '-'] else []) ++ (whole ++ (fracText ++ expText)))

/-! ## Containers -/

section Containers

variable {α : Type}

/-- Items with commas between and spaces around, up to the closing bracket. -/
inductive Listed (closing : CodePoint) (I : α → Text → Prop) : List α → Text → Prop where
  | last {x : α} {s sp : Text} (hx : I x s) (hsp : Spaces sp) :
      Listed closing I [x] (s ++ (sp ++ [closing]))
  | more {x : α} {xs : List α} {s sp sp' u : Text} (hx : I x s) (hsp : Spaces sp)
      (hsp' : Spaces sp') (hu : Listed closing I xs u) :
      Listed closing I (x :: xs) (s ++ (sp ++ .char ',' :: (sp' ++ u)))

def MemberText (I : Value → Text → Prop) (m : Text × Value) (s : Text) : Prop :=
  ∃ name sp sp' u, StringText m.1 name ∧ Spaces sp ∧ Spaces sp' ∧ I m.2 u ∧
    s = name ++ (sp ++ .char ':' :: (sp' ++ u))

end Containers

/-! ## Values -/

/-- A value whose containers hold what `inner` tells; without it there are no containers. Of a
name given twice in an object the last value counts. -/
inductive Written (inner : Option (Value → Text → Prop)) : Value → Text → Prop where
  | string {t s : Text} (hs : StringText t s) : Written inner (.str t) s
  | literal {v : Value} {s : Text} (hs : (s, v) ∈ literals) : Written inner v s
  | number {v : Value} {s : Text} (hs : NumberText v s) : Written inner v s
  | emptyArray {I : Value → Text → Prop} {sp : Text} (hi : inner = some I) (hsp : Spaces sp) :
      Written inner (.arr []) (.char '[' :: (sp ++ [.char ']']))
  | array {I : Value → Text → Prop} {vs : List Value} {sp u : Text} (hi : inner = some I)
      (hsp : Spaces sp) (hu : Listed (.char ']') I vs u) :
      Written inner (.arr vs) (.char '[' :: (sp ++ u))
  | emptyObject {I : Value → Text → Prop} {sp : Text} (hi : inner = some I) (hsp : Spaces sp) :
      Written inner (.obj []) (.char '\x7b' :: (sp ++ [.char '\x7d']))
  | object {I : Value → Text → Prop} {ms : List (Text × Value)} {sp u : Text}
      (hi : inner = some I) (hsp : Spaces sp) (hu : Listed (.char '\x7d') (MemberText I) ms u) :
      Written inner (Value.object ms) (.char '\x7b' :: (sp ++ u))

def WrittenWithin : ℕ → Value → Text → Prop
  | 0 => Written none
  | depth + 1 => Written (some (WrittenWithin depth))

def Holds [Nesting] (v : Value) (s : Text) : Prop :=
  ∃ lead body trail, Spaces lead ∧ Spaces trail ∧ WrittenWithin depthLimit v body ∧
    s = lead ++ (body ++ trail)

end Workbench.Json
