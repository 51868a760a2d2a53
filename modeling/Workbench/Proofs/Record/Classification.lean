import Workbench.Proofs.Field.Integer
import Workbench.Proofs.Json.Exact
import Workbench.Proofs.OrderedMap
import Workbench.Proofs.Stream.Isolation
import Workbench.Proofs.Text.Case

/-! # What a line shows

A line shows a record if it is an object with a type that is known and with the fields of the
type, or an object of another type or of none. Which record this is, is told by the members of
the object alone. A line that shows no record is rejected, unless its reading is given up.
-/

namespace Workbench

open Json (Value Spaces Listed MemberText WrittenWithin Written)
open Workbench.Field (Members lookup Counts LaxIntegers)

variable {ms raw : Members} {line name t : Text}

/-! ## Objects on a line -/

/-- The line is an object with these members, in the order in which they are written. -/
def ObjectLine [Json.Nesting] (raw : Members) (line : Text) : Prop :=
  ∃ depth lead sp u trail, Json.depthLimit = depth + 1 ∧ Spaces lead ∧ Spaces sp ∧ Spaces trail ∧
    (raw = [] ∧ u = [.char '\x7d'] ∨
      Listed (.char '\x7d') (MemberText (WrittenWithin depth)) raw u) ∧
    line = lead ++ (.char '\x7b' :: (sp ++ u) ++ trail)

theorem not_number_obj {s : Text} : ¬ Json.NumberText (.obj ms) s := by
  rintro ⟨-, -, -, hv⟩
  unfold Json.numberOf at hv
  split at hv
  · split at hv <;> cases hv
  · cases hv

theorem exists_written_of_writtenWithin {depth : ℕ} {v : Value} {s : Text}
    (h : WrittenWithin depth v s) : ∃ inner, Written inner v s ∧
      ∀ I, inner = some I → ∃ d, depth = d + 1 ∧ I = WrittenWithin d := by
  cases depth with
  | zero => exact ⟨none, h, nofun⟩
  | succ d => exact ⟨_, h, fun I hi => ⟨d, rfl, (Option.some.inj hi).symm⟩⟩

theorem read_object_iff [Json.Nesting] :
    Json.read line = .ok (.obj ms) ↔ ∃ raw, ObjectLine raw line ∧ OrderedMap.Condensed raw ms := by
  simp only [Json.read_eq_ok_iff, OrderedMap.condensed_iff, Json.Holds]
  constructor
  · rintro ⟨lead, body, trail, hl, ht, hb, rfl⟩
    obtain ⟨inner, hw, hi⟩ := exists_written_of_writtenWithin hb
    generalize hv : Value.obj ms = v at hw
    cases hw with
    | string | emptyArray | array => cases hv
    | literal hs =>
      subst hv
      simp [Json.mem_literals_iff] at hs
    | number hs => exact absurd (hv ▸ hs) not_number_obj
    | @emptyObject I sp he hsp =>
      cases hv
      obtain ⟨depth, hdepth, -⟩ := hi I he
      exact ⟨[], ⟨depth, lead, sp, _, trail, hdepth, hl, hsp, ht, .inl ⟨rfl, rfl⟩, rfl⟩, rfl⟩
    | @object I raw sp u he hsp hu =>
      obtain ⟨depth, hdepth, rfl⟩ := hi I he
      cases hv
      exact ⟨raw, ⟨depth, lead, sp, u, trail, hdepth, hl, hsp, ht, .inr hu, rfl⟩, rfl⟩
  · rintro ⟨raw, ⟨depth, lead, sp, u, trail, hdepth, hl, hsp, ht, hu, rfl⟩, rfl⟩
    refine ⟨lead, _, trail, hl, ht, ?_, rfl⟩
    rw [hdepth]
    rcases hu with ⟨rfl, rfl⟩ | hu
    · exact .emptyObject rfl hsp
    · exact .object rfl hsp hu

/-! ## What members tell -/

def HasText (ms : Members) (name t : Text) : Prop := lookup ms name = some (.str t)

def HasTextOr (ms : Members) (name default t : Text) : Prop :=
  HasText ms name t ∨ lookup ms name = none ∧ t = default

def HasCoordinate [Field.Coercion] (ms : Members) (name : Text) (n : ℕ) : Prop :=
  ∃ v, lookup ms name = some v ∧ Counts v n

def HasRange [Field.Coercion] (ms : Members) (name : Text) (r : Range) : Prop :=
  ∃ inner, lookup ms name = some (.obj inner) ∧
    HasCoordinate inner "line_start" r.lineStart ∧ HasCoordinate inner "col_start" r.colStart ∧
    HasCoordinate inner "line_end" r.lineEnd ∧ HasCoordinate inner "col_end" r.colEnd

/-- The kind whose name the member spells in small letters or capitals, and none if the member
is anything else. -/
def HasKind (ms : Members) (name : Text) (kind : Option SymbolKind) : Prop :=
  ∀ k, kind = some k ↔ ∃ t, HasText ms name t ∧ List.Forall₂ CodePoint.IsLetter t k.name

/-- The record that an object with these members shows. -/
inductive Shows [Field.Coercion] (ms : Members) : Record → Prop where
  | diagnostic {path message : Text} {range : Range} (hty : HasText ms "type" "diagnostics")
      (hp : HasText ms "path" path) (hr : HasRange ms "range" range)
      (hm : HasText ms "message" message) : Shows ms (.diagnostic ⟨path, range, message⟩)
  | symbol {kind : Option SymbolKind} {name package path : Text} {range : Range}
      (hty : HasText ms "type" "symbol") (hk : HasKind ms "kind" kind) (hn : HasText ms "name" name)
      (hg : HasTextOr ms "package" [] package) (hp : HasText ms "path" path)
      (hr : HasRange ms "range" range) : Shows ms (.symbol ⟨kind, name, package, path, range⟩)
  | log {level message : Text} (hty : HasText ms "type" "log")
      (hl : HasTextOr ms "level" "info" level) (hm : HasTextOr ms "message" [] message) :
      Shows ms (.log ⟨level, message⟩)
  | unknown {type : Option Text} (hty : ∀ t, type = some t ↔ HasText ms "type" t)
      (hno : ∀ t, type = some t → t ≠ "diagnostics" ∧ t ≠ "symbol" ∧ t ≠ "log") :
      Shows ms (.unknown type ms)

/-! ## Checks -/

namespace Checked

variable {α β : Type} {f : Checked (α → β)} {x : Checked α} {g : α → β} {b : β}

theorem map_eq_ok_iff : g <$> x = .ok b ↔ ∃ a, x = .ok a ∧ g a = b := by
  change x.map g = .ok b ↔ _
  cases x <;> simp [Checked.map]

theorem seq_eq_ok_iff : f <*> x = .ok b ↔ ∃ h a, f = .ok h ∧ x = .ok a ∧ h a = b := by
  change f.app x = .ok b ↔ _
  cases f <;> cases x <;> simp [Checked.app]

end Checked

namespace Field

variable {α : Type} {read : Value → Except Fault α} {a d : α}

theorem check_eq_ok_iff {r : Except Fault α} : check name r = .ok a ↔ r = .ok a := by
  cases r <;> simp [check]

theorem required_eq_ok_iff :
    required ms name read = .ok a ↔ ∃ v, lookup ms name = some v ∧ read v = .ok a := by
  unfold required
  cases lookup ms name <;> simp [check_eq_ok_iff]

theorem optional_eq_ok_iff : optional ms name d read = .ok a ↔
    (∃ v, lookup ms name = some v ∧ read v = .ok a) ∨ lookup ms name = none ∧ a = d := by
  unfold optional
  cases lookup ms name with
  | none => simp [eq_comm]
  | some v => simp [check_eq_ok_iff]

theorem nested_eq_ok_iff {read : Members → Checked α} : nested ms name read = .ok a ↔
    ∃ inner, lookup ms name = some (.obj inner) ∧ read inner = .ok a := by
  unfold nested
  cases lookup ms name with
  | none => simp
  | some v =>
    cases v with
    | obj inner =>
      cases h : read inner <;> simp [h]
    | _ => simp

theorem text_eq_ok_iff {v : Value} : text v = .ok t ↔ v = .str t := by
  cases v <;> simp [text]

theorem required_text_iff : required ms name text = .ok t ↔ HasText ms name t := by
  simp [required_eq_ok_iff, text_eq_ok_iff, HasText]

theorem optional_text_iff {d : Text} : optional ms name d text = .ok t ↔ HasTextOr ms name d t := by
  simp [optional_eq_ok_iff, text_eq_ok_iff, HasTextOr, HasText]

theorem required_natural_iff [Field.Coercion] (hlax : LaxIntegers) {n : ℕ} :
    required ms name natural = .ok n ↔ HasCoordinate ms name n := by
  simp [required_eq_ok_iff, natural_eq_ok_iff hlax, HasCoordinate]

theorem range_read_iff [Field.Coercion] (hlax : LaxIntegers) {r : Range} : Range.read ms = .ok r ↔
    HasCoordinate ms "line_start" r.lineStart ∧ HasCoordinate ms "col_start" r.colStart ∧
      HasCoordinate ms "line_end" r.lineEnd ∧ HasCoordinate ms "col_end" r.colEnd := by
  simp only [Range.read, Checked.seq_eq_ok_iff, Checked.map_eq_ok_iff, required_natural_iff hlax]
  constructor
  · rintro ⟨_, n, ⟨_, m, ⟨_, l, ⟨k, hk, rfl⟩, hl, rfl⟩, hm, rfl⟩, hn, rfl⟩
    exact ⟨hk, hl, hm, hn⟩
  · rintro ⟨hk, hl, hm, hn⟩
    exact ⟨_, _, ⟨_, _, ⟨_, _, ⟨_, hk, rfl⟩, hl, rfl⟩, hm, rfl⟩, hn, rfl⟩

theorem nested_range_iff [Field.Coercion] (hlax : LaxIntegers) {r : Range} :
    nested ms name Range.read = .ok r ↔ HasRange ms name r := by
  simp only [nested_eq_ok_iff, range_read_iff hlax, HasRange]

end Field

/-! ## Kinds -/

namespace SymbolKind

variable {v : Value} {k : SymbolKind}

theorem ofName?_eq_some_iff : ofName? t = some k ↔ t = k.name := by
  constructor
  · intro h
    have hname := List.find?_some (l := all) h
    exact (eq_of_beq hname).symm
  · rintro rfl
    cases k <;> decide

theorem name_isPlainLetter (k : SymbolKind) : ∀ d ∈ k.name, d.IsPlainLetter := by
  cases k <;> decide

theorem ofValue?_eq_some_iff :
    ofValue? v = some k ↔ ∃ t, v = .str t ∧ List.Forall₂ CodePoint.IsLetter t k.name := by
  cases v with
  | str t => simp [ofValue?, ofName?_eq_some_iff, Text.lower_eq_iff k.name_isPlainLetter]
  | _ => simp [ofValue?]

end SymbolKind

theorem hasKind_iff {kind : Option SymbolKind} :
    HasKind ms name kind ↔ kind = (lookup ms name).bind SymbolKind.ofValue? := by
  have hbind (k : SymbolKind) : (lookup ms name).bind SymbolKind.ofValue? = some k ↔
      ∃ t, HasText ms name t ∧ List.Forall₂ CodePoint.IsLetter t k.name := by
    rw [Option.bind_eq_some_iff]
    constructor
    · rintro ⟨v, hv, hk⟩
      obtain ⟨t, rfl, ht⟩ := SymbolKind.ofValue?_eq_some_iff.mp hk
      exact ⟨t, hv, ht⟩
    · rintro ⟨t, hv, ht⟩
      exact ⟨_, hv, SymbolKind.ofValue?_eq_some_iff.mpr ⟨t, rfl, ht⟩⟩
  simp only [HasKind, ← hbind]
  exact Option.ext_iff.symm

theorem optional_kind_iff {kind : Option SymbolKind} :
    Field.optional ms name none (fun v => .ok (SymbolKind.ofValue? v)) = .ok kind ↔
      HasKind ms name kind := by
  rw [Field.optional_eq_ok_iff, hasKind_iff]
  cases lookup ms name with
  | none => simp
  | some v => simp [eq_comm]

theorem existsUnique_hasKind (ms : Members) (name : Text) : ∃! kind, HasKind ms name kind :=
  ⟨_, hasKind_iff.mpr rfl, fun _ h => hasKind_iff.mp h⟩

/-! ## Types -/

theorem typeName?_eq_some_iff : typeName? ms = some t ↔ HasText ms "type" t := by
  unfold typeName? HasText
  split
  · next u hu => simp [hu]
  · next hno => exact ⟨nofun, fun h => absurd h (hno t)⟩

namespace RecordType

variable {type : RecordType}

theorem ofName?_eq_some : ofName? t = some type ↔ t = type.name := by
  constructor
  · intro h
    have hname := List.find?_some (l := [diagnostics, symbol, log]) h
    exact (eq_of_beq hname).symm
  · rintro rfl
    cases type <;> decide

theorem ofName?_eq_none_iff :
    ofName? t = none ↔ t ≠ "diagnostics" ∧ t ≠ "symbol" ∧ t ≠ "log" := by
  simp only [Option.eq_none_iff_forall_ne_some, ne_eq, ofName?_eq_some]
  constructor
  · intro h
    exact ⟨h diagnostics, h symbol, h log⟩
  · rintro ⟨hd, hs, hl⟩ type
    cases type <;> assumption

variable {r : Record}

theorem read_diagnostics_iff [Field.Coercion] (hlax : LaxIntegers) :
    diagnostics.read ms = .ok r ↔ ∃ path range message,
    HasText ms "path" path ∧ HasRange ms "range" range ∧ HasText ms "message" message ∧
      .diagnostic ⟨path, range, message⟩ = r := by
  simp only [read, Checked.seq_eq_ok_iff, Checked.map_eq_ok_iff, Field.required_text_iff,
    Field.nested_range_iff hlax]
  constructor
  · rintro ⟨_, m, ⟨_, a, ⟨p, hp, rfl⟩, ha, rfl⟩, hm, rfl⟩
    exact ⟨p, a, m, hp, ha, hm, rfl⟩
  · rintro ⟨p, a, m, hp, ha, hm, rfl⟩
    exact ⟨_, m, ⟨_, a, ⟨p, hp, rfl⟩, ha, rfl⟩, hm, rfl⟩

theorem read_symbol_iff [Field.Coercion] (hlax : LaxIntegers) :
    symbol.read ms = .ok r ↔ ∃ kind name package path range,
    HasKind ms "kind" kind ∧ HasText ms "name" name ∧ HasTextOr ms "package" [] package ∧
      HasText ms "path" path ∧ HasRange ms "range" range ∧
      .symbol ⟨kind, name, package, path, range⟩ = r := by
  simp only [read, Checked.seq_eq_ok_iff, Checked.map_eq_ok_iff, Field.required_text_iff,
    Field.optional_text_iff, optional_kind_iff, Field.nested_range_iff hlax]
  constructor
  · rintro ⟨_, a, ⟨_, p, ⟨_, g, ⟨_, n, ⟨k, hk, rfl⟩, hn, rfl⟩, hg, rfl⟩, hp, rfl⟩, ha, rfl⟩
    exact ⟨k, n, g, p, a, hk, hn, hg, hp, ha, rfl⟩
  · rintro ⟨k, n, g, p, a, hk, hn, hg, hp, ha, rfl⟩
    exact ⟨_, a, ⟨_, p, ⟨_, g, ⟨_, n, ⟨k, hk, rfl⟩, hn, rfl⟩, hg, rfl⟩, hp, rfl⟩, ha, rfl⟩

theorem read_log_iff [Field.Coercion] : log.read ms = .ok r ↔ ∃ level message,
    HasTextOr ms "level" "info" level ∧ HasTextOr ms "message" [] message ∧
      .log ⟨level, message⟩ = r := by
  simp only [read, Checked.seq_eq_ok_iff, Checked.map_eq_ok_iff, Field.optional_text_iff]
  constructor
  · rintro ⟨_, m, ⟨l, hl, rfl⟩, hm, rfl⟩
    exact ⟨l, m, hl, hm, rfl⟩
  · rintro ⟨l, m, hl, hm, rfl⟩
    exact ⟨_, m, ⟨l, hl, rfl⟩, hm, rfl⟩

end RecordType

theorem bind_ofName?_eq_some_iff {type : RecordType} :
    (typeName? ms).bind RecordType.ofName? = some type ↔ HasText ms "type" type.name := by
  simp [Option.bind_eq_some_iff, RecordType.ofName?_eq_some, typeName?_eq_some_iff]

theorem bind_ofName?_eq_none_iff : (typeName? ms).bind RecordType.ofName? = none ↔
    ∀ t, typeName? ms = some t → t ≠ "diagnostics" ∧ t ≠ "symbol" ∧ t ≠ "log" := by
  simp only [Option.bind_eq_none_iff, RecordType.ofName?_eq_none_iff]

/-! ## Records -/

theorem shows_iff [Field.Coercion] (hlax : LaxIntegers) {r : Record} : Shows ms r ↔
    (∃ type : RecordType, HasText ms "type" type.name ∧ type.read ms = .ok r) ∨
      (typeName? ms).bind RecordType.ofName? = none ∧ .unknown (typeName? ms) ms = r := by
  constructor
  · rintro (⟨hty, hp, hr, hm⟩ | ⟨hty, hk, hn, hg, hp, hr⟩ | ⟨hty, hl, hm⟩ | @⟨type, hty, hno⟩)
    · exact .inl ⟨.diagnostics, hty,
        (RecordType.read_diagnostics_iff hlax).mpr ⟨_, _, _, hp, hr, hm, rfl⟩⟩
    · exact .inl ⟨.symbol, hty,
        (RecordType.read_symbol_iff hlax).mpr ⟨_, _, _, _, _, hk, hn, hg, hp, hr, rfl⟩⟩
    · exact .inl ⟨.log, hty, RecordType.read_log_iff.mpr ⟨_, _, hl, hm, rfl⟩⟩
    · obtain rfl : typeName? ms = type :=
        Option.ext fun t => typeName?_eq_some_iff.trans (hty t).symm
      exact .inr ⟨bind_ofName?_eq_none_iff.mpr hno, rfl⟩
  · rintro (⟨type, hty, h⟩ | ⟨hno, rfl⟩)
    · cases type with
      | diagnostics =>
        obtain ⟨_, _, _, hp, hr, hm, rfl⟩ := (RecordType.read_diagnostics_iff hlax).mp h
        exact .diagnostic hty hp hr hm
      | symbol =>
        obtain ⟨_, _, _, _, _, hk, hn, hg, hp, hr, rfl⟩ := (RecordType.read_symbol_iff hlax).mp h
        exact .symbol hty hk hn hg hp hr
      | log =>
        obtain ⟨_, _, hl, hm, rfl⟩ := RecordType.read_log_iff.mp h
        exact .log hty hl hm
    · exact .unknown (fun t => typeName?_eq_some_iff) (bind_ofName?_eq_none_iff.mp hno)

theorem ofMembers_eq_ok_iff [Field.Coercion] (hlax : LaxIntegers) {r : Record} :
    Record.ofMembers ms = .ok r ↔ Shows ms r := by
  rw [shows_iff hlax]
  unfold Record.ofMembers
  cases h : (typeName? ms).bind RecordType.ofName? with
  | none => simp [← bind_ofName?_eq_some_iff, h]
  | some type =>
    simp only [← bind_ofName?_eq_some_iff, h]
    cases hr : type.read ms <;> simp [hr]

/-! ## Lines -/

section Lines

variable [Json.Nesting] [Field.Coercion]

theorem ofLine_record_iff (hlax : LaxIntegers) {r : Record} :
    Item.ofLine line = .ok (.record r) ↔ ∃ ms, Json.read line = .ok (.obj ms) ∧ Shows ms r := by
  unfold Item.ofLine Record.ofLine
  cases Json.read line with
  | error e => cases e <;> simp
  | ok v =>
    cases v with
    | obj ms =>
      simp only [← ofMembers_eq_ok_iff hlax, Except.ok.injEq, Value.obj.injEq, exists_eq_left']
      cases Record.ofMembers ms with
      | ok r => simp
      | error u => cases u <;> simp
    | _ => simp

theorem lineLength_of_failure {e : DecodeError} (h : Item.ofLine line = .ok (.failure e)) :
    e.lineLength = line.length := by
  unfold Item.ofLine at h
  split at h <;> cases h
  rfl

/-- A line whose reading is not given up gives the record that it shows and is rejected, with its
length, if it shows none. A member `kind` is no reason to show none. -/
theorem ofLine_outcome (hlax : LaxIntegers) (h : ¬ Json.GivenUp line) :
    (∀ r, Item.ofLine line = .ok (.record r) ↔
      ∃ raw ms, ObjectLine raw line ∧ OrderedMap.Condensed raw ms ∧ Shows ms r) ∧
    ((¬ ∃ raw ms r, ObjectLine raw line ∧ OrderedMap.Condensed raw ms ∧ Shows ms r) ↔
      ∃ e, Item.ofLine line = .ok (.failure e)) ∧
    (∀ e, Item.ofLine line = .ok (.failure e) → e.lineLength = line.length) ∧
    ∀ ms name, ∃! kind, HasKind ms name kind := by
  have hrecord (r : Record) : Item.ofLine line = .ok (.record r) ↔
      ∃ raw ms, ObjectLine raw line ∧ OrderedMap.Condensed raw ms ∧ Shows ms r := by
    simp only [ofLine_record_iff hlax, read_object_iff]
    constructor
    · rintro ⟨ms, ⟨raw, hl, hc⟩, hs⟩
      exact ⟨raw, ms, hl, hc, hs⟩
    · rintro ⟨raw, ms, hl, hc, hs⟩
      exact ⟨ms, ⟨raw, hl, hc⟩, hs⟩
  refine ⟨hrecord, ?_, fun _ => lineLength_of_failure, existsUnique_hasKind⟩
  obtain ⟨item, hitem⟩ := Item.exists_ofLine_ok_iff.mpr h
  constructor
  · intro hno
    cases item with
    | failure e => exact ⟨e, hitem⟩
    | record r =>
      obtain ⟨raw, ms, hr⟩ := (hrecord r).mp hitem
      exact absurd ⟨raw, ms, r, hr⟩ hno
  · rintro ⟨e, he⟩ ⟨raw, ms, r, hr⟩
    rw [(hrecord r).mpr ⟨raw, ms, hr⟩] at he
    cases he

end Lines

/-- A symbol with a kind in capitals, a coordinate as text and a name that is given twice. -/
def capitalsLine : Text :=
  "\x7b\"type\":\"symbol\",\"kind\":\"ENUM\",\"name\":\"A\",\"path\":\"a\",\"range\":" ++
    "\x7b\"line_start\":\"1_0.0\",\"col_start\":true,\"line_end\":2.0,\"col_end\":0\x7d," ++
    "\"name\":\"B\",\"more\":[]\x7d"

open Surroundings in
def capitalsSymbol? : Option SymbolRecord :=
  match Item.ofLine capitalsLine with
  | .ok (.record (.symbol s)) => some s
  | _ => none

open Surroundings in
theorem ofLine_outcome_of_capitals : ∃ raw ms,
    ObjectLine raw capitalsLine ∧ OrderedMap.Condensed raw ms ∧
      Shows ms (.symbol ⟨some .enum, "B", [], "a", ⟨10, 1, 2, 0⟩⟩) := by
  have hsymbol : capitalsSymbol? = some ⟨some .enum, "B", [], "a", ⟨10, 1, 2, 0⟩⟩ := by
    decide +kernel
  cases hline : Item.ofLine capitalsLine with
  | error a =>
    rw [capitalsSymbol?, hline] at hsymbol
    cases hsymbol
  | ok item =>
    rw [capitalsSymbol?, hline] at hsymbol
    rcases item with (_ | s | _ | _) | _
    case record.symbol =>
      obtain rfl := Option.some.inj hsymbol
      have hread := Item.exists_ofLine_ok_iff.mp ⟨_, hline⟩
      exact ((ofLine_outcome Field.laxIntegers_usual hread).1 _).mp hline
    all_goals cases hsymbol

end Workbench
