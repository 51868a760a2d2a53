import Workbench.Proofs.Build.Reading

/-! # What a session learns of its editor

Sessions share an editor that may refuse lines and pieces of text. What a step of a session makes
of its streams depends on the editor only by the answers to the entries of this step, so another
editor that gives these answers first will do as well.
-/

namespace Workbench

namespace Editor

variable {e e' e₁ : Editor} {k : Entry} {left left' : Entry → List Bool}

/-- The editor at a later time, when it has answered some of the entries. -/
structure Later (e e₁ : Editor) : Prop where
  closed : e₁.closed = e.closed
  next : ∀ k, e₁.next k <:+ e.next k

theorem Later.refl (e : Editor) : e.Later e := ⟨rfl, fun _ => List.suffix_refl _⟩

theorem Later.trans {e₂ : Editor} (h : e.Later e₁) (h' : e₁.Later e₂) : e.Later e₂ :=
  ⟨h'.closed.trans h.closed, fun k => (h'.next k).trans (h.next k)⟩

theorem later_call (e : Editor) (c : Call) : e.Later (e.call c) :=
  ⟨rfl, fun k => by cases k <;> exact List.suffix_refl _⟩

theorem later_add (e : Editor) (k : Entry) (t : Text) : e.Later (e.add k t).1 := by
  refine ⟨e.closed_add k t, fun k' => ?_⟩
  rw [next_add]
  split_ifs with hk
  · exact hk ▸ List.tail_suffix _
  · exact List.suffix_refl _

def answered (e e₁ : Editor) (k : Entry) : List Bool :=
  (e.next k).take ((e.next k).length - (e₁.next k).length)

theorem Later.answered_append (h : e.Later e₁) (k : Entry) :
    e.answered e₁ k ++ e₁.next k = e.next k :=
  List.suffix_iff_eq_append.mp (h.next k)

theorem answered_of_eq (h : e₁.next k = e.next k) : e.answered e₁ k = [] := by
  simp [answered, h]

/-- The editor with other answers to the next entries. -/
def answering (e : Editor) (answers : Entry → List Bool) : Editor :=
  { e with nextLines := answers .line, nextPieces := answers .piece }

@[simp] theorem next_answering (e : Editor) (answers : Entry → List Bool) (k : Entry) :
    (e.answering answers).next k = answers k := by
  cases k <;> rfl

/-- Two editors give the same answers up to a point where each has some left. -/
structure Alike (left left' : Entry → List Bool) (e e' : Editor) : Prop where
  closed : e'.closed = e.closed
  next : ∀ k, ∃ used, e.next k = used ++ left k ∧ e'.next k = used ++ left' k

/-- The editor has not come past the point where it has these answers left. -/
def Reserves (e : Editor) (left : Entry → List Bool) : Prop :=
  ∀ k, (left k).length ≤ (e.next k).length

theorem Later.reserves (h : e.Later e₁) (hr : e₁.Reserves left) : e.Reserves left :=
  fun k => (hr k).trans (h.next k).length_le

theorem Alike.add (h : Alike left left' e e') (hl : ∀ k, left k = [] → left' k = []) {t : Text}
    (hr : (e.add k t).1.Reserves left) :
    Alike left left' (e.add k t).1 (e'.add k t).1 ∧ (e'.add k t).2 = (e.add k t).2 := by
  have hrest : e'.takesRest k = e.takesRest k := by
    cases k
    · rfl
    · exact congrArg (!·) h.closed
  obtain ⟨used, hu, hu'⟩ := h.next k
  -- Either both have the same answer to this entry, or both are at the end of their answers.
  obtain ⟨ht, htail⟩ : e'.takes k = e.takes k ∧
      ∃ used, (e.next k).tail = used ++ left k ∧ (e'.next k).tail = used ++ left' k := by
    rw [takes, takes, hrest, hu, hu']
    cases used with
    | nil =>
      have hle := hr k
      rw [next_add, if_pos rfl, hu, List.nil_append, List.length_tail] at hle
      have hnil : left k = [] := List.eq_nil_of_length_eq_zero (by omega)
      rw [hnil, hl k hnil]
      exact ⟨rfl, [], rfl, rfl⟩
    | cons a used => exact ⟨rfl, used, rfl, rfl⟩
  refine ⟨⟨?_, fun k' => ?_⟩, ?_⟩
  · rw [closed_add, closed_add, h.closed]
  · rw [next_add, next_add]
    split_ifs with hk
    · exact hk ▸ htail
    · exact h.next k'
  · rw [snd_add, snd_add, ht]

theorem Alike.next_eq (h : Alike e.next left e e') (k : Entry) : e'.next k = left k := by
  obtain ⟨used, hu, hu'⟩ := h.next k
  obtain rfl : used = [] := List.self_eq_append_left.mp hu
  exact hu'

/-- What a step makes of an editor is told by the answers that the editor gives in it. -/
structure Consults {α : Type} (f : Editor → α × Editor) : Prop where
  later : ∀ e : Editor, e.Later (f e).2
  alike : ∀ {left left' : Entry → List Bool} {e e' : Editor}, Alike left left' e e' →
    (∀ k, left k = [] → left' k = []) → (f e).2.Reserves left →
    (f e').1 = (f e).1 ∧ Alike left left' (f e).2 (f e').2

namespace Consults

variable {α : Type} {f : Editor → α × Editor}

/-- An editor that gives the answers of the step before others makes the same of the step, and has
the others left. -/
theorem answered (h : Consults f) (hc : e'.closed = e.closed)
    (hn : ∀ k, e'.next k = e.answered (f e).2 k ++ left k)
    (hl : ∀ k, (f e).2.next k = [] → left k = []) :
    (f e').1 = (f e).1 ∧ ∀ k, (f e').2.next k = left k := by
  have halike : Alike (f e).2.next left e e' :=
    ⟨hc, fun k => ⟨_, ((h.later e).answered_append k).symm, hn k⟩⟩
  obtain ⟨hf, ha⟩ := h.alike halike hl fun _ => Nat.le_refl _
  exact ⟨hf, ha.next_eq⟩

end Consults

end Editor

open Editor

variable [Surroundings]

namespace Session

variable {root : Text} {left left' : Entry → List Bool} {p p' : Pump (Findings × Editor)}

theorem readPart_keeps {P : Editor → Prop} (hP : ∀ e t, P e → P (e.appendLine t).1) (s : Session)
    {e : Editor} (piece : Option (List UInt8)) (h : P e) : P (s.readPart e piece).2.1 := by
  obtain ⟨out, ho, ha⟩ := exists_afterPump s e piece
  rw [ho]
  exact ha.keeps (P := fun st => P st.2) (fun item _ => dispatch_keeps hP s.root item) h

theorem dispatch_alike {item : Item} {f : Findings} {e e' : Editor} (h : Alike left left' e e')
    (hl : ∀ k, left k = [] → left' k = [])
    (hr : ((handlers root).dispatch item (f, e)).1.2.Reserves left) :
    ((handlers root).dispatch item (f, e')).1.1 = ((handlers root).dispatch item (f, e)).1.1 ∧
    Alike left left' ((handlers root).dispatch item (f, e)).1.2
      ((handlers root).dispatch item (f, e')).1.2 ∧
    ((handlers root).dispatch item (f, e')).2 = ((handlers root).dispatch item (f, e)).2 := by
  cases item with
  | failure d => exact ⟨rfl, h.add hl hr⟩
  | record r =>
    cases r with
    | log r => exact ⟨rfl, h.add hl hr⟩
    | unknown => exact ⟨rfl, h, rfl⟩
    | diagnostic r =>
      simp only [Handlers.dispatch, Handlers.call, handlers, onDiagnostic]
      cases Uri.ofFile r.path root with
      | error u => exact ⟨rfl, h, rfl⟩
      | ok uri => exact ⟨rfl, h, rfl⟩
    | symbol r =>
      simp only [Handlers.dispatch, Handlers.call, handlers, onSymbol]
      cases Uri.ofFile r.path root with
      | error u => exact ⟨rfl, h, rfl⟩
      | ok uri => exact ⟨rfl, h, rfl⟩

def Side (left left' : Entry → List Bool) (p p' : Pump (Findings × Editor)) : Prop :=
  ∃ e', p' = { p with state := (p.state.1, e') } ∧ Alike left left' p.state.2 e'

theorem later_readLine (root : Text) (p : Pump (Findings × Editor)) (line : Text) :
    p.state.2.Later (Pump.readLine (handlers root) p line).1.state.2 :=
  (Pump.agrees_readLine (handlers root) p line).keeps (P := fun st => p.state.2.Later st.2)
    (fun item _ => dispatch_keeps (fun e t h => h.trans (later_add e .line t)) root item) (.refl _)

theorem readLine_side (h : Side left left' p p') (hl : ∀ k, left k = [] → left' k = [])
    {line : Text} (hr : (Pump.readLine (handlers root) p line).1.state.2.Reserves left) :
    Side left left' (Pump.readLine (handlers root) p line).1
        (Pump.readLine (handlers root) p' line).1 ∧
      (Pump.readLine (handlers root) p' line).2 = (Pump.readLine (handlers root) p line).2 := by
  obtain ⟨e', rfl, ha⟩ := h
  unfold Pump.readLine at hr ⊢
  dsimp only at hr ⊢
  generalize p.decoder.readLine line = read at hr ⊢
  rcases read with _ | ⟨_ | item, d⟩
  · exact ⟨⟨e', rfl, ha⟩, rfl⟩
  · exact ⟨⟨e', rfl, ha⟩, rfl⟩
  · obtain ⟨hf, ha, ho⟩ := dispatch_alike ha hl hr
    refine ⟨⟨((handlers root).dispatch item (p.state.1, e')).1.2, ?_, ha⟩, ho⟩
    exact congrArg (Pump.mk d (p.counts.add item)) (Prod.ext hf rfl)

variable {s : Session} {e e' : Editor}

theorem readPart_alike (piece : Option (List UInt8)) (h : Alike left left' e e')
    (hl : ∀ k, left k = [] → left' k = []) (hr : (s.readPart e piece).2.1.Reserves left) :
    (s.readPart e' piece).1 = (s.readPart e piece).1 ∧
    Alike left left' (s.readPart e piece).2.1 (s.readPart e' piece).2.1 ∧
    (s.readPart e' piece).2.2 = (s.readPart e piece).2.2 := by
  have hside (d : Decoder) : Side left left' { s.pump e with decoder := d }
      { s.pump e' with decoder := d } := ⟨e', rfl, h⟩
  have key {out out' : Pump (Findings × Editor) × Option Crash}
      (hs : Side left left' out.1 out'.1 ∧ out'.2 = out.2) :
      (s.afterPump out').1 = (s.afterPump out).1 ∧
      Alike left left' (s.afterPump out).2.1 (s.afterPump out').2.1 ∧
      (s.afterPump out').2.2 = (s.afterPump out).2.2 := by
    obtain ⟨⟨e₁, ho, ha⟩, hc⟩ := hs
    rw [afterPump, afterPump, ho]
    exact ⟨rfl, ha, hc⟩
  cases piece with
  | none => exact key (readLine_side (hside _) hl hr)
  | some chunk =>
    refine key (foldUntil_alike (P := fun p => p.state.2.Reserves left)
      (fun p line h => ?_) (fun p p' line h hr => ?_) (hside _) hr)
    · exact (later_readLine s.root p line).reserves h
    · exact readLine_side h hl hr

theorem leave_congr (s : Session) (p : Script) (c : Option Crash) (x x' : Indices) (e e' : Editor) :
    (s.leave p c x' e').result = (s.leave p c x e).result ∧
      (s.leave p c x' e').session = (s.leave p c x e).session := by
  unfold leave
  cases c with
  | none => exact ⟨rfl, rfl⟩
  | some c => exact ⟨rfl, rfl⟩

end Session

namespace Reading

theorem readOutput_cases (r : Reading) (n : Nat) : (∀ e, r.readOutput e n = (r, e)) ∨
    ∃ rest piece, ∀ e, r.readOutput e n = r.afterPart rest (r.session.readPart e piece) := by
  unfold readOutput
  rcases r.crash with _ | c
  · rcases r.output with _ | _ | ⟨b, bytes⟩
    · exact .inl fun _ => rfl
    · exact .inr ⟨_, _, fun _ => rfl⟩
    · exact .inr ⟨_, _, fun _ => rfl⟩
  · exact .inl fun _ => rfl

theorem readOutput_keeps {P : Editor → Prop} (hP : ∀ e t, P e → P (e.appendLine t).1)
    (r : Reading) {e : Editor} (n : Nat) (h : P e) : P (r.readOutput e n).2 := by
  rcases r.readOutput_cases n with hr | ⟨rest, piece, hr⟩
  · rw [hr]
    exact h
  · rw [hr]
    exact r.session.readPart_keeps hP piece h

theorem consults_readOutput (r : Reading) (n : Nat) : Consults (r.readOutput · n) where
  later e := readOutput_keeps (fun e t h => h.trans (later_add e .line t)) r n (.refl e)
  alike h hl hr := by
    rcases r.readOutput_cases n with hread | ⟨rest, piece, hread⟩
    · simp only [hread] at hr ⊢
      exact ⟨trivial, h⟩
    · simp only [hread] at hr ⊢
      obtain ⟨hs, ha, ho⟩ := Session.readPart_alike piece h hl hr
      refine ⟨?_, ha⟩
      rw [afterPart, afterPart, hs, ho]

omit [Surroundings] in
theorem readErrors_cases (r : Reading) (n : Nat) :
    (∃ errors, ∀ e, r.readErrors e n = ({ r with errors }, e)) ∨
      ∃ rest t, ∀ e, r.readErrors e n = r.afterErrors rest (e.add .piece t) := by
  obtain ⟨session, script, output, errors, crash, fault⟩ := r
  unfold readErrors
  rcases errors with _ | ⟨u, _ | ⟨b, bytes⟩⟩
  · exact .inl ⟨none, fun _ => rfl⟩
  · dsimp only
    unfold Session.forwardTail
    cases Utf8.finish u with
    | nil => exact .inl ⟨_, fun _ => rfl⟩
    | cons c tail => exact .inr ⟨none, c :: tail, fun _ => rfl⟩
  · exact .inr ⟨some ((Utf8.feed u ((b :: bytes).take (portion n))).2,
      (b :: bytes).drop (portion n)), (Utf8.feed u ((b :: bytes).take (portion n))).1, fun _ => rfl⟩

omit [Surroundings] in
theorem snd_afterErrors (r : Reading) (left : Option (Utf8.State × List UInt8))
    (out : Editor × Option Crash) : (r.afterErrors left out).2 = out.1 := by
  obtain ⟨e, _ | c⟩ := out <;> rfl

omit [Surroundings] in
theorem fst_afterErrors_congr {r : Reading} {left : Option (Utf8.State × List UInt8)}
    {out out' : Editor × Option Crash} (h : out'.2 = out.2) :
    (r.afterErrors left out').1 = (r.afterErrors left out).1 := by
  obtain ⟨e, c⟩ := out
  obtain ⟨e', c'⟩ := out'
  obtain rfl : c' = c := h
  cases c' <;> rfl

omit [Surroundings] in
theorem readErrors_keeps_editor {P : Editor → Prop} (hP : ∀ e t, P e → P (e.add .piece t).1)
    (r : Reading) {e : Editor} (n : Nat) (h : P e) : P (r.readErrors e n).2 := by
  rcases r.readErrors_cases n with ⟨errors, hread⟩ | ⟨rest, t, hread⟩
  · rw [hread]
    exact h
  · rw [hread, snd_afterErrors]
    exact hP e t h

omit [Surroundings] in
theorem consults_readErrors (r : Reading) (n : Nat) : Consults (r.readErrors · n) where
  later e := readErrors_keeps_editor (fun e t h => h.trans (later_add e .piece t)) r n (.refl e)
  alike h hl hr := by
    rcases r.readErrors_cases n with ⟨errors, hread⟩ | ⟨rest, t, hread⟩
    · simp only [hread] at hr ⊢
      exact ⟨trivial, h⟩
    · simp only [hread, snd_afterErrors] at hr ⊢
      obtain ⟨ha, ho⟩ := h.add hl hr
      exact ⟨fst_afterErrors_congr ho, ha⟩

end Reading

end Workbench
