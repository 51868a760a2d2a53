import Workbench.Install.Unpack
import Workbench.Proofs.Disk
import Workbench.Surroundings

/-! # What unpacking leaves

Members are checked and written one by one, so what decides is the members at the front of
the archive that are the executable: the last of them is what is left, also where a member
behind them ends the unpacking. Archives of one member are the ones that are taken or
refused as a whole.
-/

namespace Workbench.Install

open Disk

variable {d d₁ d' : Disk} {archive dest : PathName} {executable : Text} {place : List Text}
  {m : Archive.Member} {members : List Archive.Member} {n : Option Node} {fault : Option Fault}

/-- The members at the front of an archive that are the executable. -/
def accepted (executable : Text) (members : List Archive.Member) : List Archive.Member :=
  members.takeWhile (isExecutable executable)

section

variable [Path.WorkingDirectory]

def nodeAfter (d : Disk) (place : List Text) (members : List Archive.Member) : Option Node :=
  match members.getLast?, d.node? place with
  | none, n => n
  | some _, some .directory => some .directory
  | some m, _ => some (.file (.ofOctets m.data) (d.isMarked place))

/-- Nothing is written over a directory, and something has to stand there in the end. -/
def Admits (members : List Archive.Member) : Option Node → Prop
  | none => members ≠ []
  | some .directory => members = []
  | some (.file ..) => True

instance : Decidable (Admits members n) :=
  match n with
  | none => inferInstanceAs (Decidable (members ≠ []))
  | some .directory => inferInstanceAs (Decidable (members = []))
  | some (.file ..) => .isTrue trivial

def rogue (m : Archive.Member) : Fault :=
  .failure (failed ("rogue file in archive: " ++ m.name))

omit [Path.WorkingDirectory] in
theorem accepted_cons : accepted executable (m :: members) =
    if isExecutable executable m then m :: accepted executable members else [] :=
  List.takeWhile_cons

omit [Path.WorkingDirectory] in
theorem accepted_eq_self (h : ∀ m ∈ members, isExecutable executable m) :
    accepted executable members = members := by
  induction members with
  | nil => rfl
  | cons m members ih =>
    rw [accepted_cons, if_pos (h m List.mem_cons_self),
      ih fun m' hm' => h m' (List.mem_cons_of_mem m hm')]

omit [Path.WorkingDirectory] in
theorem find?_not_isExecutable_eq_none :
    members.find? (!isExecutable executable ·) = none ↔
      ∀ m ∈ members, isExecutable executable m := by
  simp

/-! ## What stands at the place -/

@[simp] theorem nodeAfter_nil : nodeAfter d place [] = d.node? place := rfl

theorem nodeAfter_of_directory (hn : d.node? place = some .directory) :
    nodeAfter d place members = some .directory := by
  rw [nodeAfter, hn]
  cases members.getLast? <;> rfl

theorem nodeAfter_concat (hn : d.node? place ≠ some .directory) :
    nodeAfter d place (members ++ [m]) = some (.file (.ofOctets m.data) (d.isMarked place)) := by
  rw [nodeAfter, List.getLast?_concat]
  rcases hd : d.node? place with _ | _ | ⟨content, x⟩
  · rfl
  · exact absurd hd hn
  · rfl

theorem nodeAfter_cons (hn : d.node? place ≠ some .directory)
    (h : d.Sets place (.file (.ofOctets m.data) (d.isMarked place)) d') :
    nodeAfter d place (m :: members) = nodeAfter d' place members := by
  have hm : d'.isMarked place = d.isMarked place := by
    simp only [isMarked, h.node?_self]
  rcases members.eq_nil_or_concat' with rfl | ⟨front, last, rfl⟩
  · rw [nodeAfter_nil, h.node?_self, ← List.nil_append [m], nodeAfter_concat hn]
  · rw [← List.cons_append, nodeAfter_concat hn,
      nodeAfter_concat (h.node?_self.trans_ne (by simp)), hm]

theorem nodeAfter_eq_none_iff :
    nodeAfter d place members = none ↔ members = [] ∧ d.node? place = none := by
  rcases members.eq_nil_or_concat' with rfl | ⟨front, last, rfl⟩
  · simp
  · by_cases hn : d.node? place = some .directory
    · simp [nodeAfter_of_directory hn, hn]
    · simp [nodeAfter_concat hn]

/-! ## Writing members -/

/-- The members that are the executable are written, up to the first that is not. -/
theorem foldUntil_unpackMember (executable : Text) (members : List Archive.Member)
    (hp : d.place dest = .ok place) (hn : d.node? place ≠ some .directory) :
    ∃ d', foldUntil (unpackMember executable dest) d members =
        (d', (members.find? (!isExecutable executable ·)).map rogue) ∧
      d.KeepsDirectories d' ∧ d'.node? place = nodeAfter d place (accepted executable members) ∧
      ∀ q, q ≠ place → d'.node? q = d.node? q := by
  induction members generalizing d with
  | nil => exact ⟨d, rfl, .refl d, rfl, fun _ _ => rfl⟩
  | cons m members ih =>
    rw [foldUntil, unpackMember, accepted_cons]
    cases hm : isExecutable executable m with
    | false => exact ⟨d, by simp [hm, rogue], .refl d, rfl, fun _ _ => rfl⟩
    | true =>
      obtain ⟨d₁, hw, hs⟩ := exists_write_eq_ok (c := .ofOctets m.data) hp hn
      have hk : d.KeepsDirectories d₁ := hs.keeps fun h => absurd h hn
      obtain ⟨d', hf, hk', hd, hq⟩ := ih (place_eq_of_keeps hk hp)
        (hs.node?_self.trans_ne (by simp))
      refine ⟨d', by simp [hw, hf, hm], hk.trans hk', ?_, fun q h => ?_⟩
      · rw [hd, if_pos rfl, nodeAfter_cons hn hs]
      · rw [hq q h, hs.node?_of_ne q h]

theorem foldUntil_unpackMember_of_directory (executable : Text) (members : List Archive.Member)
    (hp : d.place dest = .ok place) (hn : d.node? place = some .directory) :
    ∃ fault, foldUntil (unpackMember executable dest) d members = (d, fault) ∧
      (fault = none ↔ members = []) := by
  cases members with
  | nil => exact ⟨none, rfl, by simp⟩
  | cons m members =>
    rw [foldUntil, unpackMember, Disk.write, hp]
    cases isExecutable executable m <;> simp [hn]

theorem grant_outcome (hp : d.place dest = .ok place) (hg : grant dest d = (d', fault)) :
    (fault = none ↔ d.node? place ≠ none) ∧ d'.node? place = (d.node? place).map Node.granted ∧
      ∀ q, q ≠ place → d'.node? q = d.node? q := by
  unfold grant at hg
  cases hn : d.node? place with
  | none =>
    have hf : d.find dest = .error ⟨.missing, dest⟩ := by simp [find, hp, hn]
    rw [makeExecutable, hf] at hg
    obtain ⟨rfl, rfl⟩ := Prod.mk.inj hg
    exact ⟨by simp, hn, fun _ _ => rfl⟩
  | some n =>
    obtain ⟨d'', hm, hs⟩ := exists_makeExecutable_eq_ok (find_eq_ok_iff.mpr ⟨hp, hn⟩)
    rw [hm] at hg
    obtain ⟨rfl, rfl⟩ := Prod.mk.inj hg
    exact ⟨by simp, hs.node?_self, hs.node?_of_ne⟩

theorem admits_of_not_directory (hn : d.node? place ≠ some .directory) :
    Admits members (d.node? place) ↔ nodeAfter d place members ≠ none := by
  rw [Ne, nodeAfter_eq_none_iff]
  rcases hd : d.node? place with _ | _ | ⟨content, x⟩
  · simp [Admits]
  · exact absurd hd hn
  · simp [Admits]

/-- What the members of an archive make of the node at a place. -/
structure Unpacked (executable : Text) (d : Disk) (place : List Text)
    (members : List Archive.Member) (d' : Disk) (fault : Option Fault) : Prop where
  eq_none_iff : fault = none ↔
    (∀ m ∈ members, isExecutable executable m) ∧ Admits members (d.node? place)
  node?_of_success : fault = none →
    d'.node? place = (nodeAfter d place members).map Node.granted
  node?_of_failure : fault ≠ none →
    d'.node? place = nodeAfter d place (accepted executable members)
  node?_of_ne : ∀ q, q ≠ place → d'.node? q = d.node? q

theorem unpackMembers_of_no_place {t : Trouble} (hp : d.place dest = .error t)
    (ho : unpackMembers executable dest d members = (d', fault)) : d' = d ∧ fault ≠ none := by
  unfold unpackMembers at ho
  cases members with
  | nil =>
    simp only [foldUntil, grant, makeExecutable, find, hp] at ho
    cases ho
    exact ⟨rfl, by simp⟩
  | cons m members =>
    rw [foldUntil, unpackMember, Disk.write, hp] at ho
    cases hm : isExecutable executable m <;> rw [hm] at ho <;> cases ho <;> exact ⟨rfl, by simp⟩

theorem unpackMembers_of_directory (hp : d.place dest = .ok place)
    (hn : d.node? place = some .directory)
    (ho : unpackMembers executable dest d members = (d', fault)) :
    Unpacked executable d place members d' fault := by
  obtain ⟨f, hf, hnil⟩ := foldUntil_unpackMember_of_directory executable members hp hn
  rw [unpackMembers, hf] at ho
  cases f with
  | some f =>
    obtain ⟨rfl, rfl⟩ := Prod.mk.inj ho
    constructor
    · rw [hn]
      exact iff_of_false nofun fun h => nomatch hnil.mpr h.2
    · nofun
    · intro _
      rw [nodeAfter_of_directory hn, hn]
    · intro q _
      rfl
  | none =>
    obtain rfl := hnil.mp rfl
    obtain ⟨hg, hd, hq⟩ := grant_outcome hp ho
    obtain rfl := hg.mpr (by simp [hn])
    exact ⟨by simp [Admits, hn], fun _ => hd, nofun, hq⟩

theorem unpackMembers_of_not_directory (hp : d.place dest = .ok place)
    (hn : d.node? place ≠ some .directory)
    (ho : unpackMembers executable dest d members = (d', fault)) :
    Unpacked executable d place members d' fault := by
  obtain ⟨d₂, hf, hk, hd, hq⟩ := foldUntil_unpackMember executable members hp hn
  rw [unpackMembers, hf] at ho
  cases hm : members.find? (!isExecutable executable ·) with
  | some m =>
    rw [hm] at ho
    obtain ⟨rfl, rfl⟩ := Prod.mk.inj ho
    refine ⟨iff_of_false nofun fun h => ?_, nofun, fun _ => hd, hq⟩
    cases hm.symm.trans (find?_not_isExecutable_eq_none.mpr h.1)
  | none =>
    have ha := find?_not_isExecutable_eq_none.mp hm
    rw [hm] at ho
    obtain ⟨hg, hd', hq'⟩ := grant_outcome (place_eq_of_keeps hk hp) ho
    rw [hd, accepted_eq_self ha] at hg hd'
    constructor
    · rw [admits_of_not_directory hn, hg]
      exact (and_iff_right ha).symm
    · intro _
      exact hd'
    · intro hfault
      rw [hd', accepted_eq_self ha, not_not.mp (mt hg.mpr hfault)]
      rfl
    · intro q h
      exact (hq' q h).trans (hq q h)

theorem unpackMembers_outcome (hp : d.place dest = .ok place)
    (ho : unpackMembers executable dest d members = (d', fault)) :
    Unpacked executable d place members d' fault := by
  by_cases hn : d.node? place = some .directory
  · exact unpackMembers_of_directory hp hn ho
  · exact unpackMembers_of_not_directory hp hn ho

theorem accepted_of_success (h : Unpacked executable d place members d' none) :
    accepted executable members = members := accepted_eq_self (h.eq_none_iff.mp rfl).1

theorem Unpacked.of_directory (h : Unpacked executable d place members d' fault)
    (hn : d.node? place = some .directory) : d'.node? place = some .directory := by
  by_cases hf : fault = none
  · rw [h.node?_of_success hf, nodeAfter_of_directory hn]
    rfl
  · rw [h.node?_of_failure hf, nodeAfter_of_directory hn]

theorem Unpacked.keeps (h : Unpacked executable d place members d' fault) :
    d.KeepsDirectories d' := by
  intro q hq
  by_cases hqp : q = place
  · subst hqp
    exact h.of_directory hq
  · rw [h.node?_of_ne q hqp, hq]

theorem nodeAfter_eq_file {c : Content} {x : Bool}
    (h : nodeAfter d place members = some (.file c x)) :
    d.node? place = some (.file c x) ∨ ∃ m, members.getLast? = some m ∧ c = .ofOctets m.data := by
  rcases members.eq_nil_or_concat' with rfl | ⟨front, m, rfl⟩
  · exact .inl h
  · by_cases hn : d.node? place = some .directory
    · cases (nodeAfter_of_directory hn).symm.trans h
    · rw [nodeAfter_concat hn] at h
      cases h
      exact .inr ⟨m, List.getLast?_concat, rfl⟩

theorem Unpacked.content (h : Unpacked executable d place members d' fault) {c : Content} {x : Bool}
    (hc : d'.node? place = some (.file c x)) :
    (∃ x', d.node? place = some (.file c x')) ∨
      ∃ m, (accepted executable members).getLast? = some m ∧ c = .ofOctets m.data := by
  have key : ∃ x', nodeAfter d place (accepted executable members) = some (.file c x') := by
    by_cases hf : fault = none
    · subst hf
      rw [h.node?_of_success rfl] at hc
      rw [accepted_of_success h]
      rcases hn : nodeAfter d place members with _ | _ | ⟨c', x'⟩ <;> rw [hn] at hc
      · cases hc
      · cases hc
      · cases hc
        exact ⟨x', rfl⟩
    · exact ⟨x, (h.node?_of_failure hf).symm.trans hc⟩
  obtain ⟨x', hx⟩ := key
  rcases nodeAfter_eq_file hx with h | h
  · exact .inl ⟨x', h⟩
  · exact .inr h

theorem Unpacked.exists_node (h : Unpacked executable d place members d' none) :
    ∃ n, d'.node? place = some n := by
  have hall := (h.eq_none_iff.mp rfl).2
  rw [← Option.ne_none_iff_exists', h.node?_of_success rfl, Ne, Option.map_eq_none_iff,
    nodeAfter_eq_none_iff]
  rintro ⟨rfl, hnone⟩
  rw [hnone] at hall
  exact hall rfl

/-- Unpacking ends before anything is written, or it is the members that decide. -/
theorem unpack_cases (h : unpack archive executable dest d = (d', fault)) :
    d.AddsDirectories d' ∧ fault ≠ none ∨
      ∃ d₁ members place, d.AddsDirectories d₁ ∧ membersOf archive d₁ = .ok members ∧
        d₁.place dest = .ok place ∧ Unpacked executable d₁ place members d' fault := by
  have ha := addsDirectories_ensureDirectory d dest.parent
  unfold unpack at h
  rcases hd : d.ensureDirectory dest.parent with ⟨d₁, _ | f⟩ <;> rw [hd] at ha h <;> dsimp only at h
  · cases hm : membersOf archive d₁ with
    | error f =>
      rw [hm] at h
      cases h
      exact .inl ⟨ha, nofun⟩
    | ok members =>
      rw [hm] at h
      cases hp : d₁.place dest with
      | ok place => exact .inr ⟨d₁, members, place, ha, hm, hp, unpackMembers_outcome hp h⟩
      | error t =>
        obtain ⟨rfl, hf⟩ := unpackMembers_of_no_place hp h
        exact .inl ⟨ha, hf⟩
  · cases h
    exact .inl ⟨ha, nofun⟩

/-! ## Archives of one member -/

theorem Unpacked.of_one (h : Unpacked executable d place [m] d' fault)
    (hn : d.node? place ≠ some .directory) :
    (fault = none ↔ isExecutable executable m) ∧
    (fault = none → d'.node? place = some (.file (.ofOctets m.data) true)) ∧
    (fault ≠ none → d'.node? place = d.node? place) := by
  have hm : fault = none ↔ isExecutable executable m := by
    rw [h.eq_none_iff, admits_of_not_directory hn, Ne, nodeAfter_eq_none_iff]
    simp
  refine ⟨hm, fun hf => ?_, fun hf => ?_⟩
  · rw [h.node?_of_success hf, ← List.nil_append [m], nodeAfter_concat hn]
    rfl
  · rw [h.node?_of_failure hf, accepted_cons, if_neg (mt hm.mpr hf), nodeAfter_nil]

/-- What unpacking leaves, from the members that the archive has once there is room for the
executable. -/
theorem unpack_outcome (hd : d.ensureDirectory dest.parent = (d₁, none))
    (hr : membersOf archive d₁ = .ok members) (hp : d₁.place dest = .ok place)
    (ho : unpack archive executable dest d = (d', fault)) :
    Unpacked executable d₁ place members d' fault ∧
    (∀ q, q ≠ place → d.KeptOrRoom d' q) ∧
    ∀ m, members = [m] → d₁.node? place ≠ some .directory →
      (fault = none ↔ isExecutable executable m) ∧
      (fault = none → d'.node? place = some (.file (.ofOctets m.data) true)) ∧
      (fault ≠ none → d'.node? place = d.node? place) := by
  have ha : d.AddsDirectories d₁ := by
    simpa only [hd] using addsDirectories_ensureDirectory d dest.parent
  simp only [unpack, hd, hr] at ho
  have hu := unpackMembers_outcome hp ho
  refine ⟨hu, fun q hq => ?_, ?_⟩
  · rw [KeptOrRoom, hu.node?_of_ne q hq]
    exact ha q
  · rintro m rfl hn
    obtain ⟨h₁, h₂, h₃⟩ := hu.of_one hn
    refine ⟨h₁, h₂, fun hf => (h₃ hf).trans ?_⟩
    exact (ha place).resolve_right fun h => hn h.2

end

open Surroundings in
/-- An archive of the executable alone is unpacked over what stood there. -/
theorem unpack_of_one_member :
    let a := PathName.ofText "a"
    let dest := PathName.ofText "reproto"
    let m : Archive.Member := ⟨"./reproto", .file, [1, 2]⟩
    let d := (({} : Disk).withFile a (Archive.pack [m])).withFile dest (.ofOctets [0])
    let r := unpack a "reproto" dest d
    r.2 = none ∧ r.1.node? ["reproto"] = some (.file (.ofOctets [1, 2]) true) := by
  intro a dest m d r
  have hd : d.ensureDirectory dest.parent = (d, none) := by decide +kernel
  have hr : d.read a = .ok (Archive.pack [m]) := by decide +kernel
  have hm : membersOf a d = .ok [m] := by
    rw [membersOf, hr]
    rfl
  have hp : d.place dest = .ok ["reproto"] := by decide +kernel
  have h := (unpack_outcome hd hm hp (rfl : unpack a "reproto" dest d = (r.1, r.2))).2.2 m rfl
    (by decide +kernel)
  have hs : r.2 = none := h.1.mpr (by decide +kernel)
  exact ⟨hs, h.2.1 hs⟩

open Surroundings in
/-- What stands in front of a member that is refused is left where nothing stood, and two
members are taken where one is due. -/
theorem unpack_not_atomic :
    let a := PathName.ofText "a"
    let dest := PathName.ofText "reproto"
    let good (data : List UInt8) : Archive.Member := ⟨"reproto", .file, data⟩
    let disk (ms : List Archive.Member) := ({} : Disk).withFile a (Archive.pack ms)
    let refused := disk [good [1], ⟨"../evil", .file, [2]⟩]
    let two := disk [good [1], good [2]]
    let r := unpack a "reproto" dest refused
    let t := unpack a "reproto" dest two
    refused.node? ["reproto"] = none ∧ r.2.isSome ∧
      r.1.node? ["reproto"] = some (.file (.ofOctets [1]) false) ∧
      t.2.isNone ∧ t.1.node? ["reproto"] = some (.file (.ofOctets [2]) true) := by
  decide +kernel

end Workbench.Install
