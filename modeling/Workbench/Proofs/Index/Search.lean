import Mathlib.Data.List.Infix
import Workbench.Proofs.Index.History
import Workbench.Proofs.Text.Sigma
import Workbench.Surroundings

/-! # What a search finds

A search goes through the roots in the order of their first commits and takes, from the last commit
of each, the symbols that match. Query and name are put into lower case apart from each other, so a
part of a name is sure to match just if its own text decides on the lower case of its sigmas.
-/

namespace Workbench

theorem Text.hasPart_iff {part t : Text} : Text.hasPart part t ↔ part <:+: t := by
  induction t with
  | nil => simp [Text.hasPart]
  | cons c t ih => simp [Text.hasPart, ih, List.infix_cons_iff]

theorem Symbol.isMatch_iff {q : Text} {s : Symbol} : s.isMatch q ↔ q.lower <:+: s.name.lower :=
  Text.hasPart_iff

namespace SymbolIndex

open OrderedMap

variable {cs : List Commit} {c : Commit} {q k : Text} {s : Symbol}

/-! ## The blocks of the roots -/

def matching (q : Text) (symbols : List Symbol) : List Symbol :=
  symbols.filter fun s => q.lower <:+: s.name.lower

theorem search_eq (x : SymbolIndex) (q : Text) :
    x.search q = x.byRoot.values.flatMap (matching q) := by
  have hp : List.filter (Symbol.isMatch q) = matching q := funext fun ss =>
    List.filter_congr fun s _ => Bool.eq_iff_iff.mpr (by simp [Symbol.isMatch_iff])
  rw [search, List.filter_flatten, List.flatMap_def, ← hp]

theorem matching_nil (symbols : List Symbol) : matching [] symbols = symbols :=
  List.filter_eq_self.mpr fun s _ => decide_eq_true (List.nil_infix (l := s.name.lower))

theorem search_sublist {q q' : Text} (h : q.lower <:+: q'.lower) (x : SymbolIndex) :
    (x.search q').Sublist (x.search q) :=
  List.monotone_filter_right _ fun _ hs =>
    Symbol.isMatch_iff.mpr (h.trans (Symbol.isMatch_iff.mp hs))

theorem nodup_of_none : ∀ files ∈ (none : Option SymbolsByFile), files.keys.Nodup :=
  fun _ h => absurd h (Option.not_mem_none _)

variable [Path.WorkingDirectory]

def firstKeys (cs : List Commit) : List Text := (cs.map Commit.key).eraseDups

def latest (cs : List Commit) (k : Text) : List Symbol :=
  ((cs.reverse.find? (·.key = k)).map Commit.symbols).getD []

def found (cs : List Commit) (q : Text) (ks : List Text) : List Symbol :=
  ks.flatMap fun k => matching q (latest cs k)

theorem byRoot_apply (x : SymbolIndex) (c : Commit) :
    (x.apply c).byRoot = x.byRoot.insert c.key c.symbols := by
  rw [apply_eq, commitFiles, Commit.key]

theorem byRoot_history (cs : List Commit) :
    (history cs).byRoot = ofList (cs.map fun c => (c.key, c.symbols)) := by
  induction cs using List.reverseRecOn with
  | nil => rfl
  | append_singleton cs c ih =>
    rw [history_concat, byRoot_apply, List.map_append, List.map_singleton, ofList_concat, ← ih]

theorem keys_byRoot_history (cs : List Commit) : (history cs).byRoot.keys = firstKeys cs := by
  have hkeys : (cs.map fun c => (c.key, c.symbols)).map Prod.fst = cs.map Commit.key := by
    simp only [List.map_map, Function.comp_def]
  -- The map compares texts by their decidable equality, the list by that of its items.
  rw [byRoot_history, keys_ofList, hkeys, firstKeys,
    lawful_beq_subsingleton instBEqOfDecidableEq List.instBEq]

theorem getD_byRoot_history (cs : List Commit) (k : Text) :
    (history cs).byRoot.getD k [] = latest cs k := by
  simp only [getD, byRoot_history, get?_ofList, ← List.map_reverse, List.find?_map,
    Option.map_map, Function.comp_def, latest]

theorem values_byRoot_history (cs : List Commit) :
    (history cs).byRoot.values = (firstKeys cs).map (latest cs) := by
  have hn : (history cs).byRoot.keys.Nodup := byRoot_history cs ▸ nodup_keys_ofList _
  rw [values_eq_map_keys hn [], keys_byRoot_history]
  exact List.map_congr_left fun k _ => getD_byRoot_history cs k

theorem search_history (cs : List Commit) (q : Text) :
    (history cs).search q = found cs q (firstKeys cs) := by
  rw [search_eq, values_byRoot_history, List.flatMap_map, found]

/-! ## The next commit -/

theorem firstKeys_concat_of_mem (h : c.key ∈ firstKeys cs) :
    firstKeys (cs ++ [c]) = firstKeys cs := by
  rw [firstKeys, List.map_append]
  exact eraseDups_concat_of_mem (List.mem_eraseDups.mp h)

theorem firstKeys_concat_of_not_mem (h : c.key ∉ firstKeys cs) :
    firstKeys (cs ++ [c]) = firstKeys cs ++ [c.key] := by
  rw [firstKeys, List.map_append]
  exact eraseDups_concat_of_not_mem (mt List.mem_eraseDups.mpr h)

theorem nodup_firstKeys (cs : List Commit) : (firstKeys cs).Nodup := nodup_eraseDups _

theorem latest_concat (cs : List Commit) (c : Commit) (k : Text) :
    latest (cs ++ [c]) k = if c.key = k then c.symbols else latest cs k := by
  by_cases h : c.key = k <;> simp [latest, h]

theorem found_concat_self (cs : List Commit) (c : Commit) (q : Text) :
    found (cs ++ [c]) q [c.key] = matching q c.symbols := by
  rw [found, List.flatMap_singleton, latest_concat, if_pos rfl]

theorem found_concat {ks : List Text} (h : c.key ∉ ks) (q : Text) :
    found (cs ++ [c]) q ks = found cs q ks := by
  refine List.flatMap_congr fun k hk => ?_
  rw [latest_concat, if_neg]
  rintro rfl
  exact h hk

theorem found_append (cs : List Commit) (q : Text) (ks ks' : List Text) :
    found cs q (ks ++ ks') = found cs q ks ++ found cs q ks' := List.flatMap_append

/-- A search gives what matches in the last commits of the roots, root by root in the order of
their first commits. The next commit puts its root behind all others if it is new, and else
replaces what this root gives, in its place. The empty query gives all. -/
theorem search_blocks (cs : List Commit) (q : Text) :
    (history cs).search q = found cs q (firstKeys cs) ∧
    (∀ c, c.key ∉ firstKeys cs →
      (history (cs ++ [c])).search q = (history cs).search q ++ matching q c.symbols) ∧
    (∀ c before after, firstKeys cs = before ++ c.key :: after →
      (history cs).search q =
          found cs q before ++ matching q (latest cs c.key) ++ found cs q after ∧
        (history (cs ++ [c])).search q =
          found cs q before ++ matching q c.symbols ++ found cs q after) ∧
    (history cs).search [] = (firstKeys cs).flatMap (latest cs) := by
  refine ⟨search_history cs q, fun c hc => ?_, fun c before after hk => ?_, ?_⟩
  · rw [search_history, search_history, firstKeys_concat_of_not_mem hc, found_append,
      found_concat hc, found_concat_self]
  · have hmem : c.key ∈ firstKeys cs := hk ▸ List.mem_append_right before List.mem_cons_self
    have hn : (c.key :: (before ++ after)).Nodup :=
      List.nodup_middle.mp (hk ▸ nodup_firstKeys cs)
    obtain ⟨hbefore, hafter⟩ := not_or.mp (mt List.mem_append.mpr (List.nodup_cons.mp hn).1)
    have hsplit : firstKeys cs = before ++ [c.key] ++ after := by simp [hk]
    constructor
    · rw [search_history, hsplit, found_append, found_append]
      simp only [found, List.flatMap_singleton]
    · rw [search_history, firstKeys_concat_of_mem hmem, hsplit, found_append, found_append,
        found_concat hbefore, found_concat hafter, found_concat_self]
  · simp only [search_history, found, matching_nil]

end SymbolIndex

open Surroundings in
theorem SymbolIndex.search_blocks_of_second_commit :
    let entry (name : String) : Symbol := ⟨Text.ofString name, none, [], [], [], default⟩
    let commit (root name : String) : Commit := ⟨Text.ofString root, [entry name], none, nofun⟩
    let cs := [commit "/a" "Alpha", commit "/b" "Beta"]
    (history (cs ++ [commit "/a/." "Gamma"])).search [] = [entry "Gamma", entry "Beta"] ∧
    (history (cs ++ [commit "/c" "Gamma"])).search (Text.ofString "MA") = [entry "Gamma"] := by
  intro entry commit cs
  have hfront : firstKeys cs = [] ++ (commit "/a/." "Gamma").key :: [Text.ofString "/b"] := by
    decide
  have hnew : (commit "/c" "Gamma").key ∉ firstKeys cs := by decide
  refine ⟨((search_blocks cs []).2.2.1 _ _ _ hfront).2.trans ?_,
    ((search_blocks cs (Text.ofString "MA")).2.1 _ hnew).trans ?_⟩
  · decide
  · decide +kernel

namespace SymbolIndex

open OrderedMap

variable [Path.WorkingDirectory] {cs : List Commit} {c : Commit} {q k : Text} {s : Symbol}

/-! ## Parts of names -/

theorem forRoot_history (cs : List Commit) (root : Text) :
    (history cs).forRoot root = latest cs (Path.rootKey root) := getD_byRoot_history cs _

theorem mem_firstKeys_of_mem_latest (h : s ∈ latest cs k) : k ∈ firstKeys cs := by
  rw [← keys_byRoot_history, ← isSome_get?]
  rw [← getD_byRoot_history, getD] at h
  by_contra hn
  rw [Option.not_isSome_iff_eq_none.mp hn] at h
  exact absurd h List.not_mem_nil

theorem mem_search_history : s ∈ (history cs).search q ↔
    (∃ root, s ∈ (history cs).forRoot root) ∧ q.lower <:+: s.name.lower := by
  simp only [search_history, found, matching, forRoot_history, List.mem_flatMap, List.mem_filter,
    decide_eq_true_eq]
  constructor
  · rintro ⟨k, hk, hs, hq⟩
    obtain ⟨c, -, rfl⟩ := List.mem_map.mp (List.mem_eraseDups.mp hk)
    exact ⟨⟨c.root, hs⟩, hq⟩
  · rintro ⟨⟨root, hs⟩, hq⟩
    exact ⟨_, mem_firstKeys_of_mem_latest hs, hs, hq⟩

/-- A history of one commit with one symbol. -/
def only (name : Text) : List Commit :=
  [⟨[], [⟨name, none, [], [], [], default⟩], none, nodup_of_none⟩]

theorem forRoot_only (name : Text) :
    (history (only name)).forRoot [] = [⟨name, none, [], [], [], default⟩] := by
  rw [forRoot_history]
  exact (latest_concat [] _ _).trans (if_pos rfl)

theorem mem_search_only {name : Text} :
    ⟨name, none, [], [], [], default⟩ ∈ (history (only name)).search q ↔
      q.lower <:+: name.lower := by
  rw [mem_search_history]
  exact and_iff_right ⟨[], forRoot_only name ▸ List.mem_cons_self⟩

theorem settled_iff_finds : q.Settled ↔ ∀ cs root, ∀ s ∈ (history cs).forRoot root,
    q <:+: s.name → s ∈ (history cs).search q := by
  rw [Text.settled_iff]
  constructor
  · intro h cs root s hs hq
    exact mem_search_history.mpr ⟨⟨root, hs⟩, h s.name hq⟩
  · intro h name hq
    exact mem_search_only.mp (h (only name) [] _ (forRoot_only name ▸ List.mem_cons_self) hq)

theorem settledBehind_iff_narrows : q.SettledBehind ↔
    ∀ cs r, ((history cs).search (q ++ r)).Sublist ((history cs).search q) := by
  rw [Text.settledBehind_iff]
  constructor
  · exact fun h cs r => search_sublist (h r) (history cs)
  · intro h r
    have hself := mem_search_only.mpr (List.infix_refl (q ++ r).lower)
    exact mem_search_only.mp ((h (only (q ++ r)) r).mem hself)

/-- A search finds every symbol whose name has the query as a part, just if the query itself
decides on the lower case of its sigmas. A longer query finds no more, just if a word that ends at
a sigma of the query ends within the query. A query without capital sigmas does both. -/
theorem search_finds_parts (q : Text) :
    (q.Settled ↔ ∀ cs root, ∀ s ∈ (history cs).forRoot root,
      q <:+: s.name → s ∈ (history cs).search q) ∧
    (q.SettledBehind ↔
      ∀ cs r, ((history cs).search (q ++ r)).Sublist ((history cs).search q)) ∧
    (q.Settled → q.SettledBehind) ∧
    (Text.capitalSigma ∉ q → q.Settled) :=
  ⟨settled_iff_finds, settledBehind_iff_narrows, Text.Settled.settledBehind,
    Text.settled_of_not_mem⟩

end SymbolIndex

open Surroundings in
theorem SymbolIndex.search_finds_parts_of_plain_query :
    let name := Text.ofString "Sum ΑΣ"
    ⟨name, none, [], [], [], default⟩ ∈ (history (only name)).search (Text.ofString "Sum") ∧
      (Text.ofString "Sum").SettledBehind := by
  intro name
  have hq : (Text.ofString "Sum").Settled := (search_finds_parts _).2.2.2 (by decide)
  refine ⟨(search_finds_parts _).1.mp hq (only name) [] _ ?_ ?_, (search_finds_parts _).2.2.1 hq⟩
  · exact forRoot_only name ▸ List.mem_cons_self
  · decide

open Surroundings in
/-- The sigma of the query ends a word, that of the name does not. -/
theorem SymbolIndex.search_misses_inner_sigma :
    let name := Text.ofString "ΑΣΑ"
    let s : Symbol := ⟨name, none, [], [], [], default⟩
    let q := Text.ofString "ΑΣ"
    s ∈ (history (only name)).forRoot [] ∧ q <:+: s.name ∧
      s ∉ (history (only name)).search q ∧
      ¬ ((history (only name)).search (q ++ Text.ofString "Α")).Sublist
        ((history (only name)).search q) := by
  intro name s q
  have hmiss : s ∉ (history (only name)).search q := mt mem_search_only.mp (by decide +kernel)
  have hlong : s ∈ (history (only name)).search (q ++ Text.ofString "Α") :=
    mem_search_only.mpr (by decide +kernel)
  exact ⟨forRoot_only name ▸ List.mem_cons_self, by decide, hmiss, fun h => hmiss (h.mem hlong)⟩

end Workbench
