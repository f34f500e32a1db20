import QueryPlanner.Value.Basic

/-!
# Maps read from documents

A map that a document writes has each key once, in the order of the keys.

* `Value.insertEntry` — put an entry in its place; of two entries of one key the later stays
* `Value.ofEntries` — the map of entries in any order
* `Value.keys_ofEntries_sorted` — its keys ascend
-/

namespace QueryPlanner

namespace Value

/-- Put an entry into its place, or in the place of the entry of its key. -/
def insertEntry (key : String) (value : Value) :
    List (String × Value) → List (String × Value)
  | [] => [(key, value)]
  | (k, v) :: rest =>
    if key < k then (key, value) :: (k, v) :: rest
    else if key = k then (key, value) :: rest
    else (k, v) :: insertEntry key value rest

/-- Entries in the order of their keys, of each key the last one. -/
def sortEntries (entries : List (String × Value)) : List (String × Value) :=
  entries.foldl (fun sorted e => insertEntry e.1 e.2 sorted) []

/-- The map of entries in any order; of two entries of one key the later counts. -/
def ofEntries (entries : List (String × Value)) : Value := map (sortEntries entries)

/-- Keys that ascend from each entry to every later one. -/
abbrev KeysAscend (entries : List (String × Value)) : Prop :=
  entries.Pairwise (fun a b => a.1 < b.1)

/-- An insertion adds no key but its own. -/
theorem mem_insertEntry {key : String} {value : Value} {e : String × Value} :
    ∀ {entries : List (String × Value)}, e ∈ insertEntry key value entries →
      e = (key, value) ∨ e ∈ entries
  | [], h => by simpa [insertEntry] using h
  | (k, v) :: rest, h => by
    unfold insertEntry at h
    split at h
    · simpa using h
    · split at h
      · rcases List.mem_cons.mp h with rfl | h
        · exact .inl rfl
        · exact .inr (List.mem_cons_of_mem _ h)
      · rcases List.mem_cons.mp h with rfl | h
        · exact .inr List.mem_cons_self
        · exact (mem_insertEntry h).imp id (List.mem_cons_of_mem _)

/-- Insertion keeps the order of the keys. -/
theorem keysAscend_insertEntry (key : String) (value : Value) :
    ∀ {entries : List (String × Value)}, KeysAscend entries →
      KeysAscend (insertEntry key value entries)
  | [], _ => by simp [insertEntry]
  | (k, v) :: rest, h => by
    obtain ⟨hk, hrest⟩ := List.pairwise_cons.mp h
    unfold insertEntry
    split
    · next hlt =>
      refine List.pairwise_cons.mpr ⟨fun e he => ?_, h⟩
      rcases List.mem_cons.mp he with rfl | he
      · exact hlt
      · exact String.lt_trans hlt (hk e he)
    · next hnlt =>
      split
      · next heq =>
        subst heq
        exact List.pairwise_cons.mpr ⟨hk, hrest⟩
      · next hne =>
        refine List.pairwise_cons.mpr ⟨fun e he => ?_, keysAscend_insertEntry key value hrest⟩
        rcases mem_insertEntry he with rfl | he
        · refine Decidable.byContradiction fun hnot => hne ?_
          exact String.le_antisymm (String.not_lt.mp hnot) (String.not_lt.mp hnlt)
        · exact hk e he

/-- The keys of a map read from a document ascend, so each stands there once. -/
theorem keys_ofEntries_sorted (entries : List (String × Value)) :
    KeysAscend (sortEntries entries) := by
  suffices h : ∀ sorted, KeysAscend sorted →
      KeysAscend (entries.foldl (fun sorted e => insertEntry e.1 e.2 sorted) sorted) from
    h [] List.Pairwise.nil
  induction entries with
  | nil => exact fun _ h => h
  | cons e es ih => exact fun sorted h => ih _ (keysAscend_insertEntry e.1 e.2 h)

end Value

end QueryPlanner
