import QueryPlanner.Schema.Basic

/-!
# Registries of schemas

A registry holds at most one schema of each name; a later schema takes the place of an earlier one.

* `Registry.lookup?` — the schema of a name
* `Registry.ofDistinct` — a registry from schemas of which no two share a name
-/

namespace QueryPlanner

/-- Schemas by name. -/
structure Registry where
  schemas : List Schema
  nodup : (schemas.map (·.name)).Nodup

namespace Registry

/-- The registry without schemas. -/
def empty : Registry := ⟨[], List.nodup_nil⟩

/-- The schema of a name. -/
def lookup? (r : Registry) (name : String) : Option Schema :=
  r.schemas.find? (·.name == name)

/-- What a look-up finds has the name that was looked up. -/
theorem name_of_lookup? {r : Registry} {name : String} {s : Schema}
    (h : r.lookup? name = some s) : s.name = name := by
  simpa using List.find?_some h

/-- What a look-up finds is one of the schemas. -/
theorem mem_of_lookup? {r : Registry} {name : String} {s : Schema}
    (h : r.lookup? name = some s) : s ∈ r.schemas :=
  List.mem_of_find?_eq_some h

/-- Add a schema, in place of one of the same name. -/
def insert (r : Registry) (s : Schema) : Registry where
  schemas := r.schemas.filter (·.name != s.name) ++ [s]
  nodup := by
    rw [List.map_append, List.nodup_append]
    refine ⟨r.nodup.sublist (List.filter_sublist.map _), by simp, ?_⟩
    intro a ha b hb hab
    obtain ⟨t, ht, rfl⟩ := List.mem_map.mp ha
    simp only [List.map_cons, List.map_nil, List.mem_singleton] at hb
    have hne := (List.mem_filter.mp ht).2
    simp [hab, hb] at hne

/-- Add schemas in turn. -/
def insertAll (r : Registry) (schemas : List Schema) : Registry := schemas.foldl insert r

/-- A registry from a list of schemas; of a repeated name the second bearer is an error. -/
def ofDistinct (schemas : List Schema) : Except String Registry :=
  schemas.foldlM
    (fun r s => if (r.lookup? s.name).isSome then .error s.name else .ok (r.insert s)) empty

/-- The number of schemas. -/
def size (r : Registry) : Nat := r.schemas.length

/-- Whether there is no schema. -/
def isEmpty (r : Registry) : Bool := r.schemas.isEmpty

end Registry

end QueryPlanner
