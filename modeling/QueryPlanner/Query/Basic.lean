import QueryPlanner.Query.Clauses

/-!
# Queries

A query is a level whose nested queries are queries.

* `Query.fold` — recursion: the rule for a level sees the results of its nested queries
* `Query.fold_mk` — one step of that recursion
* `Query.induction` — a property that passes from the nested queries to the level holds everywhere
-/

namespace QueryPlanner

universe u

/-- A query. -/
structure Query where
  clauses : Clauses Query

namespace Query

/-- The query without any clause. -/
def empty : Query := ⟨{}⟩

instance : Inhabited Query := ⟨empty⟩

section

variable {α : Type u}

mutual

/-- Recursion on a query.  The rule for a level sees the results in place of the nested queries. -/
def fold (rule : Clauses α → α) : Query → α
  | ⟨c⟩ => rule
    { root := foldRoot rule c.root
      joins := foldJoins rule c.joins
      wheres := c.wheres
      groupBys := c.groupBys
      havings := c.havings
      orderBys := c.orderBys
      select := c.select
      distinct := c.distinct
      limit := c.limit
      offset := c.offset
      updates := c.updates
      windows := c.windows
      combinations := foldCombinations rule c.combinations
      ctes := foldCtes rule c.ctes
      preloads := c.preloads
      lock := c.lock
      queryPrefix := c.queryPrefix
      sources := c.sources }

/-- The result of the query nested in a source. -/
def foldSource (rule : Clauses α → α) : Source Query → Source α
  | .table name => .table name
  | .schema table name => .schema table name
  | .subquery query => .subquery (query.fold rule)
  | .fragment parts => .fragment parts

/-- The result of the query nested in the `from` clause. -/
def foldRoot (rule : Clauses α → α) : Option (FromClause Query) → Option (FromClause α)
  | none => none
  | some ⟨source, tablePrefix⟩ => some ⟨foldSource rule source, tablePrefix⟩

/-- The results of the queries nested in the joins. -/
def foldJoins (rule : Clauses α → α) : List (Join Query) → List (Join α)
  | [] => []
  | ⟨qualifier, none, on, association, tablePrefix, ix⟩ :: joins =>
    ⟨qualifier, none, on, association, tablePrefix, ix⟩ :: foldJoins rule joins
  | ⟨qualifier, some source, on, association, tablePrefix, ix⟩ :: joins =>
    ⟨qualifier, some (foldSource rule source), on, association, tablePrefix, ix⟩ ::
      foldJoins rule joins

/-- The results of the combined queries. -/
def foldCombinations (rule : Clauses α → α) : List (Combination Query) → List (Combination α)
  | [] => []
  | ⟨op, query⟩ :: combinations => ⟨op, query.fold rule⟩ :: foldCombinations rule combinations

/-- The results of the queries in common table expressions. -/
def foldCtes (rule : Clauses α → α) : List (Cte Query) → List (Cte α)
  | [] => []
  | ⟨name, .query query, recursive⟩ :: ctes =>
    ⟨name, .query (query.fold rule), recursive⟩ :: foldCtes rule ctes
  | ⟨name, .fragment parts, recursive⟩ :: ctes =>
    ⟨name, .fragment parts, recursive⟩ :: foldCtes rule ctes

end

variable (rule : Clauses α → α)

theorem foldSource_eq (s : Source Query) : foldSource rule s = s.map (fold rule) := by
  cases s <;> simp [foldSource, Source.map]

theorem foldRoot_eq (r : Option (FromClause Query)) :
    foldRoot rule r = r.map (FromClause.map (fold rule)) := by
  cases r <;> simp [foldRoot, FromClause.map, foldSource_eq]

theorem foldJoins_eq (js : List (Join Query)) :
    foldJoins rule js = js.map (Join.map (fold rule)) := by
  induction js with
  | nil => rfl
  | cons j js ih =>
    obtain ⟨_, source, _⟩ := j
    cases source <;> simp [foldJoins, Join.map, foldSource_eq, ih]

theorem foldCombinations_eq (cs : List (Combination Query)) :
    foldCombinations rule cs = cs.map (Combination.map (fold rule)) := by
  induction cs with
  | nil => rfl
  | cons c cs ih => simp [foldCombinations, Combination.map, ih]

theorem foldCtes_eq (cs : List (Cte Query)) :
    foldCtes rule cs = cs.map (Cte.map (fold rule)) := by
  induction cs with
  | nil => rfl
  | cons c cs ih =>
    obtain ⟨_, body, _⟩ := c
    cases body <;> simp [foldCtes, Cte.map, CteBody.map, ih]

/-- One step of the recursion: the rule applied to the level over its nested queries' results. -/
theorem fold_mk (c : Clauses Query) : fold rule ⟨c⟩ = rule (c.map (fold rule)) := by
  simp [fold, Clauses.map, foldRoot_eq, foldJoins_eq, foldCombinations_eq, foldCtes_eq]

end

mutual

/-- A property that passes from the nested queries of a level to the level holds of every query. -/
theorem induction {P : Query → Prop}
    (step : ∀ c : Clauses Query, (∀ q ∈ c.nested, P q) → P ⟨c⟩) : ∀ q : Query, P q
  | ⟨c⟩ => step c (by
      have hctes := induction_ctes step c.ctes
      have hcombinations := induction_combinations step c.combinations
      have hroot := induction_root step c.root
      have hjoins := induction_joins step c.joins
      simp only [Clauses.nested, List.mem_append]
      rintro q (((h | h) | h) | h)
      · exact hctes q h
      · exact hcombinations q h
      · exact hroot q h
      · exact hjoins q h)

theorem induction_source {P : Query → Prop}
    (step : ∀ c : Clauses Query, (∀ q ∈ c.nested, P q) → P ⟨c⟩) :
    ∀ s : Source Query, ∀ q ∈ s.nested, P q
  | .table _ => by simp [Source.nested]
  | .schema .. => by simp [Source.nested]
  | .fragment _ => by simp [Source.nested]
  | .subquery query => by simpa [Source.nested] using induction step query

theorem induction_root {P : Query → Prop}
    (step : ∀ c : Clauses Query, (∀ q ∈ c.nested, P q) → P ⟨c⟩) :
    ∀ r : Option (FromClause Query), ∀ q ∈ r.toList.flatMap (·.source.nested), P q
  | none => by simp
  | some ⟨source, _⟩ => by simpa using induction_source step source

theorem induction_joins {P : Query → Prop}
    (step : ∀ c : Clauses Query, (∀ q ∈ c.nested, P q) → P ⟨c⟩) :
    ∀ js : List (Join Query),
      ∀ q ∈ js.flatMap (fun j => j.source.toList.flatMap Source.nested), P q
  | [] => by simp
  | ⟨_, none, _, _, _, _⟩ :: js => by simpa using induction_joins step js
  | ⟨_, some source, _, _, _, _⟩ :: js => by
    have hs := induction_source step source
    have hjs := induction_joins step js
    rw [List.flatMap_cons]
    intro q hq
    rcases List.mem_append.mp hq with hq | hq
    · exact hs q (by simpa using hq)
    · exact hjs q hq

theorem induction_combinations {P : Query → Prop}
    (step : ∀ c : Clauses Query, (∀ q ∈ c.nested, P q) → P ⟨c⟩) :
    ∀ cs : List (Combination Query), ∀ q ∈ cs.map (·.query), P q
  | [] => by simp
  | ⟨_, query⟩ :: cs => by
    have hq := induction step query
    have hcs := induction_combinations step cs
    rw [List.map_cons]
    intro q h
    rcases List.mem_cons.mp h with rfl | h
    · exact hq
    · exact hcs q h

theorem induction_ctes {P : Query → Prop}
    (step : ∀ c : Clauses Query, (∀ q ∈ c.nested, P q) → P ⟨c⟩) :
    ∀ cs : List (Cte Query), ∀ q ∈ cs.flatMap (·.body.nested), P q
  | [] => by simp
  | ⟨_, .query query, _⟩ :: cs => by
    have hq := induction step query
    have hcs := induction_ctes step cs
    rw [List.flatMap_cons]
    intro q h
    rcases List.mem_append.mp h with h | h
    · rw [CteBody.nested, List.mem_singleton] at h
      exact h ▸ hq
    · exact hcs q h
  | ⟨_, .fragment _, _⟩ :: cs => by simpa [CteBody.nested] using induction_ctes step cs

end

end Query

end QueryPlanner
