import Mathlib.Data.List.Basic
import QueryPlanner.Plan.Level
import QueryPlanner.Proofs.Query.Items

/-!
# Reading a query

A query is read clause by clause in the order of its operation, a nested query as a whole where it
stands and in the order of reading.  Every statement about "everywhere in the query" and about "in
this order" goes through this one list.

* `Query.reading` — the expressions of a query, nested queries' included, in reading order
* `Query.mem_reading` — both orders read everything
* `Query.ext_details` — a query is the query without a detail and the detail, in reading order
-/

namespace QueryPlanner

open HasExprs

variable {σ τ δ : Type}

/-! ### The reading -/

/-- The expressions of an item whose nested query is given by its reading. -/
def Item.read : Item (Operation → List Expr) → List Expr
  | expr e => [e]
  | nested reading => reading .all

/-- The expressions of a level whose nested queries are given by their readings. -/
def Clauses.read (c : Clauses (Operation → List Expr)) (operation : Operation) : List Expr :=
  operation.clauseOrder.flatMap fun clause => (c.items clause).flatMap Item.read

namespace Query

/-- The expressions of a query as an operation reads them.  Nested queries are always read as
queries, whatever the operation around them. -/
def reading : Query → Operation → List Expr := fold Clauses.read

/-- A property of every expression that stands in the query, at any depth of nesting. -/
def All (P : Expr → Prop) (q : Query) : Prop := ∀ e ∈ q.reading .all, P e

/-- The query with every expression replaced, at any depth of nesting. -/
def edit (f : Expr → Expr) : Query → Query := fold fun c => ⟨c.edit f id⟩

/-- The query with a detail forgotten everywhere. -/
def without (d : Detail δ) : Query → Query := edit (Expr.without d)

/-- The data of a detail everywhere in the query, in reading order. -/
def details (d : Detail δ) (operation : Operation) (q : Query) : List δ :=
  (q.reading operation).flatMap (Expr.details d)

/-- The placeholders of a query in reading order. -/
def slots (operation : Operation) (q : Query) : List Slot := q.details .numbers operation

end Query

namespace Item

/-- The expressions of an item. -/
def reading : Item Query → List Expr
  | expr e => [e]
  | nested q => q.reading .all

/-- A property of every expression of an item. -/
def All (P : Expr → Prop) : Item Query → Prop
  | expr e => P e
  | nested q => q.All P

/-- The data of a detail in an item. -/
def details (d : Detail δ) (i : Item Query) : List δ := i.reading.flatMap (Expr.details d)

theorem all_iff {P : Expr → Prop} {i : Item Query} : i.All P ↔ ∀ e ∈ i.reading, P e := by
  cases i <;> simp [All, reading, Query.All]

end Item

/-! ### One level at a time -/

theorem Source.map_eq_edit (g : σ → τ) (s : Source σ) : s.map g = s.edit id g := by
  cases s <;> simp [map, edit, rewrite_id]

theorem Join.map_eq_edit (g : σ → τ) (j : Join σ) : j.map g = j.edit id g := by
  have hsource : (Source.map g : Source σ → Source τ) = Source.edit id g :=
    funext (Source.map_eq_edit g)
  simp only [map, edit, hsource, rewrite_id]

theorem Cte.map_eq_edit (g : σ → τ) (c : Cte σ) : c.map g = c.edit id g := by
  obtain ⟨_, body, _⟩ := c
  cases body <;> simp [map, edit, CteBody.map, CteBody.edit, rewrite_id]

/-- Replacing the nested queries of a level is replacing its items, but no expression. -/
theorem Clauses.map_eq_edit (g : σ → τ) (c : Clauses σ) : c.map g = c.edit id g := by
  have hroot : (FromClause.map g : FromClause σ → FromClause τ) = FromClause.edit id g :=
    funext fun r => congrArg (FromClause.mk · r.tablePrefix) (Source.map_eq_edit g r.source)
  have hjoin : (Join.map g : Join σ → Join τ) = Join.edit id g := funext (Join.map_eq_edit g)
  have hcte : (Cte.map g : Cte σ → Cte τ) = Cte.edit id g := funext (Cte.map_eq_edit g)
  simp only [map, edit, hroot, hjoin, hcte, rewrite_id]

/-- Every clause but the preloads, which hold no items, is read. -/
theorem Operation.mem_clauseOrder (operation : Operation) {clause : Clause} :
    clause ∈ operation.clauseOrder ↔ clause ≠ .preload := by
  cases operation <;> cases clause <;> simp [clauseOrder]

/-- No clause is read twice. -/
theorem Operation.nodup_clauseOrder (operation : Operation) : operation.clauseOrder.Nodup := by
  cases operation <;> decide

/-- Levels of one frame hold equally many items in every clause. -/
theorem Clauses.length_items {c : Clauses σ} {d : Clauses τ} (h : c.frame = d.frame)
    (clause : Clause) : (c.items clause).length = (d.items clause).length := by
  have hlen := congrArg (fun f : Clauses Unit => (f.items clause).length) h
  simpa only [frame, items_edit, List.length_map] using hlen

/-- A level is its frame and its items as an operation reads them. -/
theorem Clauses.ext_read_items {c d : Clauses σ} (operation : Operation) (hs : c.frame = d.frame)
    (hi : operation.clauseOrder.flatMap c.items = operation.clauseOrder.flatMap d.items) :
    c = d := by
  refine ext_items hs fun clause => ?_
  by_cases hclause : clause = .preload
  · rw [hclause]
    rfl
  · exact List.eqOn_of_flatMap_eq (fun other _ => length_items hs other) hi clause
      (operation.mem_clauseOrder.mpr hclause)

namespace Query

theorem reading_mk (c : Clauses Query) (operation : Operation) :
    reading ⟨c⟩ operation =
      operation.clauseOrder.flatMap fun clause => (c.items clause).flatMap Item.reading := by
  have hread : ∀ i : Item Query, (i.map id reading).read = i.reading := by
    intro i
    cases i <;> rfl
  rw [reading, fold_mk, Clauses.map_eq_edit]
  simp only [Clauses.read, Clauses.items_edit, List.flatMap_map]
  congr 1
  funext clause
  congr 1
  funext i
  exact hread i

/-- Both orders read every clause, so the order matters for no property of all expressions. -/
theorem mem_reading {q : Query} {operation : Operation} {e : Expr} :
    e ∈ q.reading operation ↔ e ∈ q.reading .all := by
  obtain ⟨c⟩ := q
  simp only [reading_mk, List.mem_flatMap, Operation.mem_clauseOrder]

theorem all_mk {P : Expr → Prop} {c : Clauses Query} :
    All P ⟨c⟩ ↔ ∀ clause, ∀ i ∈ c.items clause, i.All P := by
  simp only [All, reading_mk, List.mem_flatMap, Operation.mem_clauseOrder]
  constructor
  · intro h clause i hi
    have hne : clause ≠ .preload := by
      rintro rfl
      cases hi
    exact Item.all_iff.mpr fun e he => h e ⟨clause, hne, i, hi, he⟩
  · rintro h e ⟨clause, -, i, hi, he⟩
    exact Item.all_iff.mp (h clause i hi) e he

theorem edit_mk (f : Expr → Expr) (c : Clauses Query) : edit f ⟨c⟩ = ⟨c.edit f (edit f)⟩ := by
  rw [edit, fold_mk, Clauses.map_eq_edit, Clauses.edit_edit]
  rfl

theorem without_mk (d : Detail δ) (c : Clauses Query) :
    without d ⟨c⟩ = ⟨c.edit (Expr.without d) (without d)⟩ :=
  edit_mk _ c

theorem details_mk (d : Detail δ) (operation : Operation) (c : Clauses Query) :
    details d operation ⟨c⟩ =
      operation.clauseOrder.flatMap fun clause => (c.items clause).flatMap (Item.details d) := by
  simp only [details, reading_mk, List.flatMap_assoc]
  rfl

/-! ### Recursion over nested queries -/

/-- A query among the items of a level is one that the level nests. -/
theorem mem_nested_of_mem_items {c : Clauses Query} {clause : Clause} {q : Query}
    (h : Item.nested q ∈ c.items clause) : q ∈ c.nested := by
  have hexprs : ∀ {X : Type} [HasExprs X] {x : X}, Item.nested q ∉ Item.ofExprs x := by
    intro X _ x hx
    obtain ⟨e, -, he⟩ := List.mem_map.mp hx
    cases he
  have hsource : ∀ {s : Source Query}, Item.nested q ∈ s.items → q ∈ s.nested := by
    intro s hs
    cases s with
    | subquery q' => simpa [Source.items, Source.nested] using hs
    | fragment parts => exact absurd hs hexprs
    | _ => cases hs
  simp only [Clauses.nested, List.mem_append]
  cases clause with
  | withCte =>
    obtain ⟨cte, hcte, hq⟩ := List.mem_flatMap.mp h
    refine .inl (.inl (.inl (List.mem_flatMap.mpr ⟨cte, hcte, ?_⟩)))
    cases hb : cte.body with
    | query q' => simpa [hb, CteBody.items, CteBody.nested] using hq
    | fragment parts => exact absurd (hb ▸ hq) hexprs
  | combination =>
    obtain ⟨combined, hc, hq⟩ := List.mem_map.mp h
    exact .inl (.inl (.inr (List.mem_map.mpr ⟨combined, hc, Item.nested.inj hq⟩)))
  | fromSource =>
    obtain ⟨root, hroot, hq⟩ := List.mem_flatMap.mp h
    exact .inl (.inr (List.mem_flatMap.mpr ⟨root, hroot, hsource hq⟩))
  | join =>
    obtain ⟨join, hj, hq⟩ := List.mem_flatMap.mp h
    rcases List.mem_append.mp hq with hq | hq
    · obtain ⟨s, hs, hq⟩ := List.mem_flatMap.mp hq
      exact .inr (List.mem_flatMap.mpr ⟨join, hj, List.mem_flatMap.mpr ⟨s, hs, hsource hq⟩⟩)
    · exact absurd hq hexprs
  | preload => cases h
  | _ => exact absurd h hexprs

/-- A property that passes from the nested items of a level to the level holds of every query. -/
theorem induction_items {P : Query → Prop}
    (step : ∀ c : Clauses Query,
      (∀ clause q, Item.nested q ∈ c.items clause → P q) → P ⟨c⟩) (q : Query) : P q :=
  Query.induction (fun c ih => step c fun _ q hq => ih q (mem_nested_of_mem_items hq)) q

/-- Replacing expressions replaces them in the reading. -/
theorem reading_edit (f : Expr → Expr) (q : Query) :
    ∀ operation, (q.edit f).reading operation = (q.reading operation).map f := by
  refine induction_items (P := fun q => ∀ operation,
    (q.edit f).reading operation = (q.reading operation).map f) ?_ q
  intro c ih operation
  rw [edit_mk, reading_mk, reading_mk, List.map_flatMap]
  refine List.flatMap_congr fun clause _ => ?_
  rw [Clauses.items_edit, List.flatMap_map, List.map_flatMap]
  refine List.flatMap_congr fun i hi => ?_
  cases i with
  | expr e => rfl
  | nested q => exact ih clause q hi .all

/-! ### A query is the query without a detail and the detail -/

section

variable (d : Detail δ)

/-- Levels that agree without a detail agree in every clause without it. -/
theorem items_of_without_eq {c c' : Clauses Query} (h : without d ⟨c⟩ = without d ⟨c'⟩)
    (clause : Clause) :
    (c.items clause).map (Item.map (Expr.without d) (without d)) =
      (c'.items clause).map (Item.map (Expr.without d) (without d)) := by
  rw [without_mk, without_mk] at h
  have hi := congrArg (fun q : Query => q.clauses.items clause) h
  simpa only [Clauses.items_edit] using hi

theorem length_details_item {i j : Item Query}
    (hq : ∀ q, i = .nested q → ∀ q' : Query, q.without d = q'.without d →
      (q.details d .all).length = (q'.details d .all).length)
    (h : i.map (Expr.without d) (without d) = j.map (Expr.without d) (without d)) :
    (i.details d).length = (j.details d).length := by
  cases i with
  | expr e =>
    cases j with
    | expr e' =>
      simpa [Item.details, Item.reading] using Expr.length_details d e e' (Item.expr.inj h)
    | nested q' => cases h
  | nested q =>
    cases j with
    | expr e' => cases h
    | nested q' => exact hq q rfl q' (Item.nested.inj h)

/-- Queries that agree without a detail carry equally much of it. -/
theorem length_details (q₁ : Query) :
    ∀ (q₂ : Query) (operation : Operation), q₁.without d = q₂.without d →
      (q₁.details d operation).length = (q₂.details d operation).length := by
  refine induction_items (P := fun q₁ => ∀ (q₂ : Query) (operation : Operation),
    q₁.without d = q₂.without d →
      (q₁.details d operation).length = (q₂.details d operation).length) ?_ q₁
  rintro c ih ⟨c'⟩ operation h
  rw [details_mk, details_mk, List.length_flatMap, List.length_flatMap]
  congr 1
  apply List.map_congr_left
  intro clause _
  refine List.length_flatMap_of_map_eq (items_of_without_eq d h clause) ?_
  intro i hi j hij
  exact length_details_item d (fun q hq q' => ih clause q (hq ▸ hi) q' .all) hij

/-- **A query is the query without a detail and the detail.** -/
theorem ext_details (q₁ : Query) :
    ∀ (q₂ : Query) (operation : Operation), q₁.without d = q₂.without d →
      q₁.details d operation = q₂.details d operation → q₁ = q₂ := by
  refine induction_items (P := fun q₁ => ∀ (q₂ : Query) (operation : Operation),
    q₁.without d = q₂.without d →
      q₁.details d operation = q₂.details d operation → q₁ = q₂) ?_ q₁
  rintro c ih ⟨c'⟩ operation h hd
  have hlen : ∀ i j : Item Query,
      i.map (Expr.without d) (without d) = j.map (Expr.without d) (without d) →
        (i.details d).length = (j.details d).length := fun i j =>
    length_details_item d fun q _ q' => length_details d q q' .all
  rw [details_mk, details_mk] at hd
  refine congrArg Query.mk (Clauses.ext_items ?_ ?_)
  · rw [without_mk, without_mk] at h
    have hf := congrArg (fun q : Query => q.clauses.frame) h
    simpa only [Clauses.frame_edit] using hf
  · intro clause
    have hitems := items_of_without_eq d h clause
    by_cases hclause : clause = .preload
    · rw [hclause]
      rfl
    have hhere := List.eqOn_of_flatMap_eq
      (fun cl _ => List.length_flatMap_of_map_eq (items_of_without_eq d h cl)
        fun i _ j => hlen i j) hd clause (operation.mem_clauseOrder.mpr hclause)
    refine List.eq_of_map_eq_of_flatMap_eq hlen hitems hhere ?_
    intro i hi j hij hdij
    cases i with
    | expr e =>
      cases j with
      | expr e' =>
        have he : e = e' := Expr.ext_details d e e' (Item.expr.inj hij)
          (by simpa [Item.details, Item.reading] using hdij)
        rw [he]
      | nested q' => cases hij
    | nested q =>
      cases j with
      | expr e' => cases hij
      | nested q' => rw [ih clause q hi q' .all (Item.nested.inj hij) hdij]

end

end Query

end QueryPlanner
