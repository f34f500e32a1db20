import QueryPlanner.Proofs.CacheKey.Query

/-!
# Equal keys, equal plans

Keys do not hold the numbers of placeholders.  But a query that has a key holds no ranges, and in a
plan of a query without placeholders of its own the numbers run from zero in reading order.  So
they need not be written: queries with one key have the same numbers in the same places.

* `Slot.Tiles.eq_map_range'` — where every run is one placeholder, the runs are known
* `Query.details_settled`, `Query.slots_canonical` — a canonical query has the placeholders of the
  query
* `Planner.canonical_of_cacheKey_eq` — plans with one key are of one canonical query
-/

namespace QueryPlanner

open HasExprs

variable {δ : Type}

/-! ### Numbers -/

/-- Runs of one placeholder each that follow one another are the numbers between their ends. -/
theorem Slot.Tiles.eq_map_range' {slots : List Slot} {a b : Nat} (h : Tiles slots a b)
    (hunit : ∀ s ∈ slots, s.length = 1) :
    slots = (List.range' a (b - a)).map fun ix => ⟨ix, 1⟩ := by
  induction slots generalizing a with
  | nil =>
    obtain rfl : a = b := h
    simp
  | cons s slots ih =>
    have hs := hunit s List.mem_cons_self
    have htail : Tiles slots (a + 1) b := hs ▸ h.2
    have hle := htail.le
    obtain ⟨k, hk⟩ : ∃ k, b - a = k + 1 := ⟨b - (a + 1), by omega⟩
    have hrest : b - (a + 1) = k := by omega
    rw [hk, List.range'_succ, List.map_cons, ← hrest,
      ← ih htail fun s' hs' => hunit s' (List.mem_cons_of_mem s hs')]
    congr 1
    cases s
    simp only [Slot.mk.injEq]
    exact ⟨h.1, hs⟩

/-- A range-free expression has single placeholders only. -/
theorem Expr.RangeFree.length_slot {e : Expr} (h : e.RangeFree) :
    ∀ s ∈ e.details .numbers, s.length = 1 := by
  revert h
  refine Expr.induction (P := fun e => e.RangeFree → ∀ s ∈ e.details .numbers, s.length = 1) ?_ e
  intro n ih h s hs
  obtain ⟨hn, hchildren⟩ := rangeFree_mk.mp h
  rw [details_mk] at hs
  rcases List.mem_append.mp hs with hs | hs
  · cases n with
    | param ix => rw [List.mem_singleton.mp hs]
    | paramRange start length => cases hn
    | _ => cases hs
  · obtain ⟨c, hc, hs⟩ := List.mem_flatMap.mp hs
    exact ih c hc (hchildren c hc) s hs

/-- Forgetting annotations keeps the numbers of placeholders. -/
theorem Expr.details_without_annotations (e : Expr) :
    (e.without .annotations).details .numbers = e.details .numbers := by
  refine Expr.induction (P := fun e =>
    (e.without .annotations).details .numbers = e.details .numbers) ?_ e
  intro n ih
  have hdata : Detail.numbers.data (Detail.annotations.forget (n.map (without .annotations))) =
      Detail.numbers.data n := by
    cases n <;> rfl
  rw [without_mk, details_mk, details_mk, hdata, Detail.annotations.children_forget,
    Node.children_map, List.flatMap_map]
  congr 1
  exact List.flatMap_congr ih

/-- What keys leave out of a level carries no detail of expressions that interpolate nothing. -/
theorem Clauses.details_items_plain {d : Detail δ} (hd : d.SparesInert) (c : Clauses Query)
    (clause : Clause) : (c.plain.items clause).flatMap (Item.details d) =
      (c.items clause).flatMap (Item.details d) := by
  cases clause with
  | join =>
    simp only [items, plain, List.flatMap_map, List.flatMap_assoc]
    refine List.flatMap_congr fun j _ => ?_
    simp only [Join.items, List.flatMap_append]
    congr 1
    cases honj : j.on with
    | none =>
      simp [Join.plain, Join.onOrTrue, honj, Item.ofExprs, exprs, Item.details_expr]
      exact Expr.details_of_inert hd _ (Expr.inert_literal _)
    | some e => simp [Join.plain, Join.onOrTrue, honj]
  | fromSource =>
    simp only [items, plain]
    cases c.root <;> rfl
  | _ => rfl

namespace Query

variable {form : List BoundSource → LiteralForm}

/-- A settled query carries the details of the query. -/
theorem details_settled {d : Detail δ} (hd : d.SparesInert) (q : Query) :
    ∀ operation, (q.settled form).details d operation = q.details d operation := by
  refine Query.induction_items (P := fun q =>
    ∀ operation, (q.settled form).details d operation = q.details d operation) ?_ q
  intro c ih operation
  rw [settled_mk, details_mk, details_mk]
  refine List.flatMap_congr fun clause _ => ?_
  rw [Clauses.items_edit, List.flatMap_map, ← Clauses.details_items_plain hd]
  refine List.flatMap_congr fun i hi => ?_
  cases i with
  | expr e =>
    rw [Item.map, Item.details_expr, Item.details_expr, Expr.details_settle hd]
  | nested q =>
    rcases Clauses.mem_items_plain hi with hi | hi
    · exact ih clause q hi .all
    · cases hi

/-- A canonical query has the placeholders of the query. -/
theorem slots_canonical (q : Query) (operation : Operation) :
    (q.canonical form).slots operation = q.slots operation := by
  have hsettled : (q.settled form).details .numbers operation = q.details .numbers operation :=
    details_settled Detail.sparesInert_numbers q operation
  rw [slots, slots, ← hsettled, canonical, details, details, without, reading_edit,
    List.flatMap_map]
  exact congrArg List.flatten
    (List.map_congr_left fun e _ => Expr.details_without_annotations e)

/-- **Planned queries with one code** whose placeholders are numbered from zero on have one
canonical query, numbers included. -/
theorem canonical_eq_of_code_eq {q₁ q₂ : Query} {o₁ o₂ : Operation} {n₁ n₂ : Nat}
    (h₁ : q₁.Planned) (h₂ : q₂.Planned) (hlegible₁ : q₁.All Expr.Legible)
    (hlegible₂ : q₂.All Expr.Legible) (hcode : q₁.code form o₁ = q₂.code form o₂)
    (hslots₁ : q₁.slots o₁ = (List.range n₁).map fun ix => ⟨ix, 1⟩)
    (hslots₂ : q₂.slots o₂ = (List.range n₂).map fun ix => ⟨ix, 1⟩) :
    o₁ = o₂ ∧ q₁.canonical form = q₂.canonical form := by
  obtain ⟨rfl, hwithout⟩ := canonical_of_code_eq h₁ h₂ hlegible₁ hlegible₂ hcode
  refine ⟨rfl, ext_details .numbers _ _ o₁ hwithout ?_⟩
  have hlength := length_details .numbers _ _ o₁ hwithout
  change (slots _ _).length = (slots _ _).length at hlength
  change slots _ _ = slots _ _
  rw [slots_canonical, slots_canonical, hslots₁, hslots₂] at hlength ⊢
  rw [List.length_map, List.length_map, List.length_range, List.length_range] at hlength
  rw [hlength]

end Query

/-! ### Plans -/

theorem Query.cacheKey_eq_key {ctx : Context} {q : Query} {operation : Operation}
    {nodes : List KeyNode} :
    q.cacheKey ctx operation = .key nodes ↔ q.key ctx operation = some nodes := by
  unfold cacheKey
  cases q.key ctx operation <;> simp

/-- A plan has a key if its query has. -/
theorem Planner.key_of_cacheKey {p : Planner} {ctx : Context} {q : Query} {nodes : List KeyNode}
    (h : p.cacheKey ctx q = .key nodes) : q.key ctx ctx.operation = some nodes := by
  unfold cacheKey at h
  by_cases henabled : p.cache.enabled
  · rw [if_pos henabled] at h
    exact Query.cacheKey_eq_key.mp h
  · rw [if_neg henabled] at h
    cases h

/-- A plan with a key: the key is the code of the planned query, which is legible. -/
theorem Planner.plan_coded {p : Planner} {q : Query} {operation : Operation} {caps : Capabilities}
    {plan : Plan} {nodes : List KeyNode} (h : p.plan q operation caps = .ok plan)
    (hkey : plan.cacheKey = .key nodes) : plan.query.Planned ∧ plan.query.All Expr.Legible ∧
      nodes = plan.query.code (Clauses.literalForm (p.context operation caps)) operation := by
  obtain ⟨hyields, hcacheKey⟩ := Planner.plan_cases h
  have hextracted := Query.plan_extracted q _ _ _ _ hyields
  have hplanned := Query.plan_planned q _ _ _ _ hyields
  have hquery := Planner.key_of_cacheKey (hcacheKey.symm.trans hkey)
  obtain ⟨hrange, hnodes⟩ := (Query.guarded_key hplanned _ _).mp hquery
  exact ⟨hplanned, fun e he => ⟨hextracted e he, hrange e he⟩, hnodes⟩

/-- A plan with a key of a query without placeholders of its own: what it is coded by, and its
placeholders, which are numbered from zero in reading order. -/
theorem Planner.plan_keyed {p : Planner} {q : Query} {operation : Operation} {caps : Capabilities}
    {plan : Plan} {nodes : List KeyNode} (hq : q.slots .all = [])
    (h : p.plan q operation caps = .ok plan) (hkey : plan.cacheKey = .key nodes) :
    plan.query.Planned ∧ plan.query.All Expr.Legible ∧
      nodes = plan.query.code (Clauses.literalForm (p.context operation caps)) operation ∧
      plan.query.slots operation = (List.range plan.parameters.length).map fun ix => ⟨ix, 1⟩ := by
  obtain ⟨hplanned, hlegible, hnodes⟩ := Planner.plan_coded h hkey
  refine ⟨hplanned, hlegible, hnodes, ?_⟩
  have htiles := (Query.plan_tiles q hq _ _ _ _ (Planner.plan_cases h).1).1
  rw [List.range_eq_range']
  refine htiles.eq_map_range' fun s hs => ?_
  obtain ⟨e, he, hs⟩ := List.mem_flatMap.mp hs
  exact (hlegible e (Query.mem_reading.mp he)).rangeFree.length_slot s hs

/-- **Plans with one key are of one query.**  For all queries without placeholders of their own that
a planner plans with equal keys: they were planned for one operation, and the planned queries are
the same at every depth, with their bound sources and the numbers of placeholders, up to what
`Query.canonical` drops. -/
theorem Planner.canonical_of_cacheKey_eq (p : Planner) (q₁ q₂ : Query) (o₁ o₂ : Operation)
    (caps₁ caps₂ : Capabilities) (plan₁ plan₂ : Plan) (nodes : List KeyNode)
    (hq₁ : q₁.slots .all = []) (hq₂ : q₂.slots .all = [])
    (h₁ : p.plan q₁ o₁ caps₁ = .ok plan₁) (h₂ : p.plan q₂ o₂ caps₂ = .ok plan₂)
    (hkey₁ : plan₁.cacheKey = .key nodes) (hkey₂ : plan₂.cacheKey = .key nodes) :
    o₁ = o₂ ∧
      plan₁.query.canonical (Clauses.literalForm (p.context o₁ caps₁)) =
        plan₂.query.canonical (Clauses.literalForm (p.context o₂ caps₂)) := by
  obtain ⟨hplanned₁, hlegible₁, hcode₁, hslots₁⟩ := Planner.plan_keyed hq₁ h₁ hkey₁
  obtain ⟨hplanned₂, hlegible₂, hcode₂, hslots₂⟩ := Planner.plan_keyed hq₂ h₂ hkey₂
  have hform : Clauses.literalForm (p.context o₂ caps₂) =
      Clauses.literalForm (p.context o₁ caps₁) :=
    rfl
  rw [hform] at hcode₂ ⊢
  exact Query.canonical_eq_of_code_eq hplanned₁ hplanned₂ hlegible₁ hlegible₂
    (hcode₁.symm.trans hcode₂) hslots₁ hslots₂

/-- A planner that takes tables without a prefix from `blog`. -/
def Planner.blog : Planner := ⟨.empty, .builtin, some "blog", {}⟩

/-- Posts with more likes than a value that is interpolated, each with an interpolated null of a
type. -/
def Query.likedPosts (likes : Int) (type : FieldType) : Query :=
  ((Query.ofTable "posts").filter ((Expr.field 0 "likes").gt (.pin (.int likes)))).select
    (.typed (.pin .null) type)

/-- Two plannings with one key, if the first has a key. -/
theorem Planner.plans_of_cacheKey_eq {x y : Except PlanError Plan}
    (hcached : x.toOption.map (·.cacheKey.text?.isSome) = some true)
    (hsame : x.toOption.map (·.cacheKey) = y.toOption.map (·.cacheKey)) :
    ∃ plan₁ plan₂ nodes, x = .ok plan₁ ∧ y = .ok plan₂ ∧ plan₁.cacheKey = .key nodes ∧
      plan₂.cacheKey = .key nodes := by
  obtain ⟨plan₁, hplan₁, htext⟩ := Option.map_eq_some_iff.mp hcached
  obtain ⟨plan₂, hplan₂, hkeys⟩ := Option.map_eq_some_iff.mp
    (hsame.symm.trans (congrArg (Option.map (·.cacheKey)) hplan₁))
  cases hkey₁ : plan₁.cacheKey with
  | uncacheable => simp [hkey₁, CacheKey.text?] at htext
  | key nodes =>
    exact ⟨plan₁, plan₂, nodes, Except.toOption_eq_some_iff.mp hplan₁,
      Except.toOption_eq_some_iff.mp hplan₂, hkey₁, hkeys.trans hkey₁⟩

/-- A prefix that is written out where it is the default, the value of an interpolation, and a type
that is spelled like another one make no difference in the key. -/
theorem Planner.canonical_of_cacheKey_eq_prefixed :
    ∃ plan₁ plan₂ nodes,
      blog.plan ((Query.likedPosts 18 .integer).fromPrefix "blog") .all
        Dialect.postgres.capabilities = .ok plan₁ ∧ plan₁.cacheKey = .key nodes ∧
      blog.plan (Query.likedPosts 99 (.custom "integer")) .all
        Dialect.mysql.capabilities = .ok plan₂ ∧ plan₂.cacheKey = .key nodes ∧
      plan₁.query.canonical
          (Clauses.literalForm (blog.context .all Dialect.postgres.capabilities)) =
        plan₂.query.canonical
          (Clauses.literalForm (blog.context .all Dialect.mysql.capabilities)) := by
  have hcached : (blog.plan ((Query.likedPosts 18 .integer).fromPrefix "blog") .all
      Dialect.postgres.capabilities).toOption.map (·.cacheKey.text?.isSome) = some true := by
    decide +kernel
  have hsame : (blog.plan ((Query.likedPosts 18 .integer).fromPrefix "blog") .all
      Dialect.postgres.capabilities).toOption.map (·.cacheKey) =
        (blog.plan (Query.likedPosts 99 (.custom "integer")) .all
          Dialect.mysql.capabilities).toOption.map (·.cacheKey) := by
    decide +kernel
  obtain ⟨plan₁, plan₂, nodes, h₁, h₂, hkey₁, hkey₂⟩ := plans_of_cacheKey_eq hcached hsame
  exact ⟨plan₁, plan₂, nodes, h₁, hkey₁, h₂, hkey₂,
    (Planner.canonical_of_cacheKey_eq _ _ _ .all .all _ _ plan₁ plan₂ nodes (by decide +kernel)
      (by decide +kernel) h₁ h₂ hkey₁ hkey₂).2⟩

end QueryPlanner
