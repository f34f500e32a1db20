import QueryPlanner.Proofs.Normal.Placeholders
import QueryPlanner.Proofs.Normal.Replanned

/-!
# A literal is stored as its interpolation is

A value that a query compares with a stored field of a built-in type may be written out or
interpolated.  If the query is planned and normalized with the value written out, it is planned with
the value interpolated as well, and the parameter holds just what normalization makes of the
literal.

* `Query.at?` — the expression at an address
* `Query.Planned.normal_expr`, `Query.Planned.normal_inner` — the normal form, place by place
* `Query.Interpolated.values` — parameters hold what the literals become
* `Planner.prepare_literals` — the query with literals interpolated is planned, with these values
-/

namespace QueryPlanner

open Binder HasExprs

variable {ctx : Context} {sources : List BoundSource} {ps qs ps' qs' : List BoundParameter}

/-! ### Addresses -/

/-- Where an expression is in a query: an item of a clause and a place in it, here or in a nested
query. -/
inductive Address where
  | expr (clause : Clause) (ix : Nat) (path : List Nat)
  | nested (clause : Clause) (ix : Nat) (rest : Address)
  deriving Repr, DecidableEq

/-- The expression at an address. -/
def Query.at? (q : Query) : Address → Option Expr
  | .expr clause ix path => match (q.clauses.items clause)[ix]? with
    | some (.expr e) => e.at? path
    | _ => none
  | .nested clause ix rest => match (q.clauses.items clause)[ix]? with
    | some (.nested inner) => inner.at? rest
    | _ => none

namespace Query

variable {c : Clauses Query} {clause : Clause} {ix : Nat} {x : Expr}

theorem at?_expr {path : List Nat} : at? ⟨c⟩ (.expr clause ix path) = some x ↔
    ∃ e, (c.items clause)[ix]? = some (.expr e) ∧ e.at? path = some x := by
  rw [at?]
  cases hitem : (c.items clause)[ix]? with
  | none => simp
  | some item => cases item <;> simp

theorem at?_nested {rest : Address} : at? ⟨c⟩ (.nested clause ix rest) = some x ↔
    ∃ q, (c.items clause)[ix]? = some (.nested q) ∧ q.at? rest = some x := by
  rw [at?]
  cases hitem : (c.items clause)[ix]? with
  | none => simp
  | some item => cases item <;> simp

/-- An expression of an expanded query is one of the level that is planned. -/
theorem at?_expanded_expr {b : Bindings Query} {path : List Nat} (hb : c.resolve ctx = .ok b)
    (h : (expanded ⟨c⟩ ctx).at? (.expr clause ix path) = some x) :
    ∃ e, ((c.prepared b).items clause)[ix]? = some (.expr e) ∧ e.at? path = some x := by
  rw [expanded_mk hb, at?_expr, Clauses.items_edit, List.getElem?_map] at h
  obtain ⟨e, he, hx⟩ := h
  obtain ⟨item, hitem, heq⟩ := Option.map_eq_some_iff.mp he
  cases item with
  | nested q => cases heq
  | expr e' =>
    obtain rfl : e' = e := Item.expr.inj heq
    exact ⟨e', hitem, hx⟩

theorem at?_expanded_nested {b : Bindings Query} {rest : Address} (hb : c.resolve ctx = .ok b)
    (h : (expanded ⟨c⟩ ctx).at? (.nested clause ix rest) = some x) :
    ∃ q, ((c.prepared b).items clause)[ix]? = some (.nested q) ∧
      (q.expanded (ctx.nested c.queryPrefix)).at? rest = some x := by
  rw [expanded_mk hb, at?_nested, Clauses.items_edit, List.getElem?_map] at h
  obtain ⟨q, hq, hx⟩ := h
  obtain ⟨item, hitem, heq⟩ := Option.map_eq_some_iff.mp hq
  cases item with
  | expr e => cases heq
  | nested q' =>
    obtain rfl : q'.expanded (ctx.nested c.queryPrefix) = q := Item.nested.inj heq
    exact ⟨q', hitem, hx⟩

end Query

/-! ### Items of the normal form -/

namespace Clauses

variable {c : Clauses Query} {clause : Clause} {i : Nat}

/-- The selection of a planned level comes first in its normal form. -/
theorem items_normal_select (hselect : ∀ s, c.select = some s → s.fields = []) {x : Item Query}
    (hx : (c.items .select)[i]? = some x) :
    ((c.normal ctx).items .select)[i]? = some (x.map (c.passed ctx) id) := by
  cases hs : c.select with
  | none => simp [items, Item.ofExprs, exprs, hs] at hx
  | some s =>
    obtain ⟨e, fields⟩ := s
    obtain rfl : fields = [] := hselect _ hs
    have hselected : (c.dumped ctx).selected = c.passed ctx e := by
      simp [selected, dumped, edit, rewrite, hs]
    have hitems : c.items .select = [.expr e] := by simp [items, Item.ofExprs, exprs, hs]
    rw [hitems, List.getElem?_singleton] at hx
    obtain ⟨rfl, rfl⟩ : i = 0 ∧ .expr e = x := by simpa using hx
    cases hop : ctx.operation <;>
      simp [items, normal, normalSelect, hop, hselected, Item.ofExprs, exprs, hs, rewrite, Item.map]

/-- What is assigned passes as it is, unless it is a literal. -/
theorem items_normal_update {x : Item Query} (hx : (c.items .update)[i]? = some x) :
    ∃ y, ((c.normal ctx).items .update)[i]? = some y ∧
      (y = x.map (c.passed ctx) id ∨ ∃ v, x = .expr (.literal v)) := by
  have hassigned : ∀ type? e, c.assigned ctx type? e = c.passed ctx e ∨ ∃ v, e = .literal v := by
    intro type? e
    unfold assigned
    split
    · exact .inr ⟨_, rfl⟩
    · exact .inl rfl
  have hexprs : List.Forall₂ (fun e e' => e' = c.passed ctx e ∨ ∃ v, e = .literal v)
      (exprs c.updates) (exprs (c.normal ctx).updates) := by
    refine List.rel_flatMap (List.forall₂_map_right_iff.mpr (List.forall₂_same.mpr ?_))
      fun _ _ h => h
    intro u _
    refine List.rel_flatMap (List.forall₂_map_right_iff.mpr (List.forall₂_same.mpr ?_))
      fun _ _ h => h
    exact fun field _ => .cons (hassigned _ field.2) .nil
  rw [items, Item.ofExprs, List.getElem?_map] at hx
  obtain ⟨e, he, rfl⟩ := Option.map_eq_some_iff.mp hx
  obtain ⟨e', he', h⟩ := List.exists_getElem?_of_forall₂ hexprs he
  refine ⟨.expr e', ?_, h.imp (congrArg Item.expr) (Exists.imp fun _ hv => congrArg Item.expr hv)⟩
  rw [items, Item.ofExprs, List.getElem?_map, he']
  rfl

/-- An item of a level is in its normal form what it passes as, in its place, but for fragments in
place of common table expressions and for literals that are assigned. -/
theorem items_normal (ctx : Context) (hselect : ∀ s, c.select = some s → s.fields = [])
    {x : Item Query} (hx : (c.items clause)[i]? = some x) :
    ∃ y, ((c.normal ctx).items clause)[i]? = some y ∧
      (y = x.map (c.passed ctx) id ∨ clause = .withCte ∧ y = x ∨ ∃ v, x = .expr (.literal v)) := by
  by_cases hclause : clause ≠ .withCte ∧ clause ≠ .select ∧ clause ≠ .update
  · refine ⟨_, ?_, .inl rfl⟩
    rw [items_normal_eq hclause, items_edit, List.getElem?_map, hx]
    rfl
  · cases clause with
    | withCte => exact ⟨x, hx, .inr (.inl ⟨rfl, rfl⟩)⟩
    | select => exact ⟨_, items_normal_select hselect hx, .inl rfl⟩
    | update =>
      obtain ⟨y, hy, h⟩ := items_normal_update hx
      exact ⟨y, hy, h.imp_right .inr⟩
    | _ => simp at hclause

end Clauses

namespace Query

variable {c : Clauses Query} {clause : Clause} {i : Nat}

/-- Every item of a planned query has its place in the normal form. -/
theorem Planned.normal_item (ctx : Context) (h : Planned ⟨c⟩) {x : Item Query}
    (hx : (c.items clause)[i]? = some x) :
    ∃ y, ((normal ⟨c⟩ ctx).clauses.items clause)[i]? = some y ∧
      (y = x.map (c.passed ctx) (fun q => q.normal (ctx.nested c.queryPrefix)) ∨
        clause = .withCte ∧ y = x.map id (fun q => q.normal (ctx.nested c.queryPrefix)) ∨
        ∃ v, x = .expr (.literal v)) := by
  obtain @⟨_, level, -⟩ := h
  have hselect : ∀ s, (c.nestedNormal ctx).select = some s → s.fields = [] := by
    rw [Clauses.nestedNormal, ← Clauses.map_eq_edit]
    exact level.select
  have hx' : ((c.nestedNormal ctx).items clause)[i]? =
      some (x.map id fun q => q.normal (ctx.nested c.queryPrefix)) := by
    rw [Clauses.nestedNormal, Clauses.items_edit, List.getElem?_map, hx]
    rfl
  obtain ⟨y, hy, h⟩ := Clauses.items_normal ctx hselect hx'
  rw [normal_mk]
  refine ⟨y, hy, ?_⟩
  cases x with
  | expr e => exact h
  | nested q =>
    rcases h with rfl | ⟨hclause, rfl⟩ | ⟨v, hv⟩
    · exact .inl rfl
    · exact .inl rfl
    · cases hv

/-- Every nested query of a planned one is in its normal form there. -/
theorem Planned.normal_inner (ctx : Context) (h : Planned ⟨c⟩) {u : Query}
    (hu : (c.items clause)[i]? = some (.nested u)) :
    ((normal ⟨c⟩ ctx).clauses.items clause)[i]? =
      some (.nested (u.normal (ctx.nested c.queryPrefix))) := by
  obtain ⟨y, hy, rfl | ⟨-, rfl⟩ | ⟨v, hv⟩⟩ := h.normal_item ctx hu
  · exact hy
  · exact hy
  · cases hv

/-- Every expression that is looked at is there as it passes, unless it is a literal. -/
theorem Planned.normal_expr (ctx : Context) (h : Planned ⟨c⟩) {a : Expr}
    (hclause : clause ≠ .withCte) (hliteral : ∀ v, a ≠ .literal v)
    (ha : (c.items clause)[i]? = some (.expr a)) :
    ((normal ⟨c⟩ ctx).clauses.items clause)[i]? = some (.expr (c.passed ctx a)) := by
  obtain ⟨y, hy, rfl | ⟨hcte, -⟩ | ⟨v, hv⟩⟩ := h.normal_item ctx ha
  · exact hy
  · exact absurd hcte hclause
  · exact absurd (Item.expr.inj hv) (hliteral v)

end Query

/-! ### Values -/

namespace Expr

/-- Nothing is interpolated in place of an expression as a whole. -/
theorem Interpolated.path_ne_nil {e e' : Expr} {path : List Nat} {v : Value}
    (h : e.Interpolated ctx sources e') (hliteral : e.at? path = some (.literal v))
    (hpin : e'.at? path = some (.pin v)) : path ≠ [] := by
  rintro rfl
  obtain rfl : e = .literal v := Option.some.inj hliteral
  obtain rfl : e' = .pin v := Option.some.inj hpin
  cases congrArg Expr.node h.eq_pin

/-- A literal stays a literal when it is put in a stored form. -/
theorem children_settle_literal (form : LiteralForm) (v : Value) (opposite : Opposite) :
    ((Expr.literal v).settle form opposite).node.children = [] := by
  rw [settle_mk]
  cases opposite <;> rfl

end Expr

namespace Query

/-- A literal of an expression comes out as the parameter for it holds it. -/
theorem values_expr {c : Clauses Query} {clause : Clause} {i : Nat} {path : List Nat}
    {e e' a a' : Expr} {type type' : FieldType} {v : Value}
    (haccepted : Everywhere Clauses.Accepted ctx ⟨c⟩) (hplanned : Planned ⟨c⟩)
    (h : clause.Interpolates ctx c.sources e e') (ha : (c.items clause)[i]? = some (.expr a))
    (hread : (ctx.place c.sources clause).Reads e type ps a qs)
    (hread' : (ctx.place c.sources clause).Reads e' type' ps' a' qs')
    (hliteral : e.at? path = some (.literal v)) (hpin : e'.at? path = some (.pin v)) :
    ∃ d k p, (normal ⟨c⟩ ctx).at? (.expr clause i path) = some (.literal d) ∧
      a'.at? path = some (.param k) ∧ qs'[k]? = some p ∧ p.value = d := by
  have hclause : clause ≠ .withCte := by
    intro hcte
    rw [h.1 hcte, hliteral] at hpin
    cases congrArg (Option.map Expr.node) hpin
  obtain ⟨d, k, p, hd, hk, hp, hvalue⟩ := References.interpolated_values
    (r := c.references ctx .select "") h.2 .nothing hread hread' (haccepted.passes hclause ha)
    hliteral hpin
  have hplain : ∀ w, a ≠ .literal w := by
    rintro w rfl
    refine h.2.path_ne_nil hliteral hpin ?_
    exact (Expr.eq_of_at?_leaf (Expr.children_settle_literal _ w .nothing) hd).1
  exact ⟨d, k, p, at?_expr.mpr ⟨_, hplanned.normal_expr ctx hclause hplain ha, hd⟩, hk, hp, hvalue⟩

/-- **A parameter holds what normalization makes of the literal.**  Take a query that is planned and
accepted, and a plan of it with literals interpolated.  At the address of each of these literals the
normal form has a literal, and the plan has a placeholder for a parameter with its value. -/
theorem Interpolated.values (q : Query) : ∀ (ctx : Context) (q' : Query) ps t qs ps' t' qs',
    Interpolated ctx q q' → (q.plan ctx).Yields ps t qs → t.Everywhere Clauses.Accepted ctx →
      (q'.plan ctx).Yields ps' t' qs' → ∀ address v,
        (q.expanded ctx).at? address = some (.literal v) →
        (q'.expanded ctx).at? address = some (.pin v) →
          ∃ d k p, (t.normal ctx).at? address = some (.literal d) ∧
            t'.at? address = some (.param k) ∧ qs'[k]? = some p ∧ p.value = d := by
  refine Query.induction_items (P := fun q => ∀ (ctx : Context) (q' : Query) ps t qs ps' t' qs',
    Interpolated ctx q q' → (q.plan ctx).Yields ps t qs → t.Everywhere Clauses.Accepted ctx →
      (q'.plan ctx).Yields ps' t' qs' → ∀ address v,
        (q.expanded ctx).at? address = some (.literal v) →
        (q'.expanded ctx).at? address = some (.pin v) →
          ∃ d k p, (t.normal ctx).at? address = some (.literal d) ∧
            t'.at? address = some (.param k) ∧ qs'[k]? = some p ∧ p.value = d) ?_ q
  intro c ih ctx q' ps t qs ps' t' qs' h hplan haccepted hplan' address v hliteral hpin
  obtain ⟨d⟩ := q'
  obtain ⟨-, b, hb, -⟩ := yields_plan_iff.mp hplan
  obtain ⟨b', hb', hsources, hrelated⟩ := h.prepared hb
  obtain ⟨hbound, hqueryPrefix⟩ := plan_frame hplan hb
  have hplanned := plan_planned _ _ _ _ _ hplan
  obtain ⟨n⟩ := t
  obtain ⟨n'⟩ := t'
  cases address with
  | expr clause ix path =>
    obtain ⟨e, he, hliteral⟩ := at?_expanded_expr hb hliteral
    obtain ⟨e', he', hpin⟩ := at?_expanded_expr hb' hpin
    obtain ⟨y, hy, hinterpolates⟩ := List.exists_getElem?_of_forall₂ (hrelated.items clause) he
    obtain rfl := Option.some.inj (hy.symm.trans he')
    obtain ⟨type, rs, a, ts, hread, -, ha⟩ := plan_expr hplan hb he
    obtain ⟨type', rs', a', ts', hread', hkept, ha'⟩ := plan_expr hplan' hb' he'
    rw [hsources, ← hbound] at hread'
    rw [← hbound] at hread
    have hinterpolates' : clause.Interpolates ctx n.sources e e' := hbound ▸ hinterpolates
    obtain ⟨d, k, p, hd, hk, hp, hvalue⟩ := values_expr haccepted hplanned hinterpolates' ha hread
      hread' hliteral hpin
    exact ⟨d, k, p, hd, at?_expr.mpr ⟨a', ha', hk⟩, List.getElem?_of_prefix hkept hp, hvalue⟩
  | nested clause ix rest =>
    obtain ⟨inner, hinner, hliteral⟩ := at?_expanded_nested hb hliteral
    obtain ⟨inner', hinner', hpin⟩ := at?_expanded_nested hb' hpin
    obtain ⟨y, hy, hinterpolated⟩ := List.exists_getElem?_of_forall₂ (hrelated.items clause) hinner
    obtain rfl := Option.some.inj (hy.symm.trans hinner')
    obtain ⟨rs, u, ts, hyields, -, hu⟩ := plan_inner hplan hb hinner
    obtain ⟨rs', u', ts', hyields', hkept, hu'⟩ := plan_inner hplan' hb' hinner'
    have hnormal := hplanned.normal_inner ctx hu
    have haccepted' := haccepted.inner hu
    rw [show n.queryPrefix = c.queryPrefix from hqueryPrefix] at hnormal haccepted'
    rw [h.queryPrefix] at hpin hyields'
    have hknown := Clauses.prepared_nested hb ih clause _ (List.mem_of_getElem? hinner)
    obtain ⟨d, k, p, hd, hk, hp, hvalue⟩ := hknown _ inner' rs u ts rs' u' ts' hinterpolated hyields
      haccepted' hyields' rest v hliteral hpin
    exact ⟨d, k, p, at?_nested.mpr ⟨_, hnormal, hd⟩, at?_nested.mpr ⟨u', hu', hk⟩,
      List.getElem?_of_prefix hkept hp, hvalue⟩

end Query

/-- **Interpolating a compared literal changes nothing that is stored.**  Take a query that is
planned and normalized, and what becomes of it when literals that it compares with stored fields of
built-in types, on any level, are interpolated.  It is planned as well.  At each address where it
has, written out, an interpolated value in place of a literal, normalization makes of the literal
the very value that the parameter holds. -/
theorem Planner.prepare_literals (p : Planner) (q q' : Query) (operation : Operation)
    (caps : Capabilities) (plan : Plan) (projection : Projection)
    (hprepare : p.prepare q operation caps = .ok (plan, projection))
    (hliterals : q.Interpolated (p.context operation caps) q') :
    ∃ plan', p.plan q' operation caps = .ok plan' ∧ ∀ address v,
      (q.expanded (p.context operation caps)).at? address = some (.literal v) →
      (q'.expanded (p.context operation caps)).at? address = some (.pin v) →
        ∃ stored k, plan.query.at? address = some (.literal stored) ∧
          plan'.query.at? address = some (.param k) ∧
          plan'.parameters[k]?.map (·.value) = some stored := by
  obtain ⟨t, qs, hplan, -, haccepted, hquery, -⟩ := prepare_cases hprepare
  obtain ⟨t', qs', hplan'⟩ := Query.Interpolated.total q _ q' _ t qs hliterals hplan haccepted []
  refine ⟨⟨t', qs', p.cacheKey (p.context operation caps) t', p.cache.fingerprint⟩,
    plan_iff.mpr ⟨hplan', rfl, rfl⟩, ?_⟩
  intro address v hliteral hpin
  obtain ⟨d, k, parameter, hd, hk, hparameter, hvalue⟩ := Query.Interpolated.values q _ q' _ t qs _
    t' qs' hliterals hplan haccepted hplan' address v hliteral hpin
  refine ⟨d, k, hquery ▸ hd, hk, ?_⟩
  rw [hparameter, Option.map_some, hvalue]

/-- Offers, each with its prices and its seller. -/
def Registry.offers : Registry :=
  empty.insertAll [((Schema.ofTable "Offer" "offers").field "prices" (.array .float)).field "seller"
    (.custom "binary_id")]

/-- Offers at given prices, but not of a given seller; `given` says how values are given. -/
def Query.offers (given : Value → Expr) : Query :=
  ((Query.ofSchema "offers" "Offer").filter
    ((Expr.field 0 "prices").eq (given (.list [.int 1, .int 2])))).filter
    ((given (.string "00000000-0000-0000-0000-00000000002a")).ne (.field 0 "seller"))

/-- Prices that are given as numbers, and a seller that is given as a text, are stored alike whether
they are interpolated or not. -/
theorem Planner.prepare_literals_offers :
    ∃ plan projection plan', (⟨.offers, .builtin, none, {}⟩ : Planner).prepare (.offers .literal)
        .all Dialect.postgres.capabilities = .ok (plan, projection) ∧
      (⟨.offers, .builtin, none, {}⟩ : Planner).plan (.offers .pin) .all
        Dialect.postgres.capabilities = .ok plan' ∧
      ∀ address ∈ [Address.expr .filter 0 [1], .expr .filter 1 [0]], ∃ stored k,
        plan.query.at? address = some (.literal stored) ∧
        plan'.query.at? address = some (.param k) ∧
        plan'.parameters[k]?.map (·.value) = some stored := by
  let planner : Planner := ⟨.offers, .builtin, none, {}⟩
  let ctx := planner.context .all Dialect.postgres.capabilities
  have hprepared : (planner.prepare (.offers .literal) .all
      Dialect.postgres.capabilities).toOption.isSome = true := by
    decide +kernel
  have htyped : ((Query.ofSchema "offers" "Offer").clauses.resolve ctx).toOption.map (fun b =>
      (ctx.typeAt? b.sources 0 "prices", ctx.typeAt? b.sources 0 "seller")) =
        some (some (some (.array .float)), some (some (.custom "binary_id"))) := by
    decide +kernel
  have htypes : ∀ b, (Query.ofSchema "offers" "Offer").clauses.resolve ctx = .ok b →
      ctx.typeAt? b.sources 0 "prices" = some (some (.array .float)) ∧
        ctx.typeAt? b.sources 0 "seller" = some (some (.custom "binary_id")) := by
    intro b hb
    rw [hb] at htyped
    exact Prod.mk.inj (Option.some.inj htyped)
  obtain ⟨⟨plan, projection⟩, hprepare⟩ := Option.isSome_iff_exists.mp hprepared
  have hok := Except.toOption_eq_some_iff.mp hprepare
  have hliterals : (Query.offers .literal).Interpolated ctx (.offers .pin) := by
    refine ((Query.Interpolated.refl _ ctx).filter fun b hb => ?_).filter fun b hb => ?_
    · exact .right rfl (htypes b hb).1 (.array .float) nofun
    · exact .left rfl (htypes b hb).2 (.binaryId rfl) nofun
  obtain ⟨plan', hplan', hstored⟩ := planner.prepare_literals _ _ _ _ plan projection hok hliterals
  refine ⟨plan, projection, plan', hok, hplan', ?_⟩
  simp only [List.forall_mem_cons, List.not_mem_nil, false_imp_iff, implies_true, and_true]
  exact ⟨hstored _ _ rfl rfl, hstored _ _ rfl rfl⟩

end QueryPlanner
