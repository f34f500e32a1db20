import QueryPlanner.Proofs.Query.Exprs
import QueryPlanner.Plan.Error

/-!
# The items of a query level

What a level holds is its items: expressions and nested queries, each in the clause it stands in
and, within a clause, in reading order.  A join's source stands before its condition.  The level is
its frame together with its items.

* `Clauses.items` — the items of a clause
* `Clauses.edit` — the level with every item replaced
* `Clauses.items_edit`, `Clauses.frame_edit`, `Clauses.ext_items` — the laws of the two
-/

namespace QueryPlanner

open HasExprs

variable {σ τ υ : Type}

/-- Something that a clause holds. -/
inductive Item (σ : Type) where
  | expr (e : Expr)
  | nested (query : σ)

namespace Item

/-- An item replaced. -/
def map (f : Expr → Expr) (g : σ → τ) : Item σ → Item τ
  | expr e => expr (f e)
  | nested query => nested (g query)

/-- A property of the expression or of the query that an item is. -/
def Holds (P : Expr → Prop) (R : σ → Prop) : Item σ → Prop
  | expr e => P e
  | nested query => R query

/-- The items that some syntax without nested queries holds. -/
def ofExprs {X : Type} [HasExprs X] (x : X) : List (Item σ) := (exprs x).map expr

theorem ofExprs_rewrite {X : Type} [HasExprs X] (f : Expr → Expr) (g : σ → τ) (x : X) :
    ofExprs (rewrite f x) = (ofExprs x).map (map f g) := by
  simp only [ofExprs, exprs_rewrite, List.map_map]
  rfl

theorem forall_ofExprs {X : Type} [HasExprs X] {x : X} {P : Expr → Prop} {R : σ → Prop} :
    (∀ i ∈ (ofExprs x : List (Item σ)), i.Holds P R) ↔ ∀ e ∈ exprs x, P e :=
  List.forall_mem_map

theorem exprs_eq_of_ofExprs_eq {X : Type} [HasExprs X] {x y : X}
    (h : (ofExprs x : List (Item σ)) = ofExprs y) : exprs x = exprs y :=
  (List.map_inj_right fun _ _ => Item.expr.inj).mp h

/-- Syntax without nested queries is its frame and its items. -/
theorem ext_ofExprs {X : Type} [HasExprs X] {x y : X} (hs : frame x = frame y)
    (h : (ofExprs x : List (Item σ)) = ofExprs y) : x = y :=
  ext hs (exprs_eq_of_ofExprs_eq h)

end Item

/-! ### Entries that nest queries -/

/-- The items of a source. -/
def Source.items : Source σ → List (Item σ)
  | table _ | schema .. => []
  | subquery query => [.nested query]
  | fragment parts => Item.ofExprs parts

/-- A source with every item replaced. -/
def Source.edit (f : Expr → Expr) (g : σ → τ) : Source σ → Source τ
  | table name => table name
  | schema name type => schema name type
  | subquery query => subquery (g query)
  | fragment parts => fragment (rewrite f parts)

/-- The `from` clause with every item replaced. -/
def FromClause.edit (f : Expr → Expr) (g : σ → τ) (c : FromClause σ) : FromClause τ :=
  ⟨c.source.edit f g, c.tablePrefix⟩

/-- The items of a join. -/
def Join.items (j : Join σ) : List (Item σ) :=
  j.source.toList.flatMap Source.items ++ Item.ofExprs j.on

/-- A join with every item replaced. -/
def Join.edit (f : Expr → Expr) (g : σ → τ) (j : Join σ) : Join τ where
  qualifier := j.qualifier
  source := j.source.map (Source.edit f g)
  on := rewrite f j.on
  association := j.association
  tablePrefix := j.tablePrefix
  ix := j.ix

/-- The items of the body of a common table expression. -/
def CteBody.items : CteBody σ → List (Item σ)
  | query q => [.nested q]
  | fragment parts => Item.ofExprs parts

/-- The body of a common table expression with every item replaced. -/
def CteBody.edit (f : Expr → Expr) (g : σ → τ) : CteBody σ → CteBody τ
  | query q => query (g q)
  | fragment parts => fragment (rewrite f parts)

/-- A common table expression with every item replaced. -/
def Cte.edit (f : Expr → Expr) (g : σ → τ) (c : Cte σ) : Cte τ :=
  ⟨c.name, c.body.edit f g, c.recursive⟩

namespace Clauses

/-- The items of a clause, in reading order. -/
def items (c : Clauses σ) : Clause → List (Item σ)
  | .withCte => c.ctes.flatMap (·.body.items)
  | .distinct => Item.ofExprs c.distinct
  | .select => Item.ofExprs c.select
  | .fromSource => c.root.toList.flatMap (·.source.items)
  | .join => c.joins.flatMap Join.items
  | .filter => Item.ofExprs c.wheres
  | .groupBy => Item.ofExprs c.groupBys
  | .having => Item.ofExprs c.havings
  | .windows => Item.ofExprs c.windows
  | .combination => c.combinations.map fun combined => .nested combined.query
  | .orderBy => Item.ofExprs c.orderBys
  | .limit => Item.ofExprs c.limit
  | .offset => Item.ofExprs c.offset
  | .lock => Item.ofExprs c.lock
  | .update => Item.ofExprs c.updates
  | .preload => []

/-- The level with every item replaced. -/
def edit (f : Expr → Expr) (g : σ → τ) (c : Clauses σ) : Clauses τ where
  root := c.root.map (FromClause.edit f g)
  joins := c.joins.map (Join.edit f g)
  wheres := rewrite f c.wheres
  groupBys := rewrite f c.groupBys
  havings := rewrite f c.havings
  orderBys := rewrite f c.orderBys
  select := rewrite f c.select
  distinct := rewrite f c.distinct
  limit := rewrite f c.limit
  offset := rewrite f c.offset
  updates := rewrite f c.updates
  windows := rewrite f c.windows
  combinations := c.combinations.map (Combination.map g)
  ctes := c.ctes.map (Cte.edit f g)
  preloads := c.preloads
  lock := rewrite f c.lock
  queryPrefix := c.queryPrefix
  sources := c.sources

/-- What remains of a level when its items are forgotten. -/
def frame (c : Clauses σ) : Clauses Unit := c.edit (fun _ => Expr.hole) fun _ => ()

end Clauses

/-! ### What a replacement does to the items -/

theorem Source.items_edit (f : Expr → Expr) (g : σ → τ) (s : Source σ) :
    (s.edit f g).items = s.items.map (Item.map f g) := by
  cases s with
  | fragment parts => exact Item.ofExprs_rewrite f g parts
  | _ => rfl

theorem Join.items_edit (f : Expr → Expr) (g : σ → τ) (j : Join σ) :
    (j.edit f g).items = j.items.map (Item.map f g) := by
  obtain ⟨_, source, on, _⟩ := j
  simp only [items, edit, List.map_append, Item.ofExprs_rewrite f g]
  cases source <;> simp [Source.items_edit]

theorem CteBody.items_edit (f : Expr → Expr) (g : σ → τ) (b : CteBody σ) :
    (b.edit f g).items = b.items.map (Item.map f g) := by
  cases b with
  | query q => rfl
  | fragment parts => exact Item.ofExprs_rewrite f g parts

/-- Replacing the items of a level replaces them in every clause. -/
theorem Clauses.items_edit (f : Expr → Expr) (g : σ → τ) (c : Clauses σ) (clause : Clause) :
    (c.edit f g).items clause = (c.items clause).map (Item.map f g) := by
  cases clause with
  | withCte =>
    simp only [items, edit, List.flatMap_map, List.map_flatMap, Cte.edit, CteBody.items_edit]
  | fromSource =>
    simp only [items, edit]
    cases c.root <;> simp [FromClause.edit, Source.items_edit]
  | join => simp only [items, edit, List.flatMap_map, List.map_flatMap, Join.items_edit]
  | combination =>
    simp only [items, edit, List.map_map]
    rfl
  | preload => rfl
  | _ => exact Item.ofExprs_rewrite f g _

/-! ### One replacement after another -/

theorem Source.edit_edit (f' f : Expr → Expr) (g' : τ → υ) (g : σ → τ) (s : Source σ) :
    (s.edit f g).edit f' g' = s.edit (f' ∘ f) (g' ∘ g) := by
  cases s <;> simp [edit, rewrite_rewrite]

theorem FromClause.edit_edit (f' f : Expr → Expr) (g' : τ → υ) (g : σ → τ) (c : FromClause σ) :
    (c.edit f g).edit f' g' = c.edit (f' ∘ f) (g' ∘ g) :=
  congrArg (FromClause.mk · c.tablePrefix) (Source.edit_edit f' f g' g c.source)

theorem Join.edit_edit (f' f : Expr → Expr) (g' : τ → υ) (g : σ → τ) (j : Join σ) :
    (j.edit f g).edit f' g' = j.edit (f' ∘ f) (g' ∘ g) := by
  obtain ⟨_, source, on, _⟩ := j
  cases source <;> simp [edit, rewrite_rewrite, Source.edit_edit]

theorem Cte.edit_edit (f' f : Expr → Expr) (g' : τ → υ) (g : σ → τ) (c : Cte σ) :
    (c.edit f g).edit f' g' = c.edit (f' ∘ f) (g' ∘ g) := by
  obtain ⟨_, body, _⟩ := c
  cases body <;> simp [edit, CteBody.edit, rewrite_rewrite]

theorem Clauses.edit_edit (f' f : Expr → Expr) (g' : τ → υ) (g : σ → τ) (c : Clauses σ) :
    (c.edit f g).edit f' g' = c.edit (f' ∘ f) (g' ∘ g) := by
  simp [edit, rewrite_rewrite, Function.comp_def, FromClause.edit_edit, Join.edit_edit,
    Cte.edit_edit, Combination.map]

/-- Replacing the items of a level keeps its frame. -/
@[simp]
theorem Clauses.frame_edit (f : Expr → Expr) (g : σ → τ) (c : Clauses σ) :
    (c.edit f g).frame = c.frame :=
  edit_edit _ f _ g c

/-! ### The frame and the items determine the level -/

theorem Source.length_items {s : Source σ} {t : Source τ}
    (h : s.edit (fun _ => Expr.hole) (fun _ => ()) = t.edit (fun _ => Expr.hole) fun _ => ()) :
    s.items.length = t.items.length := by
  have hlen := congrArg (fun u => u.items.length) h
  simpa only [items_edit, List.length_map] using hlen

theorem Source.ext_items {s t : Source σ}
    (hs : s.edit (fun _ => Expr.hole) (fun _ => ()) = t.edit (fun _ => Expr.hole) fun _ => ())
    (hi : s.items = t.items) : s = t := by
  cases s <;> cases t <;> simp only [edit, reduceCtorEq] at hs
  case fragment.fragment => exact congrArg fragment (Item.ext_ofExprs (fragment.inj hs) hi)
  all_goals simp_all [items]

theorem FromClause.ext_items {c d : FromClause σ}
    (hs : c.edit (fun _ => Expr.hole) (fun _ => ()) = d.edit (fun _ => Expr.hole) fun _ => ())
    (hi : c.source.items = d.source.items) : c = d := by
  obtain ⟨source, tablePrefix⟩ := c
  obtain ⟨source', tablePrefix'⟩ := d
  simp only [edit, FromClause.mk.injEq] at hs ⊢
  exact ⟨Source.ext_items hs.1 hi, hs.2⟩

theorem Join.length_items {i j : Join σ}
    (h : i.edit (fun _ => Expr.hole) (fun _ => ()) = j.edit (fun _ => Expr.hole) fun _ => ()) :
    i.items.length = j.items.length := by
  have hlen := congrArg (fun u => u.items.length) h
  simpa only [items_edit, List.length_map] using hlen

theorem Join.ext_items {i j : Join σ}
    (hs : i.edit (fun _ => Expr.hole) (fun _ => ()) = j.edit (fun _ => Expr.hole) fun _ => ())
    (hi : i.items = j.items) : i = j := by
  obtain ⟨qualifier, source, on, association, tablePrefix, ix⟩ := i
  obtain ⟨qualifier', source', on', association', tablePrefix', ix'⟩ := j
  simp only [edit, Join.mk.injEq] at hs ⊢
  obtain ⟨hq, hsource, hon, hrest⟩ := hs
  have hlen : (source.toList.flatMap Source.items).length
      = (source'.toList.flatMap Source.items).length := by
    cases source <;> cases source' <;>
      simp_all only [Option.map_none, Option.map_some, reduceCtorEq, Option.some.injEq]
    simpa using Source.length_items hsource
  obtain ⟨hitems, hons⟩ := List.append_inj hi hlen
  refine ⟨hq, ?_, Item.ext_ofExprs hon hons, hrest⟩
  cases source <;> cases source' <;>
    simp only [Option.map_none, Option.map_some, reduceCtorEq, Option.some.injEq] at hsource ⊢
  exact Source.ext_items hsource (by simpa using hitems)

theorem CteBody.length_items {b d : CteBody σ}
    (h : b.edit (fun _ => Expr.hole) (fun _ => ()) = d.edit (fun _ => Expr.hole) fun _ => ()) :
    b.items.length = d.items.length := by
  have hlen := congrArg (fun u => u.items.length) h
  simpa only [items_edit, List.length_map] using hlen

theorem CteBody.ext_items {b d : CteBody σ}
    (hs : b.edit (fun _ => Expr.hole) (fun _ => ()) = d.edit (fun _ => Expr.hole) fun _ => ())
    (hi : b.items = d.items) : b = d := by
  cases b <;> cases d <;> simp only [edit, reduceCtorEq] at hs
  · simp_all [items]
  · exact congrArg fragment (Item.ext_ofExprs (fragment.inj hs) hi)

theorem Cte.ext_items {c d : Cte σ}
    (hs : c.edit (fun _ => Expr.hole) (fun _ => ()) = d.edit (fun _ => Expr.hole) fun _ => ())
    (hi : c.body.items = d.body.items) : c = d := by
  obtain ⟨name, body, recursive⟩ := c
  obtain ⟨name', body', recursive'⟩ := d
  simp only [edit, Cte.mk.injEq] at hs ⊢
  exact ⟨hs.1, CteBody.ext_items hs.2.1 hi, hs.2.2⟩

/-- **A level is its frame and its items.** -/
theorem Clauses.ext_items {c d : Clauses σ} (hs : c.frame = d.frame)
    (hi : ∀ clause, c.items clause = d.items clause) : c = d := by
  simp only [frame, edit, Clauses.mk.injEq] at hs
  obtain ⟨hroot, hjoins, hwheres, hgroupBys, hhavings, horderBys, hselect, hdistinct, hlimit,
    hoffset, hupdates, hwindows, hcombinations, hctes, hrest⟩ := hs
  obtain ⟨hpreloads, hlock, hpre, hsources⟩ := hrest
  have hroots : c.root = d.root := by
    have hitems := hi .fromSource
    simp only [items] at hitems
    revert hroot hitems
    cases c.root <;> cases d.root <;> intro hroot hitems <;>
      simp only [Option.map_none, Option.map_some, reduceCtorEq, Option.some.injEq] at hroot ⊢
    exact FromClause.ext_items hroot (by simpa using hitems)
  have hcombined : c.combinations = d.combinations := by
    refine List.eq_of_map_eq_of_flatMap_eq (d := fun x => [x.query]) (fun _ _ _ => rfl)
      hcombinations ?_ ?_
    · simp only [← List.map_eq_flatMap]
      have h := hi .combination
      simp only [items] at h
      refine (List.map_inj_right fun _ _ => Item.nested.inj).mp ?_
      rw [List.map_map, List.map_map]
      exact h
    · rintro ⟨op, q⟩ - ⟨op', q'⟩ hop hq
      simp_all [Combination.map]
  obtain ⟨⟩ := c
  obtain ⟨⟩ := d
  simp only [Clauses.mk.injEq]
  refine ⟨hroots, ?_, Item.ext_ofExprs hwheres (hi .filter),
    Item.ext_ofExprs hgroupBys (hi .groupBy), Item.ext_ofExprs hhavings (hi .having),
    Item.ext_ofExprs horderBys (hi .orderBy), Item.ext_ofExprs hselect (hi .select),
    Item.ext_ofExprs hdistinct (hi .distinct), Item.ext_ofExprs hlimit (hi .limit),
    Item.ext_ofExprs hoffset (hi .offset), Item.ext_ofExprs hupdates (hi .update),
    Item.ext_ofExprs hwindows (hi .windows), hcombined, ?_, hpreloads,
    Item.ext_ofExprs hlock (hi .lock), hpre, hsources⟩
  · exact List.eq_of_map_eq_of_flatMap_eq (fun _ _ => Join.length_items) hjoins (hi .join)
      fun _ _ _ => Join.ext_items
  · exact List.eq_of_map_eq_of_flatMap_eq
      (fun _ _ h => CteBody.length_items (congrArg Cte.body h)) hctes (hi .withCte)
      fun _ _ _ => Cte.ext_items

/-- Replacements that agree on the items of a level agree. -/
theorem Clauses.edit_congr {c : Clauses σ} {f f' : Expr → Expr} {g g' : σ → τ}
    (h : ∀ clause, ∀ i ∈ c.items clause, i.map f g = i.map f' g') :
    c.edit f g = c.edit f' g' := by
  apply Clauses.ext_items
  · rw [frame_edit, frame_edit]
  · intro clause
    rw [items_edit, items_edit, List.map_congr_left (h clause)]

theorem Clauses.edit_id (c : Clauses σ) : c.edit id id = c := by
  apply Clauses.ext_items
  · rw [frame_edit]
  · intro clause
    have hid : (Item.map id id : Item σ → Item σ) = id := funext fun i => by cases i <;> rfl
    rw [items_edit, hid, List.map_id]

end QueryPlanner
