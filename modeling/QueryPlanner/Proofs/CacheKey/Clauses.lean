import QueryPlanner.Proofs.CacheKey.Expr
import QueryPlanner.Proofs.Query.Reading

/-!
# The key of a level is a code of it

Each clause of a level is written down entry by entry, under the name of the clause.  Keying a level
writes it down so, unless something in it has no key.

* `Clauses.written` — the entries of a clause written down
* `Clauses.code` — the level written down
* `Clauses.guarded_key` — a key of a level is its code
-/

namespace QueryPlanner

open HasExprs

variable {σ : Type}

/-! ### Codes of entries -/

section

variable (κ : Expr → KeyNode) (ν : σ → List KeyNode)

/-- A fragment of a clause written down. -/
def Part.codeAll (parts : List (Part Expr)) : KeyNode := encodeAll (parts.map (map κ))

/-- An ordering written down. -/
def Ordered.codeAll (items : List (Ordered Expr)) : KeyNode :=
  .list (items.map fun item => (item.map κ).encode)

/-- A source written down, given what it is bound to. -/
def Source.code (bound : Option BoundSource) : Source σ → KeyNode
  | .subquery query => .tagged "subquery" [.list (ν query)]
  | .fragment parts => Part.codeAll κ parts
  | .table name =>
    match bound with
    | some (.table name' type tablePrefix) =>
      .tagged "source" [.atom name', .ofOption type, .ofOption tablePrefix]
    | _ => .tagged "source" [.atom name, .null]
  | .schema name schemaName =>
    match bound with
    | some (.table name' type tablePrefix) =>
      .tagged "source" [.atom name', .ofOption type, .ofOption tablePrefix]
    | _ => .tagged "source" [.atom name, .atom schemaName]

/-- The body of a common table expression written down. -/
def CteBody.code : CteBody σ → KeyNode
  | .query nested => .list (ν nested)
  | .fragment parts => Part.codeAll κ parts

/-- A common table expression written down. -/
def Cte.code (cte : Cte σ) : KeyNode :=
  .tagged (if cte.recursive then "recursive_cte" else "cte") [.atom cte.name, cte.body.code κ ν]

/-- An update written down. -/
def Update.code (u : Update) : KeyNode :=
  .tagged u.op.name (u.fields.map fun field => .tagged field.1 [κ field.2])

/-- What makes rows distinct, written down. -/
def Distinct.code : Distinct → KeyNode
  | .all => .value (.bool true)
  | .on items => Ordered.codeAll κ items

/-- The condition of a join; a join without one joins on truth. -/
def Join.onOrTrue (j : Join σ) : Expr := j.on.getD (.literal (.bool true))

/-- A join written down, given the sources of its level. -/
def Join.code (sources : List BoundSource) (j : Join σ) : KeyNode :=
  .tagged j.qualifier.name [.ofBinding? j.ix,
    match j.source with
    | some source => source.code κ ν (j.ix.bind fun ix => sources[ix]?)
    | none => .null,
    κ j.onOrTrue]

/-- A condition written down. -/
def Condition.code (c : Condition) : KeyNode := .tagged c.connective.name [κ c.expr]

/-- A grouping written down. -/
def GroupBy.code : GroupBy → KeyNode
  | .exprs es => .list (es.map κ)
  | .pinned names => .list (names.map .atom)

/-- An ordering clause written down. -/
def OrderBy.code : OrderBy → KeyNode
  | .items ordered => Ordered.codeAll κ ordered
  | .pinned names => .list (names.map fun (direction, name) => .tagged direction.name [.atom name])

/-- A declared window written down. -/
def Window.declaredCode (declared : String × Window Expr) : KeyNode :=
  .tagged declared.1 [(declared.2.map κ).encode]

/-- A set operation written down. -/
def Combination.code (c : Combination σ) : KeyNode := .tagged c.op.name [.list (ν c.query)]

/-- A lock written down. -/
def Lock.code : Lock → KeyNode
  | .literal text => .atom text
  | .fragment parts => Part.codeAll κ parts

namespace Clauses

/-- The entries of a clause written down. -/
def written (c : Clauses σ) : Clause → List KeyNode
  | .withCte => c.ctes.map (Cte.code κ ν)
  | .update => c.updates.map (Update.code κ)
  | .distinct => c.distinct.toList.map (Distinct.code κ)
  | .select => c.select.toList.map fun select => κ select.expr
  | .fromSource => c.root.toList.map fun root => root.source.code κ ν c.sources.head?
  | .join => c.joins.map (Join.code κ ν c.sources)
  | .filter => c.wheres.map (Condition.code κ)
  | .groupBy => c.groupBys.map (GroupBy.code κ)
  | .having => c.havings.map (Condition.code κ)
  | .windows => c.windows.map (Window.declaredCode κ)
  | .combination => c.combinations.map (Combination.code ν)
  | .orderBy => c.orderBys.map (OrderBy.code κ)
  | .limit => c.limit.toList.map κ
  | .offset => c.offset.toList.map κ
  | .lock => c.lock.toList.map (Lock.code κ)
  | .preload => preloadKeys c.preloads

/-- The clauses in the order in which they are written down. -/
def writingOrder : List Clause :=
  [.withCte, .update, .distinct, .select, .fromSource, .join, .filter, .groupBy, .having, .windows,
    .combination, .orderBy, .limit, .offset, .lock, .preload]

/-- Entries under the tag of their clause; nothing if there are none. -/
def segment (tag : String) (entries : List KeyNode) : List KeyNode :=
  if entries.isEmpty then [] else [.tagged tag entries]

/-- A level written down for an operation. -/
def code (c : Clauses σ) (operation : Operation) : List KeyNode :=
  .atom operation.name :: (segment "prefix" (c.queryPrefix.toList.map .atom) ++
    writingOrder.flatMap fun clause => segment clause.name (c.written κ ν clause))

end Clauses

end

/-! ### Keys of entries -/

/-- Keying the entries of a clause writes them down under their tag. -/
theorem Guarded.clauseKey {α : Type} {entry : α → Option KeyNode} {P : α → Prop} {g : α → KeyNode}
    {xs : List α} (tag : String) (h : ∀ x ∈ xs, Guarded (P x) (g x) (entry x)) :
    Guarded (∀ x ∈ xs, P x) (Clauses.segment tag (xs.map g)) (Clauses.clauseKey tag entry xs) := by
  cases xs with
  | nil => exact (Guarded.some []).of_eq (by simp) rfl
  | cons x xs => exact (Guarded.mapM h).map fun keys => [KeyNode.tagged tag keys]

section

variable {form : LiteralForm}

/-- The code of the stored forms of an expression. -/
def Expr.codeIn (form : LiteralForm) (e : Expr) : KeyNode := (e.settle form .nothing).code

theorem Expr.guarded_key (e : Expr) : Guarded e.RangeFree (e.codeIn form) (e.key form) :=
  e.guarded_keyed .nothing

theorem Expr.codeIn_true : codeIn form (.literal (.bool true)) = .value (.bool true) := rfl

theorem Part.guarded_partsKey (parts : List (Part Expr)) :
    Guarded (∀ e ∈ exprs parts, e.RangeFree) (codeAll (Expr.codeIn form) parts)
      (Clauses.partsKey form parts) :=
  guarded_fragmentKey fun e _ => e.guarded_key

theorem Ordered.guarded_itemsKey (items : List (Ordered Expr)) :
    Guarded (∀ e ∈ exprs items, e.RangeFree) (codeAll (Expr.codeIn form) items)
      (Clauses.itemsKey form items) := by
  have hitems := Guarded.mapM fun item (_ : item ∈ items) =>
    item.guarded_key (f := Expr.key form) item.term.guarded_key
  refine (hitems.map KeyNode.list).of_eq (Iff.trans ?_ List.forall_mem_flatMap.symm) rfl
  simp [exprs]

theorem Update.guarded_key (u : Update) : Guarded (∀ e ∈ exprs u, e.RangeFree)
    (u.code (Expr.codeIn form)) (Clauses.updateKey form u) := by
  have hfield : ∀ field : String × Expr, Guarded field.2.RangeFree (field.2.codeIn form)
      (field.2.key form) := fun field => field.2.guarded_key
  have hfields := Guarded.mapM fun field (_ : field ∈ u.fields) =>
    (hfield field).map fun key => KeyNode.tagged field.1 [key]
  refine (hfields.bind_some _).of_eq (Iff.trans ?_ List.forall_mem_flatMap.symm) rfl
  simp [exprs]

theorem Distinct.guarded_key (d : Distinct) : Guarded (∀ e ∈ exprs d, e.RangeFree)
    (d.code (Expr.codeIn form)) (Clauses.distinctKey form d) := by
  cases d with
  | all => exact (Guarded.some _).of_eq (by simp [exprs]) rfl
  | on items => exact Ordered.guarded_itemsKey items

theorem Condition.guarded_key (c : Condition) : Guarded (∀ e ∈ exprs c, e.RangeFree)
    (c.code (Expr.codeIn form)) (Clauses.conditionKey form c) :=
  (c.expr.guarded_key.map _).of_eq (by simp [exprs]) rfl

theorem GroupBy.guarded_key (g : GroupBy) : Guarded (∀ e ∈ HasExprs.exprs g, e.RangeFree)
    (g.code (Expr.codeIn form)) (Clauses.groupByKey form g) := by
  cases g with
  | exprs es => exact (Guarded.mapM fun e _ => e.guarded_key).map KeyNode.list
  | pinned names => exact (Guarded.some _).of_eq (by simp [HasExprs.exprs]) rfl

theorem OrderBy.guarded_key (o : OrderBy) : Guarded (∀ e ∈ exprs o, e.RangeFree)
    (o.code (Expr.codeIn form)) (Clauses.orderByKey form o) := by
  cases o with
  | items ordered => exact Ordered.guarded_itemsKey ordered
  | pinned names => exact (Guarded.some _).of_eq (by simp [exprs]) rfl

theorem Window.guarded_declaredKey (declared : String × Window Expr) :
    Guarded (∀ e ∈ exprs declared, e.RangeFree) (declaredCode (Expr.codeIn form) declared)
      (Clauses.declaredWindowKey form declared) :=
  (declared.2.guarded_key fun e _ => e.guarded_key).map fun key => KeyNode.tagged declared.1 [key]

theorem Lock.guarded_key (l : Lock) : Guarded (∀ e ∈ exprs l, e.RangeFree)
    (l.code (Expr.codeIn form)) (Clauses.lockKey form l) := by
  cases l with
  | literal text => exact (Guarded.some _).of_eq (by simp [exprs]) rfl
  | fragment parts => exact Part.guarded_partsKey parts

/-! ### Keys of entries that nest queries -/

variable {key : σ → KeyedQuery} {ν : σ → List KeyNode} {R : σ → Prop}

theorem Source.guarded_key {s : Source σ} (bound : Option BoundSource)
    (h : ∀ q, .nested q ∈ s.items → Guarded (R q) (ν q) (key q .all)) :
    Guarded (∀ i ∈ s.items, i.Holds Expr.RangeFree R) (s.code (Expr.codeIn form) ν bound)
      (Clauses.sourceKey form bound (s.map key)) := by
  cases s with
  | table name =>
    cases bound with
    | none => exact (Guarded.some _).of_eq (by simp [items]) rfl
    | some b => cases b <;> exact (Guarded.some _).of_eq (by simp [items]) rfl
  | schema name type =>
    cases bound with
    | none => exact (Guarded.some _).of_eq (by simp [items]) rfl
    | some b => cases b <;> exact (Guarded.some _).of_eq (by simp [items]) rfl
  | subquery q =>
    exact ((h q (List.mem_singleton_self _)).map _).of_eq (by simp [items, Item.Holds]) rfl
  | fragment parts => exact (Part.guarded_partsKey parts).of_eq Item.forall_ofExprs.symm rfl

theorem Cte.guarded_key {c : Cte σ}
    (h : ∀ q, .nested q ∈ c.body.items → Guarded (R q) (ν q) (key q .all)) :
    Guarded (∀ i ∈ c.body.items, i.Holds Expr.RangeFree R) (c.code (Expr.codeIn form) ν)
      (Clauses.cteKey form (c.map key)) := by
  obtain ⟨name, body, recursive⟩ := c
  cases body with
  | query q =>
    have hq := (h q (List.mem_singleton_self _)).map KeyNode.list
    exact (hq.bind_some _).of_eq (by simp [CteBody.items, Item.Holds]) rfl
  | fragment parts =>
    exact ((Part.guarded_partsKey parts).bind_some _).of_eq Item.forall_ofExprs.symm rfl

theorem Combination.guarded_key {c : Combination σ}
    (h : Guarded (R c.query) (ν c.query) (key c.query .all)) :
    Guarded (R c.query) (c.code ν) (Clauses.combinationKey (c.map key)) :=
  h.map _

theorem Join.guarded_key {j : Join σ} (sources : List BoundSource)
    (h : ∀ q, .nested q ∈ j.items → Guarded (R q) (ν q) (key q .all)) :
    Guarded (∀ i ∈ j.items, i.Holds Expr.RangeFree R) (j.code (Expr.codeIn form) ν sources)
      (Clauses.joinKey form sources (j.map key)) := by
  obtain ⟨qualifier, source, on, association, tablePrefix, ix⟩ := j
  simp only [items, List.forall_mem_append, Item.forall_ofExprs] at h ⊢
  have hon : Guarded (∀ e ∈ exprs on, e.RangeFree)
      (Expr.codeIn form (on.getD (.literal (.bool true))))
      (on.elim (some (.value (.bool true))) (Expr.key form)) := by
    cases on with
    | none => exact (Guarded.some _).of_eq (by simp [exprs]) Expr.codeIn_true.symm
    | some e => exact e.guarded_key.of_eq (by simp [exprs]) rfl
  cases source with
  | none =>
    have hjoin := (Guarded.some KeyNode.null).bind₂ hon fun source on =>
      KeyNode.tagged qualifier.name [.ofBinding? ix, source, on]
    cases on <;> exact hjoin.of_eq (by simp) rfl
  | some source =>
    have hsource : Guarded _ _
        (Clauses.sourceKey form (ix.bind fun ix => sources[ix]?) (source.map key)) :=
      source.guarded_key _ fun q hq => h q (List.mem_append_left _ (by simpa using hq))
    have hjoin := hsource.bind₂ hon fun source on =>
      KeyNode.tagged qualifier.name [.ofBinding? ix, source, on]
    cases on <;> exact hjoin.of_eq (by simp) rfl

end

/-! ### Keys of levels -/

theorem Clauses.clauseKey_map {α β : Type} (tag : String) (entry : β → Option KeyNode) (f : α → β)
    (xs : List α) : clauseKey tag entry (xs.map f) = clauseKey tag (entry ∘ f) xs := by
  cases xs with
  | nil => rfl
  | cons x xs =>
    rw [clauseKey, clauseKey, List.mapM_map]
    rfl

/-- The nodes of one clause of a level. -/
def Clauses.clauseKeys (ctx : Context) (c : Clauses KeyedQuery) : Clause → Option (List KeyNode)
  | .withCte => clauseKey "with_cte" (cteKey (literalForm ctx c.sources)) c.ctes
  | .update => clauseKey "update" (updateKey (literalForm ctx c.sources)) c.updates
  | .distinct => clauseKey "distinct" (distinctKey (literalForm ctx c.sources)) c.distinct.toList
  | .select => clauseKey "select" (Expr.key (literalForm ctx c.sources) ·.expr) c.select.toList
  | .fromSource =>
    clauseKey "from" (sourceKey (literalForm ctx c.sources) c.sources.head? ·.source) c.root.toList
  | .join => clauseKey "join" (joinKey (literalForm ctx c.sources) c.sources) c.joins
  | .filter => clauseKey "where" (conditionKey (literalForm ctx c.sources)) c.wheres
  | .groupBy => clauseKey "group_by" (groupByKey (literalForm ctx c.sources)) c.groupBys
  | .having => clauseKey "having" (conditionKey (literalForm ctx c.sources)) c.havings
  | .windows => clauseKey "windows" (declaredWindowKey (literalForm ctx c.sources)) c.windows
  | .combination => clauseKey "combination" combinationKey c.combinations
  | .orderBy => clauseKey "order_by" (orderByKey (literalForm ctx c.sources)) c.orderBys
  | .limit => clauseKey "limit" (Expr.key (literalForm ctx c.sources)) c.limit.toList
  | .offset => clauseKey "offset" (Expr.key (literalForm ctx c.sources)) c.offset.toList
  | .lock => clauseKey "lock" (lockKey (literalForm ctx c.sources)) c.lock.toList
  | .preload => some (segment "preload" (preloadKeys c.preloads))

/-- Reading a list for what follows is reading its head and then its tail. -/
theorem Option.map_mapM_cons {α β γ : Type} (f : α → Option β) (k : List β → γ) (x : α)
    (xs : List α) : ((x :: xs).mapM f).map k =
      (f x).bind fun y => (xs.mapM f).map fun ys => k (y :: ys) := by
  rw [List.mapM_cons]
  cases f x with
  | none => rfl
  | some y => cases xs.mapM f <;> rfl

/-- The key of a level is its clauses' nodes in a row. -/
theorem Clauses.key_eq_mapM (ctx : Context) (c : Clauses KeyedQuery) (operation : Operation) :
    c.key ctx operation = (writingOrder.mapM (c.clauseKeys ctx)).map fun segments =>
      .atom operation.name :: (segment "prefix" (c.queryPrefix.toList.map .atom) ++
        segments.flatten) := by
  have hpre : c.queryPrefix.toList.map (fun name => KeyNode.tagged "prefix" [.atom name]) =
      segment "prefix" (c.queryPrefix.toList.map .atom) := by
    cases c.queryPrefix <;> rfl
  have hpreloads : (if c.preloads.isEmpty then []
      else [KeyNode.tagged "preload" (preloadKeys c.preloads)]) =
        segment "preload" (preloadKeys c.preloads) := by
    cases c.preloads <;> rfl
  unfold Clauses.key writingOrder
  rw [hpre, hpreloads]
  -- one clause after the other: simplifying all at once goes through every one of them each time
  iterate 15
    rw [Option.map_mapM_cons]
    refine congrArg (Option.bind _) (funext fun _ => ?_)
  simp only [List.mapM_cons, List.mapM_nil, clauseKeys, Option.bind_eq_bind, Option.pure_def,
    Option.bind_some, Option.map_some, List.flatten_cons, List.flatten_nil, List.append_nil,
    List.cons_append, List.append_assoc]

section

variable {ctx : Context} {key : σ → KeyedQuery} {ν : σ → List KeyNode} {R : σ → Prop}
  {c : Clauses σ}

/-- Keying a clause is writing its entries down, unless something in it has no key. -/
theorem Clauses.guarded_clauseKeys
    (hnested : ∀ clause q, .nested q ∈ c.items clause → Guarded (R q) (ν q) (key q .all))
    (hfields : ∀ select, c.select = some select → select.fields = []) (clause : Clause) :
    Guarded (∀ i ∈ c.items clause, i.Holds Expr.RangeFree R)
      (segment clause.name (c.written (Expr.codeIn (literalForm ctx c.sources)) ν clause))
      ((c.map key).clauseKeys ctx clause) := by
  have hentries : ∀ {X Y : Type} {items : X → List (Item σ)} {entry : Y → Option KeyNode}
      {g : X → KeyNode} (tag : String) (xs : List X) (f : X → Y),
      (∀ x ∈ xs, Guarded (∀ i ∈ items x, i.Holds Expr.RangeFree R) (g x) (entry (f x))) →
        Guarded (∀ i ∈ xs.flatMap items, i.Holds Expr.RangeFree R)
          (segment tag (xs.map g)) (clauseKey tag entry (xs.map f)) := by
    intro X Y items entry g tag xs f h
    rw [clauseKey_map]
    exact (Guarded.clauseKey tag h).of_eq List.forall_mem_flatMap.symm rfl
  have hexprs : ∀ {X : Type} [HasExprs X] {entry : X → Option KeyNode} {g : X → KeyNode}
      (tag : String) (xs : List X),
      (∀ x ∈ xs, Guarded (∀ e ∈ exprs x, e.RangeFree) (g x) (entry x)) →
        Guarded (∀ i ∈ (Item.ofExprs xs : List (Item σ)), i.Holds Expr.RangeFree R)
          (segment tag (xs.map g)) (clauseKey tag entry xs) := by
    intro X _ entry g tag xs h
    exact (Guarded.clauseKey tag h).of_eq
      (List.forall_mem_flatMap.symm.trans (Item.forall_ofExprs (x := xs)).symm) rfl
  have hexpr : ∀ e : Expr, Guarded (∀ e' ∈ exprs e, e'.RangeFree)
      (e.codeIn (literalForm ctx c.sources)) (e.key (literalForm ctx c.sources)) :=
    fun e => e.guarded_key.of_eq (by simp [exprs]) rfl
  cases clause with
  | withCte =>
    exact hentries "with_cte" c.ctes _ fun cte hcte => cte.guarded_key fun q hq =>
      hnested .withCte q (List.mem_flatMap.mpr ⟨cte, hcte, hq⟩)
  | update => exact hexprs "update" c.updates fun x _ => x.guarded_key
  | distinct => exact hexprs "distinct" c.distinct.toList fun x _ => x.guarded_key
  | select =>
    refine hexprs "select" c.select.toList fun select hselect => ?_
    refine select.expr.guarded_key.of_eq ?_ rfl
    simp [exprs, hfields select (by simpa using hselect)]
  | fromSource =>
    have hroot : (c.map key).root.toList = c.root.toList.map (FromClause.map key) := by
      simp only [Clauses.map]
      cases c.root <;> rfl
    simp only [clauseKeys, hroot]
    exact hentries "from" c.root.toList _ fun root hroot => root.source.guarded_key _ fun q hq =>
      hnested .fromSource q (List.mem_flatMap.mpr ⟨root, hroot, hq⟩)
  | join =>
    exact hentries "join" c.joins _ fun join hjoin => join.guarded_key c.sources fun q hq =>
      hnested .join q (List.mem_flatMap.mpr ⟨join, hjoin, hq⟩)
  | filter => exact hexprs "where" c.wheres fun x _ => x.guarded_key
  | groupBy => exact hexprs "group_by" c.groupBys fun x _ => x.guarded_key
  | having => exact hexprs "having" c.havings fun x _ => x.guarded_key
  | windows => exact hexprs "windows" c.windows fun x _ => Window.guarded_declaredKey x
  | combination =>
    have hentry : ∀ combined ∈ c.combinations,
        Guarded (∀ i ∈ [Item.nested combined.query], i.Holds Expr.RangeFree R) (combined.code ν)
          (combinationKey (combined.map key)) := fun combined hcombined =>
      (combined.guarded_key (hnested .combination combined.query
        (List.mem_map_of_mem hcombined))).of_eq (by simp [Item.Holds]) rfl
    have hclause := hentries "combination" c.combinations (Combination.map key) hentry
    rw [← List.map_eq_flatMap] at hclause
    exact hclause
  | orderBy => exact hexprs "order_by" c.orderBys fun x _ => x.guarded_key
  | limit => exact hexprs "limit" c.limit.toList fun e _ => hexpr e
  | offset => exact hexprs "offset" c.offset.toList fun e _ => hexpr e
  | lock => exact hexprs "lock" c.lock.toList fun x _ => x.guarded_key
  | preload => exact (Guarded.some _).of_eq (by simp [items]) rfl

/-- **Keying a level** is writing it down, unless something in it has no key. -/
theorem Clauses.guarded_key (operation : Operation)
    (hnested : ∀ clause q, .nested q ∈ c.items clause → Guarded (R q) (ν q) (key q .all))
    (hfields : ∀ select, c.select = some select → select.fields = []) :
    Guarded (∀ clause, ∀ i ∈ c.items clause, i.Holds Expr.RangeFree R)
      (c.code (Expr.codeIn (literalForm ctx c.sources)) ν operation)
      ((c.map key).key ctx operation) := by
  have hclause : ∀ clause, Guarded _ _ ((c.map key).clauseKeys ctx clause) :=
    guarded_clauseKeys hnested hfields
  have hclauses := Guarded.mapM fun clause (_ : clause ∈ writingOrder) => hclause clause
  rw [key_eq_mapM]
  refine (hclauses.map _).of_eq ⟨fun h clause => h clause ?_, fun h clause _ => h clause⟩ ?_
  · cases clause <;> simp [writingOrder]
  · rw [code, List.flatMap_def]
    rfl

end

end QueryPlanner
