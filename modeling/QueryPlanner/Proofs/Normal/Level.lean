import QueryPlanner.Proofs.Normal.Projection

/-!
# When normalization accepts a level

Normalization accepts a level if the operation allows what it holds, the references of its
expressions are there, its literals have stored forms where they are compared with fields or
assigned to them, its preloads and its selection can be followed, and its nested queries are
accepted.  Each of these can be told from the level as it was planned.

* `Clauses.guarded_checkReferences` — when the references of a level pass, and what comes out
* `Query.normalize_ok` — when normalization accepts a query
* `Clauses.Accepted.of_outline_eq` — levels of one outline differ in their literals only
-/

namespace QueryPlanner

open HasExprs

variable {σ τ : Type}

/-! ### Entries -/

theorem Item.expr_mem_ofExprs {X : Type} [HasExprs X] {x : X} {e : Expr} :
    (.expr e : Item σ) ∈ ofExprs x ↔ e ∈ exprs x := by
  simp [ofExprs]

section

variable {P : Expr → Prop} {g : Expr → Expr}

/-- Where each entry of a list is guarded, so is the list. -/
theorem HasExprs.guarded_list {X : Type} [HasExprs X] {f : X → Except PlanError X} {xs : List X}
    (h : ∀ x ∈ xs, Guarded (∀ e ∈ exprs x, P e) (rewrite g x) (f x).toOption) :
    Guarded (∀ e ∈ exprs xs, P e) (rewrite g xs) (xs.mapM f).toOption := by
  refine (Guarded.mapM_ok h).of_eq ?_ rfl
  simp only [exprs, List.mem_flatMap]
  exact ⟨fun hall e ⟨x, hx, he⟩ => hall x hx e he, fun hall x hx e he => hall e ⟨x, hx, he⟩⟩

/-- Where the entry is guarded that may be there, so is what may be there. -/
theorem HasExprs.guarded_option {X : Type} [HasExprs X] {f : X → Except PlanError X} {x? : Option X}
    (h : ∀ x, x? = some x → Guarded (∀ e ∈ exprs x, P e) (rewrite g x) (f x).toOption) :
    Guarded (∀ e ∈ exprs x?, P e) (rewrite g x?) (x?.mapM f).toOption := by
  cases x? with
  | none => exact (Guarded.ok none).of_eq (by simp [exprs]) rfl
  | some x => exact ((h x rfl).map_ok some).of_eq (by simp [exprs]) rfl

theorem HasExprs.guarded_parts {f : Expr → Except PlanError Expr} {parts : List (Part Expr)}
    (h : ∀ e, Guarded (P e) (g e) (f e).toOption) :
    Guarded (∀ e ∈ exprs parts, P e) (rewrite g parts) (parts.mapM (Part.mapM f)).toOption :=
  Part.guarded_mapM fun e _ => h e

end

namespace Clauses

variable (ctx : Context) (c : Clauses σ)

/-- An expression of a level that passes the check. -/
abbrev Passes (e : Expr) : Prop := (c.references ctx .select "").Passes e

/-- The form in which it passes. -/
abbrev passed (e : Expr) : Expr := e.settle (literalForm ctx c.sources) .nothing

/-- The place of an expression makes no difference to the check. -/
theorem guarded_check (clause : Clause) (text : String) (e : Expr) :
    Guarded (c.Passes ctx e) (c.passed ctx e) ((c.references ctx clause text).check e).toOption :=
  References.guarded_checked e

theorem guarded_checkTop (clause : Clause) (e : Expr) :
    Guarded (∀ x ∈ exprs e, c.Passes ctx x) (rewrite (c.passed ctx) e)
      (c.checkTop ctx clause e).toOption :=
  (c.guarded_check ctx clause e.render e).of_eq (by simp [exprs]) rfl

theorem guarded_checkSource (clause : Clause) (text : String) (s : Source σ) :
    Guarded (∀ e, .expr e ∈ s.items → c.Passes ctx e) (s.edit (c.passed ctx) id)
      (checkSource (c.references ctx clause text) s).toOption := by
  cases s with
  | fragment parts =>
    refine ((guarded_parts (c.guarded_check ctx clause text)).map_ok Source.fragment).of_eq ?_ rfl
    simp [Source.items, Item.ofExprs]
  | _ => exact (Guarded.ok _).of_eq (by simp [Source.items]) rfl

theorem guarded_checkRoot (root : FromClause σ) :
    Guarded (∀ e, .expr e ∈ root.source.items → c.Passes ctx e) (root.edit (c.passed ctx) id)
      (c.checkRoot ctx root).toOption :=
  (c.guarded_checkSource ctx _ _ root.source).andThen_ok fun source => { root with source }

theorem guarded_checkJoin (j : Join σ) :
    Guarded (∀ e, .expr e ∈ j.items → c.Passes ctx e) (j.edit (c.passed ctx) id)
      (c.checkJoin ctx j).toOption := by
  have hsource : Guarded (∀ e, .expr e ∈ j.source.toList.flatMap Source.items → c.Passes ctx e)
      (j.source.map (Source.edit (c.passed ctx) id))
      (j.source.mapM (checkSource (c.references ctx .join j.render))).toOption := by
    cases j.source with
    | none => exact (Guarded.ok _).of_eq (by simp) rfl
    | some source =>
      exact ((c.guarded_checkSource ctx .join j.render source).map_ok some).of_eq (by simp) rfl
  have hon : Guarded (∀ e ∈ exprs j.on, c.Passes ctx e) (rewrite (c.passed ctx) j.on)
      (j.on.mapM (c.references ctx .join j.render).check).toOption :=
    guarded_option fun e _ => (c.guarded_check ctx .join j.render e).of_eq (by simp [exprs]) rfl
  refine (hsource.andThen (hon.andThen_ok fun on =>
    { j with source := j.source.map (Source.edit (c.passed ctx) id), on })).of_eq ?_ rfl
  simp [Join.items, Item.ofExprs, or_imp, forall_and]

theorem guarded_checkCondition (clause : Clause) (condition : Condition) :
    Guarded (∀ e ∈ exprs condition, c.Passes ctx e) (rewrite (c.passed ctx) condition)
      (c.checkCondition ctx clause condition).toOption :=
  ((c.guarded_check ctx _ _ condition.expr).andThen_ok fun expr => { condition with expr }).of_eq
    (by simp [exprs]) rfl

theorem guarded_checkItems (clause : Clause) (items : List (Ordered Expr)) :
    Guarded (∀ e ∈ exprs items, c.Passes ctx e) (rewrite (c.passed ctx) items)
      (c.checkItems ctx clause items).toOption :=
  guarded_list fun item _ =>
    have hterm := c.guarded_check ctx clause item.render item.term
    (hterm.andThen_ok (Ordered.mk item.direction)).of_eq (by simp [exprs]) rfl

theorem guarded_checkSelect {select : Select} (h : select.fields = []) :
    Guarded (∀ e ∈ exprs select, c.Passes ctx e) (rewrite (c.passed ctx) select)
      (c.checkSelect ctx select).toOption :=
  ((c.guarded_check ctx _ _ select.expr).andThen_ok fun expr => { select with expr }).of_eq
    (by simp [exprs, h]) (by simp [rewrite, h])

theorem guarded_checkDistinct (distinct : Distinct) :
    Guarded (∀ e ∈ exprs distinct, c.Passes ctx e) (rewrite (c.passed ctx) distinct)
      (c.checkDistinct ctx distinct).toOption := by
  cases distinct with
  | all => exact (Guarded.ok _).of_eq (by simp [exprs]) rfl
  | on items => exact (c.guarded_checkItems ctx _ items).map_ok Distinct.on

theorem guarded_checkGroupBy (g : GroupBy) :
    Guarded (∀ e ∈ exprs g, c.Passes ctx e) (rewrite (c.passed ctx) g)
      (c.checkGroupBy ctx g).toOption := by
  cases g with
  | exprs es => exact (Guarded.mapM_ok fun e _ => c.guarded_check ctx _ _ e).map_ok GroupBy.exprs
  | pinned names => exact (Guarded.ok _).of_eq (by simp [HasExprs.exprs]) rfl

theorem guarded_checkOrderBy (o : OrderBy) :
    Guarded (∀ e ∈ exprs o, c.Passes ctx e) (rewrite (c.passed ctx) o)
      (c.checkOrderBy ctx o).toOption := by
  cases o with
  | items items => exact (c.guarded_checkItems ctx _ items).map_ok OrderBy.items
  | pinned names => exact (Guarded.ok _).of_eq (by simp [exprs]) rfl

theorem guarded_checkWindow (declared : String × Window Expr) :
    Guarded (∀ e ∈ exprs declared, c.Passes ctx e) (rewrite (c.passed ctx) declared)
      (c.checkWindow ctx declared).toOption :=
  (Window.guarded_mapM fun e _ => c.guarded_check ctx _ _ e).andThen_ok (Prod.mk declared.1)

theorem guarded_checkLock (lock : Lock) :
    Guarded (∀ e ∈ exprs lock, c.Passes ctx e) (rewrite (c.passed ctx) lock)
      (c.checkLock ctx lock).toOption := by
  cases lock with
  | literal text => exact (Guarded.ok _).of_eq (by simp [exprs]) rfl
  | fragment parts => exact (guarded_parts fun e => c.guarded_check ctx _ _ e).map_ok Lock.fragment

/-! ### Assignments -/

/-- The form in which an expression is assigned, given the type that a literal is put in. -/
def assigned (ctx : Context) (c : Clauses σ) (type? : Option FieldType) (e : Expr) : Expr :=
  match e, type? with
  | .literal value, some type => .literal ((ctx.conversions.dump type value).toOption.getD value)
  | e, _ => c.passed ctx e

theorem blank_assigned (type? : Option FieldType) (e : Expr) :
    (c.assigned ctx type? e).blank = e.blank := by
  unfold assigned
  split
  · rfl
  · exact Expr.blank_settle _ _

theorem guarded_checkAssigned (clause : Clause) (text : String) (type? : Option FieldType)
    (e : Expr) : Guarded (c.Passes ctx e ∧ ∀ value type, e = .literal value → type? = some type →
        ∃ stored, ctx.conversions.dump type value = .ok stored) (c.assigned ctx type? e)
      ((c.references ctx clause text).checkAssigned type? e).toOption := by
  by_cases htyped : ∃ value type, e = .literal value ∧ type? = some type
  · obtain ⟨value, type, rfl, rfl⟩ := htyped
    have hpasses : c.Passes ctx (.literal value) := References.passes_literal value
    exact (References.guarded_dump (r := c.references ctx clause text) value type).of_eq
      ⟨fun h => ⟨hpasses, fun _ _ he ht => by cases he; cases ht; exact h⟩,
        fun h => h.2 value type rfl rfl⟩ rfl
  · have hplain : ∀ value type, e = .literal value → type? = some type → False :=
      fun value type he ht => htyped ⟨value, type, he, ht⟩
    have hform : c.assigned ctx type? e = c.passed ctx e := by
      unfold assigned
      split
      · exact (hplain _ _ rfl rfl).elim
      · rfl
    unfold References.checkAssigned
    split
    · exact (hplain _ _ rfl rfl).elim
    · exact (c.guarded_check ctx clause text e).of_eq
        (and_iff_left fun value type he ht => (hplain value type he ht).elim).symm hform.symm

/-- The type that a literal is put in when it is assigned to a field. -/
def assignedAt? (ctx : Context) (c : Clauses σ) (op : UpdateOp) (name : String) :
    Option FieldType :=
  (ctx.typeAt? c.sources 0 name).bind (assignedType op)

/-- The field that is assigned is there, and a literal that is assigned has a stored form. -/
def Assigns (ctx : Context) (c : Clauses σ) (op : UpdateOp) (field : String × Expr) : Prop :=
  (ctx.typeAt? c.sources 0 field.1).isSome ∧ ∀ value type, field.2 = .literal value →
    c.assignedAt? ctx op field.1 = some type →
      ∃ stored, ctx.conversions.dump type value = .ok stored

theorem guarded_checkAssignment (op : UpdateOp) (field : String × Expr) :
    Guarded (c.Passes ctx field.2 ∧ c.Assigns ctx op field)
      (field.1, c.assigned ctx (c.assignedAt? ctx op field.1) field.2)
      (c.checkAssignment ctx op field).toOption := by
  obtain ⟨name, e⟩ := field
  have hfield : ((c.references ctx .update (name ++ ": " ++ e.render)).fieldType 0 name).toOption =
      ctx.typeAt? c.sources 0 name := References.toOption_fieldType 0 name
  simp only [checkAssignment, Except.toOption_bind, hfield, Assigns, assignedAt?]
  cases htype : ctx.typeAt? c.sources 0 name with
  | none => exact Guarded.none (by simp)
  | some type =>
    have hassigned := c.guarded_checkAssigned ctx .update
      (name ++ ": " ++ e.render) (assignedType op type) e
    exact (hassigned.bind_some (Prod.mk name)).of_eq (by simp) rfl

theorem guarded_checkUpdate (u : Update) :
    Guarded (∀ field ∈ u.fields, c.Passes ctx field.2 ∧ c.Assigns ctx u.op field)
      { u with fields := u.fields.map fun field =>
          (field.1, c.assigned ctx (c.assignedAt? ctx u.op field.1) field.2) }
      (c.checkUpdate ctx u).toOption :=
  (Guarded.mapM_ok fun field _ => c.guarded_checkAssignment ctx u.op field).andThen_ok fun fields =>
    { u with fields }

/-! ### The references of a level -/

/-- What the expressions of a level name is there, and literals have stored forms where they are
compared with fields or assigned to them.  Fragments in place of common table expressions are not
looked at. -/
structure Refers (ctx : Context) (c : Clauses σ) : Prop where
  passes : ∀ clause, clause ≠ .withCte → ∀ e, .expr e ∈ c.items clause → c.Passes ctx e
  assigns : ∀ u ∈ c.updates, ∀ field ∈ u.fields, c.Assigns ctx u.op field

/-- The level with these literals in their stored forms. -/
def dumped (ctx : Context) (c : Clauses σ) : Clauses σ :=
  { c.edit (c.passed ctx) id with
    ctes := c.ctes
    combinations := c.combinations
    updates := c.updates.map fun u => { u with
      fields := u.fields.map fun field =>
        (field.1, c.assigned ctx (c.assignedAt? ctx u.op field.1) field.2) } }

/-- **The references of a level** pass if what is named is there and literals have stored forms. -/
theorem guarded_checkReferences (hselect : ∀ s, c.select = some s → s.fields = []) :
    Guarded (c.Refers ctx) (c.dumped ctx) (c.checkReferences ctx).toOption := by
  have hroot : Guarded (∀ e, .expr e ∈ c.items .fromSource → c.Passes ctx e)
      (c.root.map (FromClause.edit (c.passed ctx) id))
      (c.root.mapM (c.checkRoot ctx)).toOption := by
    cases hr : c.root with
    | none => exact (Guarded.ok _).of_eq (by simp [items, hr]) rfl
    | some root =>
      exact ((c.guarded_checkRoot ctx root).map_ok some).of_eq (by simp [items, hr]) rfl
  have hjoins : Guarded (∀ e, .expr e ∈ c.items .join → c.Passes ctx e)
      (c.joins.map (Join.edit (c.passed ctx) id)) (c.joins.mapM (c.checkJoin ctx)).toOption := by
    refine (Guarded.mapM_ok fun j _ => c.guarded_checkJoin ctx j).of_eq ?_ rfl
    simp only [items, List.mem_flatMap]
    constructor
    · rintro h e ⟨j, hj, he⟩
      exact h j hj e he
    · exact fun h j hj e he => h e ⟨j, hj, he⟩
  have hselects := guarded_option fun s hs => c.guarded_checkSelect ctx (hselect s hs)
  have hdistinct := guarded_option fun d (_ : c.distinct = some d) => c.guarded_checkDistinct ctx d
  have hwheres := guarded_list fun x (_ : x ∈ c.wheres) => c.guarded_checkCondition ctx .filter x
  have hhavings := guarded_list fun x (_ : x ∈ c.havings) => c.guarded_checkCondition ctx .having x
  have hgroupBys := guarded_list fun g (_ : g ∈ c.groupBys) => c.guarded_checkGroupBy ctx g
  have hwindows := guarded_list fun w (_ : w ∈ c.windows) => c.guarded_checkWindow ctx w
  have horderBys := guarded_list fun o (_ : o ∈ c.orderBys) => c.guarded_checkOrderBy ctx o
  have hlimit := guarded_option fun e (_ : c.limit = some e) => c.guarded_checkTop ctx .limit e
  have hoffset := guarded_option fun e (_ : c.offset = some e) => c.guarded_checkTop ctx .offset e
  have hlock := guarded_option fun l (_ : c.lock = some l) => c.guarded_checkLock ctx l
  have hupdates := Guarded.mapM_ok fun u (_ : u ∈ c.updates) => c.guarded_checkUpdate ctx u
  unfold checkReferences
  refine Guarded.of_eq (hroot.andThen (hjoins.andThen (hselects.andThen (hdistinct.andThen
    (hwheres.andThen (hhavings.andThen (hgroupBys.andThen (hwindows.andThen (horderBys.andThen
      (hlimit.andThen (hoffset.andThen (hlock.andThen (hupdates.andThen_ok _))))))))))))) ?_ rfl
  have hfields : ∀ {P : Expr → Prop}, (∀ e ∈ exprs c.updates, P e) ↔
      ∀ u ∈ c.updates, ∀ field ∈ u.fields, P field.2 := by
    intro P
    simp only [exprs, List.mem_flatMap, List.mem_singleton]
    constructor
    · exact fun h u hu field hfield => h _ ⟨u, hu, field, hfield, rfl⟩
    · rintro h _ ⟨u, hu, field, hfield, rfl⟩
      exact h u hu field hfield
  constructor
  · rintro ⟨hroot, hjoins, hselect, hdistinct, hwheres, hhavings, hgroupBys, hwindows, horderBys,
      hlimit, hoffset, hlock, hupdates⟩
    refine ⟨fun clause hclause e he => ?_, fun u hu field hfield => (hupdates u hu field hfield).2⟩
    cases clause with
    | withCte => exact absurd rfl hclause
    | fromSource => exact hroot e he
    | join => exact hjoins e he
    | combination => simp [items] at he
    | preload => cases he
    | select => exact hselect e (Item.expr_mem_ofExprs.mp he)
    | distinct => exact hdistinct e (Item.expr_mem_ofExprs.mp he)
    | filter => exact hwheres e (Item.expr_mem_ofExprs.mp he)
    | having => exact hhavings e (Item.expr_mem_ofExprs.mp he)
    | groupBy => exact hgroupBys e (Item.expr_mem_ofExprs.mp he)
    | windows => exact hwindows e (Item.expr_mem_ofExprs.mp he)
    | orderBy => exact horderBys e (Item.expr_mem_ofExprs.mp he)
    | limit => exact hlimit e (Item.expr_mem_ofExprs.mp he)
    | offset => exact hoffset e (Item.expr_mem_ofExprs.mp he)
    | lock => exact hlock e (Item.expr_mem_ofExprs.mp he)
    | update =>
      exact hfields.mpr (fun u hu field hfield => (hupdates u hu field hfield).1) e
        (Item.expr_mem_ofExprs.mp he)
  · rintro ⟨hpasses, hassigns⟩
    have hexprs : ∀ {X : Type} [HasExprs X] {x : X} (clause : Clause), clause ≠ .withCte →
        c.items clause = Item.ofExprs x → ∀ e ∈ exprs x, c.Passes ctx e :=
      fun clause hclause hitems e he =>
        hpasses clause hclause e (hitems ▸ Item.expr_mem_ofExprs.mpr he)
    refine ⟨hpasses .fromSource (by decide), hpasses .join (by decide),
      hexprs .select (by decide) rfl, hexprs .distinct (by decide) rfl,
      hexprs .filter (by decide) rfl, hexprs .having (by decide) rfl,
      hexprs .groupBy (by decide) rfl, hexprs .windows (by decide) rfl,
      hexprs .orderBy (by decide) rfl, hexprs .limit (by decide) rfl,
      hexprs .offset (by decide) rfl, hexprs .lock (by decide) rfl, ?_⟩
    exact fun u hu field hfield =>
      ⟨hfields.mp (hexprs .update (by decide) rfl) u hu field hfield, hassigns u hu field hfield⟩

/-- Putting literals in their stored forms keeps the outline. -/
theorem outline_dumped : (c.dumped ctx).outline = c.outline := by
  have hedit : (c.edit (c.passed ctx) id).outline = c.outline :=
    outline_edit id (fun e => Expr.blank_settle e _) rfl c
  have hupdates : (c.dumped ctx).outline.updates = c.outline.updates := by
    simp only [outline, edit, plain, dumped, rewrite, List.map_map]
    refine List.map_congr_left fun u _ => ?_
    simp only [Function.comp_apply, Update.mk.injEq, true_and, List.map_map]
    exact List.map_congr_left fun field _ =>
      congrArg (Prod.mk field.1) (c.blank_assigned ctx _ field.2)
  have hdumped : (c.dumped ctx).outline = { (c.edit (c.passed ctx) id).outline with
      ctes := c.outline.ctes
      combinations := c.outline.combinations
      updates := (c.dumped ctx).outline.updates } := rfl
  rw [hdumped, hedit, hupdates]

/-- A literal of the level has a stored form wherever it is compared with a field.  Fragments in
place of common table expressions are not looked at. -/
def Storable (ctx : Context) (c : Clauses σ) : Prop :=
  ∀ clause, clause ≠ .withCte → ∀ e, .expr e ∈ c.items clause →
    ∀ x ∈ e.walk, ∀ l ∈ x.node.comparisons, l.Stored ctx c.sources

theorem refers_iff : c.Refers ctx ↔ c.Finds ctx ∧ c.Storable ctx ∧
    ∀ u ∈ c.updates, ∀ field ∈ u.fields, c.Assigns ctx u.op field := by
  constructor
  · rintro ⟨hpasses, hassigns⟩
    exact ⟨fun clause hclause e he x hx => (hpasses clause hclause e he x hx).1,
      fun clause hclause e he x hx => (hpasses clause hclause e he x hx).2, hassigns⟩
  · rintro ⟨hfinds, hstorable, hassigns⟩
    exact ⟨fun clause hclause e he x hx =>
      ⟨hfinds clause hclause e he x hx, hstorable clause hclause e he x hx⟩, hassigns⟩

end Clauses

/-! ### Nested queries -/

section

variable {P : σ → Prop} {g : σ → τ} {f : σ → Except PlanError τ}

theorem Source.guarded_mapM {s : Source σ}
    (h : ∀ q, .nested q ∈ s.items → Guarded (P q) (g q) (f q).toOption) :
    Guarded (∀ q, .nested q ∈ s.items → P q) (s.map g) (s.mapM f).toOption := by
  cases s with
  | subquery q => exact ((h q (by simp [items])).map_ok subquery).of_eq (by simp [items]) rfl
  | fragment parts => exact (Guarded.ok _).of_eq (by simp [items, Item.ofExprs]) rfl
  | _ => exact (Guarded.ok _).of_eq (by simp [items]) rfl

theorem Join.guarded_mapM {j : Join σ}
    (h : ∀ q, .nested q ∈ j.items → Guarded (P q) (g q) (f q).toOption) :
    Guarded (∀ q, .nested q ∈ j.items → P q) (j.map g) (j.mapM f).toOption := by
  obtain ⟨qualifier, source, on, association, tablePrefix, ix⟩ := j
  cases source with
  | none => exact (Guarded.ok _).of_eq (by simp [items, Item.ofExprs]) rfl
  | some source =>
    have hitems : ∀ q, .nested q ∈ (Join.mk qualifier (some source) on association tablePrefix
        ix).items ↔ .nested q ∈ source.items := by simp [items, Item.ofExprs]
    simp only [hitems] at h ⊢
    have hsource := (Source.guarded_mapM h).map_ok some
    exact hsource.andThen_ok fun source =>
      (⟨qualifier, source, on, association, tablePrefix, ix⟩ : Join τ)

theorem Cte.guarded_mapM {cte : Cte σ}
    (h : ∀ q, .nested q ∈ cte.body.items → Guarded (P q) (g q) (f q).toOption) :
    Guarded (∀ q, .nested q ∈ cte.body.items → P q) (cte.map g) (cte.mapM f).toOption := by
  obtain ⟨name, body, recursive⟩ := cte
  cases body with
  | query q =>
    have hbody := (h q (by simp [CteBody.items])).map_ok CteBody.query
    exact (hbody.andThen_ok (Cte.mk name · recursive)).of_eq (by simp [CteBody.items]) rfl
  | fragment parts => exact (Guarded.ok _).of_eq (by simp [CteBody.items, Item.ofExprs]) rfl

/-- Where the step on each nested query is guarded, so is the traversal of the level. -/
theorem Clauses.guarded_mapM {c : Clauses σ}
    (h : ∀ clause q, .nested q ∈ c.items clause → Guarded (P q) (g q) (f q).toOption) :
    Guarded (∀ clause q, .nested q ∈ c.items clause → P q) (c.map g) (c.mapM f).toOption := by
  have hctes := Guarded.mapM_ok fun cte (hcte : cte ∈ c.ctes) =>
    Cte.guarded_mapM fun q hq => h .withCte q (List.mem_flatMap.mpr ⟨cte, hcte, hq⟩)
  have hcombinations := Guarded.mapM_ok fun combined (hc : combined ∈ c.combinations) =>
    (h .combination combined.query (List.mem_map_of_mem hc)).andThen_ok (Combination.mk combined.op)
  have hjoins := Guarded.mapM_ok fun j (hj : j ∈ c.joins) =>
    Join.guarded_mapM fun q hq => h .join q (List.mem_flatMap.mpr ⟨j, hj, hq⟩)
  have hroot : Guarded (∀ q, .nested q ∈ c.items .fromSource → P q)
      (c.root.map (FromClause.map g)) (c.root.mapM (FromClause.mapM f)).toOption := by
    have hitems := h .fromSource
    cases hr : c.root with
    | none => exact (Guarded.ok _).of_eq (by simp [items, hr]) rfl
    | some root =>
      simp only [items, hr, Option.toList_some, List.flatMap_singleton] at hitems ⊢
      have hsource := (Source.guarded_mapM hitems).andThen_ok (FromClause.mk · root.tablePrefix)
      exact hsource.map_ok some
  have hmapM : c.mapM f = (do
      let ctes ← c.ctes.mapM (Cte.mapM f)
      let combinations ← c.combinations.mapM (Combination.mapM f)
      let root ← c.root.mapM (FromClause.mapM f)
      let joins ← c.joins.mapM (Join.mapM f)
      .ok { c.map g with root, joins, combinations, ctes }) := by
    unfold mapM
    cases c.root <;> rfl
  rw [hmapM]
  refine Guarded.of_eq (hctes.andThen (hcombinations.andThen (hroot.andThen
    (hjoins.andThen_ok _)))) ?_ rfl
  constructor
  · rintro ⟨hctes, hcombinations, hroot, hjoins⟩ clause q hq
    cases clause with
    | withCte =>
      obtain ⟨cte, hcte, hq⟩ := List.mem_flatMap.mp hq
      exact hctes cte hcte q hq
    | combination =>
      obtain ⟨combined, hc, hq⟩ := List.mem_map.mp hq
      exact Item.nested.inj hq ▸ hcombinations combined hc
    | fromSource => exact hroot q hq
    | join =>
      obtain ⟨j, hj, hq⟩ := List.mem_flatMap.mp hq
      exact hjoins j hj q hq
    | preload => cases hq
    | _ => exact absurd hq (by simp [items, Item.ofExprs])
  · intro hall
    exact ⟨fun cte hcte q hq => hall .withCte q (List.mem_flatMap.mpr ⟨cte, hcte, hq⟩),
      fun combined hc => hall .combination combined.query (List.mem_map_of_mem hc),
      hall .fromSource,
      fun j hj q hq => hall .join q (List.mem_flatMap.mpr ⟨j, hj, hq⟩)⟩

end

namespace Clauses

theorem outline_map (f : σ → τ) (c : Clauses σ) : (c.map f).outline = c.outline := by
  rw [map_eq_edit]
  exact outline_edit f (fun _ => rfl) rfl c

theorem expr_mem_items_map (f : σ → τ) (c : Clauses σ) (clause : Clause) (e : Expr) :
    .expr e ∈ (c.map f).items clause ↔ .expr e ∈ c.items clause := by
  rw [map_eq_edit, items_edit, List.mem_map]
  constructor
  · rintro ⟨i, hi, hie⟩
    cases i with
    | expr e' => exact Item.expr.inj hie ▸ hi
    | nested q => cases hie
  · exact fun h => ⟨_, h, rfl⟩

theorem nested_mem_items_map (f : σ → τ) (c : Clauses σ) (clause : Clause) (t : τ) :
    .nested t ∈ (c.map f).items clause ↔ ∃ q, .nested q ∈ c.items clause ∧ f q = t := by
  rw [map_eq_edit, items_edit, List.mem_map]
  constructor
  · rintro ⟨i, hi, hit⟩
    cases i with
    | expr e => cases hit
    | nested q => exact ⟨q, hi, Item.nested.inj hit⟩
  · rintro ⟨q, hq, rfl⟩
    exact ⟨_, hq, rfl⟩

theorem refers_map (ctx : Context) (f : σ → τ) (c : Clauses σ) :
    (c.map f).Refers ctx ↔ c.Refers ctx := by
  constructor
  · exact fun h => ⟨fun clause hclause e he =>
      h.passes clause hclause e ((c.expr_mem_items_map f clause e).mpr he), h.assigns⟩
  · exact fun h => ⟨fun clause hclause e he =>
      h.passes clause hclause e ((c.expr_mem_items_map f clause e).mp he), h.assigns⟩

/-! ### Accepted levels -/

/-- What normalization asks of a level, its nested queries aside. -/
structure Accepted (ctx : Context) (c : Clauses Query) : Prop where
  bound : c.sources.isEmpty = false
  operation : ∃ u, c.checkOperation ctx.operation = .ok u
  order : ∃ u, c.checkCombinedOrder = .ok u
  references : c.Refers ctx
  preloads : ∃ u, c.checkPreloads ctx = .ok u
  projection : ∃ r, c.projectFor ctx = .ok r

/-- A nested query normalized, without its projection. -/
def normalized (ctx : Context) (nested : Normalized) : Except PlanError Query := do
  let (query, _) ← nested ctx
  pure query

/-- The nested queries of a level are normalized one by one. -/
theorem guarded_normalized (c : Clauses Normalized) (ctx : Context) :
    Guarded (∀ clause q, .nested q ∈ c.items clause → ∃ r, q ctx = .ok r)
      (c.map fun nested => (normalized ctx nested).toOption.getD default)
      (c.mapM (normalized ctx)).toOption := by
  refine guarded_mapM fun clause q _ => ?_
  unfold normalized
  cases q ctx with
  | error e => exact Guarded.none (by simp)
  | ok r => exact (Guarded.ok r.1).of_eq (by simp) rfl

theorem normalize_ok (c : Clauses Normalized) (ctx : Context) :
    (∃ r, c.normalize ctx = .ok r) ↔ c.sources.isEmpty = false ∧
      (∃ u, c.checkOperation ctx.operation = .ok u) ∧ (∃ u, c.checkCombinedOrder = .ok u) ∧
        ∃ level, c.mapM (normalized (ctx.nested c.queryPrefix)) = .ok level ∧
          ∃ checked, level.checkReferences ctx = .ok checked ∧
            (∃ u, checked.checkPreloads ctx = .ok u) ∧ ∃ r, checked.projectFor ctx = .ok r := by
  unfold normalize
  cases hbound : c.sources.isEmpty with
  | true =>
    simp [throw, throwThe, MonadExceptOf.throw, bind, Except.bind]
  | false =>
    simp only [Bool.false_eq_true, if_false, Except.exists_bind_iff, exists_and_right, true_and,
      Except.ok.injEq, exists_eq', and_true]
    rfl

/-- Of levels of one outline, one is accepted if the other is and its literals have stored forms. -/
theorem Accepted.of_outline_eq {ctx : Context} {c d : Clauses Query} (h : c.Accepted ctx)
    (houtline : c.outline = d.outline) (hstorable : d.Storable ctx)
    (hassigns : ∀ u ∈ d.updates, ∀ field ∈ u.fields, d.Assigns ctx u.op field) :
    d.Accepted ctx where
  bound := by
    have hsources := congrArg (·.sources.isEmpty) houtline
    exact hsources.symm.trans h.bound
  operation := by
    rw [← checkOperation_outline, ← houtline, checkOperation_outline]
    exact h.operation
  order := by
    rw [← checkCombinedOrder_outline, ← houtline, checkCombinedOrder_outline]
    exact h.order
  references := by
    refine (d.refers_iff ctx).mpr ⟨?_, hstorable, hassigns⟩
    rw [← finds_outline, ← houtline, finds_outline]
    exact ((c.refers_iff ctx).mp h.references).1
  preloads := by
    rw [← checkPreloads_outline, ← houtline, checkPreloads_outline]
    exact h.preloads
  projection := by
    rw [← projectFor_outline, ← houtline, projectFor_outline]
    exact h.projection

end Clauses

theorem Query.normalize_mk (c : Clauses Query) :
    normalize ⟨c⟩ = (c.map normalize).normalize := fold_mk _ c

/-- **Normalization accepts a query** if it accepts the level and the queries nested in it. -/
theorem Query.normalize_ok {c : Clauses Query} (hselect : ∀ s, c.select = some s → s.fields = [])
    (ctx : Context) : (∃ r, normalize ⟨c⟩ ctx = .ok r) ↔ c.Accepted ctx ∧
      ∀ clause q, .nested q ∈ c.items clause →
        ∃ r, q.normalize (ctx.nested c.queryPrefix) = .ok r := by
  have hoperation : (c.map normalize).checkOperation ctx.operation =
      c.checkOperation ctx.operation := by
    rw [← Clauses.checkOperation_outline, Clauses.outline_map, Clauses.checkOperation_outline]
  have horder : (∃ u, (c.map normalize).checkCombinedOrder = .ok u) ↔
      ∃ u, c.checkCombinedOrder = .ok u := by
    rw [← Clauses.checkCombinedOrder_outline, Clauses.outline_map,
      Clauses.checkCombinedOrder_outline]
  have hnested := (c.map normalize).guarded_normalized (ctx.nested c.queryPrefix)
  -- the nested queries that come out stand for anything: no later step looks into them
  let level := (c.map normalize).map fun nested =>
    (Clauses.normalized (ctx.nested c.queryPrefix) nested).toOption.getD default
  have hlevel : level.outline = c.outline := by
    rw [Clauses.outline_map, Clauses.outline_map]
  have hreferences : Guarded (c.Refers ctx) (level.dumped ctx)
      (level.checkReferences ctx).toOption :=
    (level.guarded_checkReferences ctx hselect).of_eq
      ((Clauses.refers_map ctx _ _).trans (Clauses.refers_map ctx _ _)) rfl
  have hchecked : (level.dumped ctx).outline = c.outline := (level.outline_dumped ctx).trans hlevel
  have hitems : (∀ clause q, .nested q ∈ (c.map normalize).items clause →
      ∃ r, q (ctx.nested c.queryPrefix) = .ok r) ↔
        ∀ clause q, .nested q ∈ c.items clause →
          ∃ r, q.normalize (ctx.nested c.queryPrefix) = .ok r := by
    simp only [Clauses.nested_mem_items_map]
    exact ⟨fun h clause q hq => h clause _ ⟨q, hq, rfl⟩,
      fun h clause t ⟨q, hq, ht⟩ => ht ▸ h clause q hq⟩
  rw [normalize_mk, Clauses.normalize_ok, hoperation, horder]
  constructor
  · rintro ⟨hbound, hoperation, horder, level', hlevel', checked, hchecked', hpreloads, hproject⟩
    obtain ⟨hnormal, rfl⟩ := hnested.eq_ok_iff.mp hlevel'
    obtain ⟨hrefers, rfl⟩ := hreferences.eq_ok_iff.mp hchecked'
    rw [← Clauses.checkPreloads_outline, hchecked, Clauses.checkPreloads_outline] at hpreloads
    rw [← Clauses.projectFor_outline, hchecked, Clauses.projectFor_outline] at hproject
    exact ⟨⟨hbound, hoperation, horder, hrefers, hpreloads, hproject⟩, hitems.mp hnormal⟩
  · rintro ⟨⟨hbound, hoperation, horder, hrefers, hpreloads, hproject⟩, hnormal⟩
    refine ⟨hbound, hoperation, horder, level, hnested.eq_ok_iff.mpr ⟨hitems.mpr hnormal, rfl⟩,
      level.dumped ctx, hreferences.eq_ok_iff.mpr ⟨hrefers, rfl⟩, ?_, ?_⟩
    · rwa [← Clauses.checkPreloads_outline, hchecked, Clauses.checkPreloads_outline]
    · rwa [← Clauses.projectFor_outline, hchecked, Clauses.projectFor_outline]

end QueryPlanner
