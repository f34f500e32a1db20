import QueryPlanner.Proofs.Plan.Prepared
import QueryPlanner.Proofs.Plan.Reads

/-!
# Reading the clauses of a level

Every clause is read by a step of its own: entry by entry, an entry's expressions in a row, and a
nested query where the entry holds it.  Each step keeps the frame of what it reads and performs the
tasks of the prepared level.

* `Scope.ReadsAs` — syntax without nested queries is read
* `Scope.bindCondition_eq` — an interpolated condition is read as what it is written out as
* `Task.Performs` — a task succeeds
* `Level.performs_bindJoin` and its like — entries that nest queries
-/

namespace QueryPlanner

open HasExprs Binder

variable {σ : Type} {ps qs : List BoundParameter}

/-! ### Syntax without nested queries -/

/-- Syntax is read: its frame stays, and its expressions are read in a row with one type. -/
def Scope.ReadsAs {X : Type} [HasExprs X] (s : Scope) (expected : FieldType) (x : X)
    (ps : List BoundParameter) (y : X) (qs : List BoundParameter) : Prop :=
  frame y = frame x ∧
    Chain (fun e ps a qs => s.Reads e expected ps a qs) (exprs x) ps (exprs y) qs

namespace Scope

variable {s : Scope} {expected : FieldType} {X Y : Type} [HasExprs X]

/-- A list of entries is read entry by entry; `w` is what an entry is prepared as. -/
theorem ReadsAs.list {F : Y → Binder X} {w : Y → X} {xs : List Y} {ys : List X}
    (hF : ∀ x ∈ xs, ∀ ps y qs, (F x).Yields ps y qs → s.ReadsAs expected (w x) ps y qs)
    (h : Yields (xs.mapM F) ps ys qs) : s.ReadsAs expected (xs.map w) ps ys qs := by
  obtain ⟨hframe, hchain⟩ := yields_mapM_flatMap (u := fun x => frame (w x)) (v := frame)
    (s := fun x => exprs (w x)) (t := exprs) hF h
  refine ⟨?_, ?_⟩
  · change ys.map frame = (xs.map w).map frame
    rw [hframe, List.map_map]
    rfl
  · change Chain _ ((xs.map w).flatMap exprs) _ _ _
    rw [List.flatMap_map]
    exact hchain

/-- What may be there is read if it is. -/
theorem ReadsAs.option {F : Y → Binder X} {w : Y → X} {x : Option Y} {y : Option X}
    (hF : ∀ x ps y qs, (F x).Yields ps y qs → s.ReadsAs expected (w x) ps y qs)
    (h : (Level.bindOption F x).Yields ps y qs) : s.ReadsAs expected (x.map w) ps y qs := by
  cases x with
  | none =>
    obtain ⟨rfl, rfl⟩ := yields_pure.mp h
    exact ⟨rfl, .nil⟩
  | some x =>
    obtain ⟨y', hy, rfl⟩ := yields_map.mp h
    obtain ⟨hframe, hchain⟩ := hF x ps y' qs hy
    refine ⟨congrArg some hframe, ?_⟩
    simpa [exprs] using hchain

/-! Steps on the expressions of a part, an order item or a window. -/

section

variable {f : Expr → Binder Expr}
  (hf : ∀ e ps a qs, (f e).Yields ps a qs → s.Reads e expected ps a qs)

include hf

theorem ReadsAs.part {p q : Part Expr} (h : (p.mapM f).Yields ps q qs) :
    s.ReadsAs expected p ps q qs := by
  obtain ⟨hshape, hchain⟩ := Part.yields_mapM h
  have hframe := congrArg (Part.map fun _ => Expr.hole) hshape
  rw [Part.map_map, Part.map_map] at hframe
  exact ⟨hframe, hchain.mono fun e _ => hf e⟩

theorem ReadsAs.ordered {o u : Ordered Expr} (h : (o.mapM f).Yields ps u qs) :
    s.ReadsAs expected o ps u qs := by
  obtain ⟨hshape, hchain⟩ := Ordered.yields_mapM h
  have hframe := congrArg (Ordered.map fun _ => Expr.hole) hshape
  rw [Ordered.map_map, Ordered.map_map] at hframe
  exact ⟨hframe, hchain.mono fun e _ => hf e⟩

theorem ReadsAs.window {v w : Window Expr} (h : (v.mapM f).Yields ps w qs) :
    s.ReadsAs expected v ps w qs := by
  obtain ⟨hshape, hchain⟩ := Window.yields_mapM h
  have hframe := congrArg (Window.map fun _ => Expr.hole) hshape
  rw [Window.map_map, Window.map_map] at hframe
  exact ⟨hframe, hchain.mono fun e _ => hf e⟩

end

/-! ### Whole conditions -/

/-- A field is read as itself. -/
theorem bindExpr_field (ix : Nat) (name : String) (expected : FieldType) :
    s.bindExpr (.field ix name) expected = pure (.field ix name) := by
  rw [bindExpr_mk]
  rfl

theorem yields_field (ix : Nat) (name : String) :
    (s.bindExpr (.field ix name) expected).Yields ps (.field ix name) ps := by
  rw [bindExpr_field]
  exact yields_pure.mpr ⟨rfl, rfl⟩

/-- A conjunction is read side by side. -/
theorem bindExpr_and (left right : Expr) (expected : FieldType) :
    s.bindExpr (left.and right) expected = (do
      let left' ← s.bindExpr left .boolean
      let right' ← s.bindExpr right .boolean
      pure (left'.and right')) := by
  rw [Expr.and, bindExpr_mk]
  rfl

/-- A keyword is read as the test that it stands for, down to the order of its refusals. -/
theorem bindKeyword_eq (ix : Nat) (pair : String × Value) (expected : FieldType) :
    s.bindKeyword ix pair = s.bindExpr (Expr.keywordTest ix pair) expected := by
  rw [Expr.keywordTest, Expr.eq, bindExpr_mk]
  simp only [Node.map, bindNode, bindExpr_field, bindKeyword]
  rw [(operandTypes_pin (rfl : BinaryOp.eq.isComparison = true) ix pair.1 pair.2 expected).1]
  cases s.fieldType ix pair.1 with
  | error e => rfl
  | ok type =>
    cases pair.2 with
    | null => rfl
    | _ =>
      simp only [BinaryOp.isComparison, if_true, Value.isNull, Bool.false_eq_true, if_false,
        bindExpr_mk]
      rfl

/-- The tests of a keyword list are read as the conjunction that they make. -/
theorem bindKeywords_eq (ix : Nat) (pairs : List (String × Value)) :
    (do
      let tests ← pairs.mapM (s.bindKeyword ix)
      pure (conjunction tests)) =
        s.bindExpr (conjunction (pairs.map (Expr.keywordTest ix))) .boolean := by
  -- the conjunction nests to the left, so its first conjuncts are read before the others
  have hfold : ∀ (pairs : List (String × Value)) (first : Expr), (do
      let first' ← s.bindExpr first .boolean
      let tests ← pairs.mapM (s.bindKeyword ix)
      pure (tests.foldl Expr.and first')) =
        s.bindExpr ((pairs.map (Expr.keywordTest ix)).foldl Expr.and first) .boolean := by
    intro pairs
    induction pairs with
    | nil =>
      intro first
      simp
    | cons pair pairs ih =>
      intro first
      rw [List.map_cons, List.foldl_cons, ← ih, bindExpr_and, ← bindKeyword_eq]
      simp only [List.mapM_cons, bind_assoc, pure_bind]
      rfl
  cases pairs with
  | nil =>
    rw [List.map_nil, conjunction, bindExpr_mk]
    rfl
  | cons pair pairs =>
    rw [List.map_cons, conjunction, ← hfold, ← bindKeyword_eq]
    simp only [List.mapM_cons, bind_assoc, pure_bind]
    rfl

/-- **An interpolated condition** is read as what it is written out as. -/
theorem bindCondition_eq (ix : Nat) (e : Expr) :
    s.bindCondition ix e = s.bindExpr (e.opened ix) .boolean := by
  obtain ⟨n⟩ := e
  cases n with
  | keywords pairs => exact bindKeywords_eq ix pairs
  | _ => rfl

end Scope

namespace Level

variable {l : Level} {clause : Clause} {expected : FieldType}

/-- The scope of a clause, apart from messages. -/
def place (l : Level) (clause : Clause) : Scope := l.scope clause ""

theorem reads_bindTop {e a : Expr} (h : (l.bindTop clause expected e).Yields ps a qs) :
    (l.place clause).Reads e expected ps a qs := .bound e.render h

theorem readsAs_bindTop {e a : Expr} (h : (l.bindTop clause expected e).Yields ps a qs) :
    (l.place clause).ReadsAs expected e ps a qs := ⟨rfl, .single (reads_bindTop h)⟩

theorem readsAs_bindParts {parts parts' : List (Part Expr)}
    (h : (l.bindParts clause parts).Yields ps parts' qs) :
    (l.place clause).ReadsAs .any parts ps parts' qs := by
  have hread : ∀ e ps a qs,
      ((l.scope clause (Expr.renderFragment parts)).bindExpr e .any).Yields ps a qs →
        (l.place clause).Reads e .any ps a qs := fun e ps a qs h => .bound _ h
  have hparts := Scope.ReadsAs.list (w := id) (fun p _ ps q qs => Scope.ReadsAs.part hread) h
  rwa [List.map_id] at hparts

theorem readsAs_bindItems {items items' : List (Ordered Expr)}
    (h : (l.bindItems clause items).Yields ps items' qs) :
    (l.place clause).ReadsAs .any items ps items' qs := by
  have hitems := Scope.ReadsAs.list (w := id)
    (fun o _ ps u qs => Scope.ReadsAs.ordered fun e ps a qs => reads_bindTop (l := l)) h
  rwa [List.map_id] at hitems

/-- Fields are read as themselves. -/
theorem chain_fields {s : Scope} {es : List Expr} (h : ∀ e ∈ es, ∃ ix name, e = .field ix name) :
    Chain (fun e ps a qs => s.Reads e expected ps a qs) es ps es ps := by
  induction es with
  | nil => exact .nil
  | cons e es ih =>
    obtain ⟨ix, name, rfl⟩ := h e List.mem_cons_self
    exact .cons (.bound "" (Scope.yields_field ix name))
      (ih fun e he => h e (List.mem_cons_of_mem _ he))

theorem readsAs_bindGroupBy {x y : GroupBy} (h : (l.bindGroupBy x).Yields ps y qs) :
    (l.place .groupBy).ReadsAs .any x.written ps y qs := by
  cases x with
  | exprs es =>
    obtain ⟨es', hes, rfl⟩ := yields_map.mp h
    refine ⟨?_, hes.chain.mono fun e _ ps a qs => reads_bindTop⟩
    simp [frame, rewrite, GroupBy.written, List.map_const', hes.length_mapM]
  | pinned names =>
    obtain ⟨rfl, rfl⟩ := yields_pure.mp h
    refine ⟨rfl, chain_fields fun e he => ?_⟩
    obtain ⟨name, -, rfl⟩ := List.mem_map.mp he
    exact ⟨0, name, rfl⟩

theorem readsAs_bindOrderBy {x y : OrderBy} (h : (l.bindOrderBy x).Yields ps y qs) :
    (l.place .orderBy).ReadsAs .any x.written ps y qs := by
  cases x with
  | items ordered =>
    obtain ⟨ordered', ho, rfl⟩ := yields_map.mp h
    obtain ⟨hframe, hchain⟩ := readsAs_bindItems ho
    exact ⟨congrArg OrderBy.items hframe, hchain⟩
  | pinned names =>
    obtain ⟨rfl, rfl⟩ := yields_pure.mp h
    refine ⟨rfl, chain_fields fun e he => ?_⟩
    obtain ⟨o, ho, he⟩ := List.mem_flatMap.mp he
    obtain ⟨name, -, rfl⟩ := List.mem_map.mp ho
    exact ⟨0, name.2, List.mem_singleton.mp he⟩

theorem readsAs_bindDistinct {x y : Distinct} (h : (l.bindDistinct x).Yields ps y qs) :
    (l.place .distinct).ReadsAs .any x ps y qs := by
  cases x with
  | all =>
    obtain ⟨rfl, rfl⟩ := yields_pure.mp h
    exact ⟨rfl, .nil⟩
  | on items =>
    obtain ⟨items', hitems, rfl⟩ := yields_map.mp h
    obtain ⟨hframe, hchain⟩ := readsAs_bindItems hitems
    exact ⟨congrArg Distinct.on hframe, hchain⟩

theorem readsAs_bindWindow {x y : String × Window Expr} (h : (l.bindWindow x).Yields ps y qs) :
    (l.place .windows).ReadsAs .any x ps y qs := by
  obtain ⟨w, rs, hw, hrest⟩ := yields_bind.mp h
  obtain ⟨rfl, rfl⟩ := yields_pure.mp hrest
  obtain ⟨hframe, hchain⟩ :=
    Scope.ReadsAs.window (fun e ps a qs => reads_bindTop) hw
  exact ⟨congrArg (Prod.mk x.1) hframe, hchain⟩

theorem readsAs_bindSelect {x y : Select} (h : (l.bindSelect x).Yields ps y qs) :
    (l.place .select).ReadsAs .any ({ expr := x.expr } : Select) ps y qs := by
  obtain ⟨e, rs, he, hrest⟩ := yields_bind.mp h
  obtain ⟨rfl, rfl⟩ := yields_pure.mp hrest
  exact ⟨rfl, .single (reads_bindTop he)⟩

theorem readsAs_bindLock {x y : Lock} (h : (l.bindLock x).Yields ps y qs) :
    (l.place .lock).ReadsAs .any x ps y qs := by
  cases x with
  | literal text =>
    obtain ⟨rfl, rfl⟩ := yields_pure.mp h
    exact ⟨rfl, .nil⟩
  | fragment parts =>
    obtain ⟨parts', hparts, rfl⟩ := yields_map.mp h
    obtain ⟨hframe, hchain⟩ := readsAs_bindParts hparts
    exact ⟨congrArg Lock.fragment hframe, hchain⟩

/-! ### Conditions -/

theorem reads_bindCondition {ix : Nat} {e a : Expr}
    (h : (l.bindCondition clause ix e).Yields ps a qs) :
    (l.place clause).Reads (e.opened ix) .boolean ps a qs :=
  .bound e.render (Scope.bindCondition_eq ix e ▸ h)

theorem readsAs_bindConditions {cs cs' : List Condition}
    (h : (l.bindConditions clause cs).Yields ps cs' qs) :
    (l.place clause).ReadsAs .boolean (rewrite (Expr.opened 0) cs) ps cs' qs := by
  refine Scope.ReadsAs.list (w := rewrite (Expr.opened 0)) (fun c _ ps c' qs hc => ?_) h
  obtain ⟨e, rs, he, hresult⟩ := yields_bind.mp hc
  obtain ⟨rfl, rfl⟩ := yields_pure.mp hresult
  exact ⟨rfl, .single (reads_bindCondition he)⟩

end Level

/-! ### Tasks -/

/-- A task succeeds, given the scope of each clause and how nested queries are planned. -/
def Task.Performs (place : Clause → Scope) (plan : σ → Binder Query) (t : Task σ)
    (ps : List BoundParameter) (i : Item Query) (qs : List BoundParameter) : Prop :=
  match t.item, i with
  | .expr e, .expr a => ∃ type, t.expected = some type ∧ (place t.clause).Reads e type ps a qs
  | .nested q, .nested p => (plan q).Yields ps p qs
  | _, _ => False

/-- A task reads an expression or plans a nested query. -/
theorem Task.performs_cases {place : Clause → Scope} {plan : σ → Binder Query} {t : Task σ}
    {i : Item Query} {P : Expr → Prop} {R : σ → Prop} {S : Item Query → Prop}
    (h : t.Performs place plan ps i qs) (ht : t.item.Holds P R)
    (hexpr : ∀ e type a, P e → t.expected = some type →
      (place t.clause).Reads e type ps a qs → S (.expr a))
    (hnested : ∀ q p, R q → (plan q).Yields ps p qs → S (.nested p)) : S i := by
  obtain ⟨clause, expected, item⟩ := t
  cases item with
  | expr e =>
    cases i with
    | expr a =>
      obtain ⟨type, htype, hread⟩ := h
      exact hexpr e type a ht htype hread
    | nested p => cases h
  | nested q =>
    cases i with
    | expr a => cases h
    | nested p => exact hnested q p ht h

/-- To read syntax is to perform the tasks of its expressions. -/
theorem Scope.ReadsAs.performs {X : Type} [HasExprs X] {place : Clause → Scope}
    {plan : σ → Binder Query} {clause : Clause} {expected : FieldType} {x y : X}
    (h : (place clause).ReadsAs expected x ps y qs) :
    Chain (Task.Performs place plan) ((Item.ofExprs x).map (Item.task clause expected)) ps
      (Item.ofExprs y) qs := by
  have hmap := h.2.map (u := fun e => Item.task clause expected (Item.expr e : Item σ))
    (v := Item.expr) (T := Task.Performs place plan)
    fun e ps a qs hread => ⟨expected, rfl, hread⟩
  rw [Item.ofExprs, List.map_map]
  exact hmap

namespace Level

variable {l : Level} {clause : Clause}

/-- A task of the level succeeds. -/
def Performs (l : Level) : Task NestedPlan → List BoundParameter → Item Query →
    List BoundParameter → Prop :=
  Task.Performs l.place l.bindNested

/-- The type of a field of binding 0. -/
def typeOf (l : Level) (name : String) : Option FieldType :=
  ((l.place .update).fieldType 0 name).toOption

theorem performs_bindNested {plan : NestedPlan} {q : Query} {expected : FieldType}
    (h : (l.bindNested plan).Yields ps q qs) :
    l.Performs (Item.task clause expected (.nested plan)) ps (.nested q) qs := h

theorem performs_bindSource {s : Source NestedPlan} {s' : Source Query}
    (h : (l.bindSource clause s).Yields ps s' qs) :
    s'.frame = s.frame ∧ Chain l.Performs (s.items.map (Item.task clause .any)) ps s'.items qs := by
  cases s with
  | table name =>
    obtain ⟨rfl, rfl⟩ := yields_pure.mp h
    exact ⟨rfl, .nil⟩
  | schema table name =>
    obtain ⟨rfl, rfl⟩ := yields_pure.mp h
    exact ⟨rfl, .nil⟩
  | subquery plan =>
    obtain ⟨q, hq, rfl⟩ := yields_map.mp h
    exact ⟨rfl, .single (performs_bindNested hq)⟩
  | fragment parts =>
    obtain ⟨parts', hparts, rfl⟩ := yields_map.mp h
    have hreads := readsAs_bindParts hparts
    exact ⟨congrArg Source.fragment hreads.1, hreads.performs⟩

theorem performs_bindRoot {r : FromClause NestedPlan} {r' : FromClause Query}
    (h : (l.bindRoot r).Yields ps r' qs) :
    r'.edit (fun _ => Expr.hole) (fun _ => ()) = r.edit (fun _ => Expr.hole) (fun _ => ()) ∧
      Chain l.Performs (r.source.items.map (Item.task .fromSource .any)) ps r'.source.items qs := by
  obtain ⟨s, rs, hs, hresult⟩ := yields_bind.mp h
  obtain ⟨rfl, rfl⟩ := yields_pure.mp hresult
  obtain ⟨hframe, hchain⟩ := performs_bindSource hs
  exact ⟨congrArg (FromClause.mk · r.tablePrefix) hframe, hchain⟩

theorem performs_bindCte {c : Cte NestedPlan} {c' : Cte Query}
    (h : (l.bindCte c).Yields ps c' qs) :
    c'.edit (fun _ => Expr.hole) (fun _ => ()) = c.edit (fun _ => Expr.hole) (fun _ => ()) ∧
      Chain l.Performs (c.body.items.map (Item.task .withCte .any)) ps c'.body.items qs := by
  obtain ⟨name, body, recursive⟩ := c
  cases body with
  | query plan =>
    obtain ⟨body', rs, hbody, hresult⟩ := yields_bind.mp h
    obtain ⟨rfl, rfl⟩ := yields_pure.mp hresult
    obtain ⟨q, hq, rfl⟩ := yields_map.mp hbody
    exact ⟨rfl, .single (performs_bindNested hq)⟩
  | fragment parts =>
    obtain ⟨body', rs, hbody, hresult⟩ := yields_bind.mp h
    obtain ⟨rfl, rfl⟩ := yields_pure.mp hresult
    obtain ⟨parts', hparts, rfl⟩ := yields_map.mp hbody
    have hreads := readsAs_bindParts hparts
    exact ⟨congrArg (fun p => Cte.mk name (CteBody.fragment p) recursive) hreads.1,
      hreads.performs⟩

theorem performs_bindCombination {c : Combination NestedPlan} {c' : Combination Query}
    (h : (l.bindCombination c).Yields ps c' qs) :
    c'.map (fun _ => ()) = c.map (fun _ => ()) ∧
      Chain l.Performs [Item.task .combination .any (.nested c.query)] ps
        [.nested c'.query] qs := by
  obtain ⟨q, rs, hq, hresult⟩ := yields_bind.mp h
  obtain ⟨rfl, rfl⟩ := yields_pure.mp hresult
  exact ⟨rfl, .single (performs_bindNested hq)⟩

theorem performs_bindUpdate {u u' : Update} (h : (l.bindUpdate u).Yields ps u' qs) :
    frame u' = frame u ∧ Chain l.Performs (u.tasks l.typeOf) ps (Item.ofExprs u') qs := by
  obtain ⟨fields, rs, hfields, hresult⟩ := yields_bind.mp h
  obtain ⟨rfl, rfl⟩ := yields_pure.mp hresult
  obtain ⟨hframe, hchain⟩ := yields_mapM_flatMap (R := l.Performs)
    (u := fun field => (field.1, Expr.hole)) (v := fun field => (field.1, Expr.hole))
    (s := fun field => [⟨.update, (l.typeOf field.1).map (updateType u.op), .expr field.2⟩])
    (t := fun field => [.expr field.2]) (fun field _ ps y qs hy => by
      obtain ⟨type, htype, hrest⟩ := yields_lift_bind.mp hy
      obtain ⟨e, rs, he, hresult⟩ := yields_bind.mp hrest
      obtain ⟨rfl, rfl⟩ := yields_pure.mp hresult
      have htypeOf : l.typeOf field.1 = some type := by
        have hshowing := Scope.fieldType_showing (s := l.place .update)
          (u.op.name ++ ": [" ++ field.1 ++ ": " ++ field.2.render ++ "]") 0 field.1
        have hsome := congrArg Except.toOption htype
        exact hshowing.symm.trans hsome
      exact ⟨rfl, .single ⟨updateType u.op type, by rw [htypeOf]; rfl, .bound _ he⟩⟩) hfields
  refine ⟨congrArg (Update.mk u.op) hframe, ?_⟩
  rw [← List.map_eq_flatMap, ← List.map_eq_flatMap] at hchain
  have hitems : (Item.ofExprs (⟨u.op, fields⟩ : Update) : List (Item Query)) =
      fields.map fun field => .expr field.2 := by
    change (fields.flatMap fun field => [field.2]).map Item.expr = _
    rw [← List.map_eq_flatMap, List.map_map]
    rfl
  rw [hitems]
  exact hchain

/-- A join is read source, condition, declared condition; what is absent is skipped. -/
theorem bindJoin_eq (j : Join NestedPlan) : l.bindJoin j = (do
    let source ← bindOption (l.bindSource .join) j.source
    let on ← bindOption (l.bindCondition .join (j.ix.getD 0)) j.on
    let declared ← bindOption (l.bindCondition .join (j.ix.getD 0))
      (l.bindings.conditions.lookup (j.ix.getD 0))
    pure { qualifier := j.qualifier, source, on := Expr.conjunction? on declared,
           association := j.association, tablePrefix := j.tablePrefix, ix := j.ix }) := by
  unfold bindJoin
  dsimp only
  cases j.source <;> cases j.on <;> cases l.bindings.conditions.lookup (j.ix.getD 0) <;> rfl

/-- Two conditions that may be there are read as what they make together. -/
theorem readsAs_conjunction {s : Scope} {left right left' right' : Option Expr}
    {rs : List BoundParameter} (hleft : s.ReadsAs .boolean left ps left' rs)
    (hright : s.ReadsAs .boolean right rs right' qs) :
    s.ReadsAs .boolean (Expr.conjunction? left right) ps (Expr.conjunction? left' right') qs := by
  obtain ⟨hframe, hchain⟩ := hleft
  obtain ⟨hframe', hchain'⟩ := hright
  cases left with
  | none =>
    cases left' with
    | some _ => simp [frame, rewrite] at hframe
    | none =>
      cases hchain
      cases right <;> cases right' <;> exact ⟨hframe', hchain'⟩
  | some e =>
    cases left' with
    | none => simp [frame, rewrite] at hframe
    | some a =>
      cases right with
      | none =>
        cases right' with
        | some _ => simp [frame, rewrite] at hframe'
        | none =>
          cases hchain'
          exact ⟨hframe, hchain⟩
      | some e' =>
        cases right' with
        | none => simp [frame, rewrite] at hframe'
        | some a' =>
          refine ⟨rfl, .single ?_⟩
          cases hchain with
          | cons hread hnil =>
            cases hnil
            cases hchain' with
            | cons hread' hnil =>
              cases hnil
              exact .both hread hread'

theorem performs_bindJoin {j : Join NestedPlan} {j' : Join Query}
    (h : (l.bindJoin j).Yields ps j' qs) :
    j'.edit (fun _ => Expr.hole) (fun _ => ()) =
        (j.prepared l.bindings.conditions).edit (fun _ => Expr.hole) (fun _ => ()) ∧
      Chain l.Performs (j.prepared l.bindings.conditions).tasks ps j'.items qs := by
  rw [bindJoin_eq] at h
  obtain ⟨source, rs, hsource, hrest⟩ := yields_bind.mp h
  obtain ⟨on, us, hon, hrest'⟩ := yields_bind.mp hrest
  obtain ⟨declared, vs, hdeclared, hresult⟩ := yields_bind.mp hrest'
  obtain ⟨rfl, rfl⟩ := yields_pure.mp hresult
  have hread : ∀ e ps a qs, (l.bindCondition .join (j.ix.getD 0) e).Yields ps a qs →
      (l.place .join).ReadsAs .boolean (e.opened (j.ix.getD 0)) ps a qs :=
    fun e ps a qs ha => ⟨rfl, .single (reads_bindCondition ha)⟩
  have hcondition := readsAs_conjunction (Scope.ReadsAs.option hread hon)
    (Scope.ReadsAs.option hread hdeclared)
  have hsourceTasks : source.map Source.frame = j.source.map Source.frame ∧
      Chain l.Performs ((j.source.toList.flatMap Source.items).map (Item.task .join .any)) ps
        (source.toList.flatMap Source.items) rs := by
    cases hj : j.source with
    | none =>
      rw [hj] at hsource
      obtain ⟨rfl, rfl⟩ := yields_pure.mp hsource
      exact ⟨rfl, .nil⟩
    | some s =>
      rw [hj] at hsource
      obtain ⟨s', hs, rfl⟩ := yields_map.mp hsource
      obtain ⟨hframe, hchain⟩ := performs_bindSource hs
      exact ⟨congrArg some hframe, by simpa using hchain⟩
  refine ⟨?_, hsourceTasks.2.append hcondition.performs⟩
  have hframe : source.map (Source.edit (fun _ => Expr.hole) fun _ => ()) =
      j.source.map (Source.edit (fun _ => Expr.hole) fun _ => ()) := hsourceTasks.1
  have hon : rewrite (fun _ => Expr.hole) (Expr.conjunction? on declared) =
      rewrite (fun _ => Expr.hole) (j.condition l.bindings.conditions) := hcondition.1
  simp only [Join.edit, Join.prepared, hframe, hon]

end Level

end QueryPlanner
