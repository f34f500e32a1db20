import QueryPlanner.Proofs.CacheKey.Acceptance
import QueryPlanner.Proofs.Normal.Form

/-!
# Normal forms of plans with one key

A key holds literals in their stored forms where they are compared with fields, which is where
normalization puts them in these forms.  So of plans with one key the normal forms are the same:
what normalization does to a level is to put its literals in their stored forms, as the key does,
and then something that can be told from what the key holds.

Fragments in place of common table expressions are the exception.  Their literals are keyed in the
stored forms, but normalization passes them on as they are.

* `Query.bare`, `Query.comparable` — a normal form without what keys leave out
* `Clauses.completed` — what normalization does to a level whose literals are in place
* `Planner.comparable_of_cacheKey_eq` — plans with one key have one normal form
* `Planner.fragments_ne_of_cacheKey_eq` — but for the literals of such fragments
-/

namespace QueryPlanner

open HasExprs

variable {σ τ : Type} {form : List BoundSource → LiteralForm}

/-! ### Comparing normal forms -/

/-- A query without what keys leave out, literals aside: at every level the prefixes that sources
were declared with and the associations of joins are dropped, a join without a condition joins on
truth, and of a type annotation the text is left. -/
def Query.bare : Query → Query := fold fun c => ⟨c.plain.edit (Expr.without .annotations) id⟩

/-- The level with the literals of the fragments in place of its common table expressions in their
stored forms. -/
def Clauses.storedFragments (form : List BoundSource → LiteralForm) (c : Clauses σ) : Clauses σ :=
  { c with ctes := c.ctes.map (Cte.edit (fun e => e.settle (form c.sources) .nothing) id) }

/-- The query with the literals of such fragments in their stored forms at every level. -/
def Query.storedFragments (form : List BoundSource → LiteralForm) : Query → Query :=
  fold fun c => ⟨c.storedFragments form⟩

/-- A normal form without what keys leave out. -/
def Query.comparable (form : List BoundSource → LiteralForm) (q : Query) : Query :=
  (q.storedFragments form).bare

namespace Query

theorem bare_mk (c : Clauses Query) :
    bare ⟨c⟩ = ⟨c.plain.edit (Expr.without .annotations) bare⟩ := by
  rw [bare, fold_mk, Clauses.map_eq_edit, Clauses.plain_edit _ rfl, Clauses.edit_edit]
  rfl

theorem storedFragments_mk (c : Clauses Query) : storedFragments form ⟨c⟩ =
    ⟨(c.storedFragments form).edit id (storedFragments form)⟩ := by
  rw [storedFragments, fold_mk, ← storedFragments, Clauses.map_eq_edit]
  simp only [Clauses.storedFragments, Clauses.edit, List.map_map, Cte.edit_edit, Function.comp_def,
    id]

theorem comparable_mk (c : Clauses Query) : comparable form ⟨c⟩ =
    ⟨(c.storedFragments form).plain.edit (Expr.without .annotations) (comparable form)⟩ := by
  rw [comparable, storedFragments_mk, bare_mk, Clauses.plain_edit _ rfl, Clauses.edit_edit]
  rfl

end Query

/-! ### Literals that are assigned -/

namespace Expr

/-- A literal in the stored form of a type, if there is one; anything else as it is. -/
def dumpedAs (conversions : Conversions) (type? : Option FieldType) (e : Expr) : Expr :=
  match e, type? with
  | .literal value, some type => .literal ((conversions.dump type value).toOption.getD value)
  | e, _ => e

variable {conversions : Conversions} {type? : Option FieldType} {e : Expr}

theorem dumpedAs_of_not_literal (h : ∀ value, e ≠ .literal value) :
    e.dumpedAs conversions type? = e := by
  unfold dumpedAs
  split
  · exact absurd rfl (h _)
  · rfl

theorem KeepsLiterals.dumpedAs {f : Expr → Expr} (hf : KeepsLiterals f) (e : Expr) :
    (f e).dumpedAs conversions type? = f (e.dumpedAs conversions type?) := by
  by_cases hliteral : ∃ value, e = .literal value
  · obtain ⟨value, rfl⟩ := hliteral
    rw [(hf _ value).mpr rfl]
    cases type? with
    | none => exact ((hf _ value).mpr rfl).symm
    | some type => exact ((hf _ _).mpr rfl).symm
  · have hplain : ∀ value, e ≠ .literal value := fun value he => hliteral ⟨value, he⟩
    rw [dumpedAs_of_not_literal hplain,
      dumpedAs_of_not_literal fun value he => hplain value ((hf e value).mp he)]

end Expr

/-! ### What is left to do to a level -/

namespace Clauses

variable (ctx : Context) (c : Clauses Query)

/-- The level with literals that are assigned in their stored forms. -/
def storedAssignments : Clauses Query :=
  { c with
    updates := c.updates.map fun u => { u with
      fields := u.fields.map fun field =>
        (field.1, field.2.dumpedAs ctx.conversions (c.assignedAt? ctx u.op field.1)) } }

/-- What is left of normalization once the other literals of a level are in their stored forms. -/
def completed : Clauses Query := ((c.storedAssignments ctx).filled ctx).prune

theorem assigned_eq (type? : Option FieldType) (e : Expr) :
    c.assigned ctx type? e = (c.passed ctx e).dumpedAs ctx.conversions type? := by
  have hkeeps := Expr.keepsLiterals_settle (literalForm ctx c.sources)
  have hdumped : c.assigned ctx type? e = c.passed ctx (e.dumpedAs ctx.conversions type?) := by
    obtain ⟨n⟩ := e
    cases n with
    | literal value => cases type? <;> exact ((hkeeps _ _).mpr rfl).symm
    | _ => rfl
  rw [hdumped]
  exact (hkeeps.dumpedAs e).symm

/-- The normal form of a level, the literals of all its fragments being in their stored forms. -/
theorem storedFragments_normal : (c.normal ctx).storedFragments (literalForm ctx) =
    (c.edit (c.passed ctx) id).completed ctx := by
  have hdumped : (c.dumped ctx).storedFragments (literalForm ctx) =
      (c.edit (c.passed ctx) id).storedAssignments ctx := by
    have hupdates : (c.dumped ctx).updates =
        ((c.edit (c.passed ctx) id).storedAssignments ctx).updates := by
      simp only [dumped, storedAssignments, edit, rewrite, List.map_map, Function.comp_def,
        assigned_eq]
      rfl
    have hcombinations : c.combinations = c.combinations.map (Combination.map id) :=
      (List.map_id c.combinations).symm
    exact (Clauses.mk.injEq ..).mpr ⟨rfl, rfl, rfl, rfl, rfl, rfl, rfl, rfl, rfl, rfl, hupdates,
      rfl, hcombinations, rfl, rfl, rfl, rfl, rfl⟩
  rw [← prune_filled_dumped, completed, ← hdumped]
  unfold filled
  cases ctx.operation <;> rfl

/-! What is left to do does not depend on what keys leave out. -/

section

variable {ctx c} {f : Expr → Expr} {g : Query → Query}

/-- Entries are dropped alike before and after their expressions are replaced. -/
theorem rewrite_filter {X : Type} [HasExprs X] {isEmpty : X → Bool}
    (h : ∀ x, isEmpty (rewrite f x) = isEmpty x) (xs : List X) :
    rewrite f (xs.filter (!isEmpty ·)) = (rewrite f xs).filter (!isEmpty ·) := by
  simp only [rewrite, List.filter_map, Function.comp_def, h]

theorem sourceAt?_plain_edit (text text' : String) (ix : Nat) :
    Selection.sourceAt? ⟨ctx, c.plain.edit f g, text⟩ ix =
      (Selection.sourceAt? ⟨ctx, c, text'⟩ ix).map (Source.edit f g) := by
  unfold Selection.sourceAt?
  split
  · simp only [plain, edit]
    cases c.root <;> rfl
  · have hix : ∀ j : Join Query, (j.plain.edit f g).ix = j.ix := fun _ => rfl
    simp only [plain, edit, List.map_map, List.find?_map, Function.comp_def, hix]
    cases c.joins.find? (·.ix == some ix) <;> rfl

/-- What a level's columns depend on stays, if nested queries expose the same names. -/
theorem projectable_plain_edit (hg : ∀ q, (g q).exposedNames = q.exposedNames) :
    (c.plain.edit f g).projectable ctx = c.projectable ctx := by
  have hexposed : ∀ ix, (Selection.subqueryAt? ⟨ctx, c.plain.edit f g, ""⟩ ix).elim []
      Query.exposedNames = (Selection.subqueryAt? ⟨ctx, c, ""⟩ ix).elim [] Query.exposedNames := by
    intro ix
    unfold Selection.subqueryAt?
    rw [sourceAt?_plain_edit "" ""]
    cases Selection.sourceAt? ⟨ctx, c, ""⟩ ix with
    | none => rfl
    | some source =>
      cases source with
      | subquery q => exact hg q
      | _ => rfl
  unfold projectable Selection.projectable
  exact congrArg (Projectable.mk _ · _) (funext hexposed)

theorem plain_edit_prune : c.prune.plain.edit f g = (c.plain.edit f g).prune := by
  have hgroupBy : ∀ x : GroupBy, (rewrite f x).isEmpty = x.isEmpty := by
    intro x
    cases x with
    | exprs es => simp [rewrite, GroupBy.isEmpty]
    | pinned names => rfl
  have horderBy : ∀ x : OrderBy, (rewrite f x).isEmpty = x.isEmpty := by
    intro x
    cases x with
    | items items => simp [rewrite, OrderBy.isEmpty]
    | pinned names => rfl
  simp only [prune, plain, edit, rewrite_filter (f := f) hgroupBy, rewrite_filter (f := f) horderBy]

theorem plain_edit_storedAssignments (hf : Expr.KeepsLiterals f) :
    (c.storedAssignments ctx).plain.edit f g = (c.plain.edit f g).storedAssignments ctx := by
  have hupdates : ((c.storedAssignments ctx).plain.edit f g).updates =
      ((c.plain.edit f g).storedAssignments ctx).updates := by
    simp only [storedAssignments, plain, edit, rewrite, List.map_map, Function.comp_def,
      hf.dumpedAs]
    rfl
  exact (Clauses.mk.injEq ..).mpr ⟨rfl, rfl, rfl, rfl, rfl, rfl, rfl, rfl, rfl, rfl, hupdates, rfl,
    rfl, rfl, rfl, rfl, rfl, rfl⟩

theorem plain_edit_filled (hg : ∀ q, (g q).exposedNames = q.exposedNames) :
    (c.filled ctx).plain.edit (Expr.without .annotations) g =
      (c.plain.edit (Expr.without .annotations) g).filled ctx := by
  have hselected : (c.plain.edit (Expr.without .annotations) g).selected =
      c.selected.without .annotations := by
    unfold selected
    simp only [plain, edit]
    cases c.select with
    | none =>
      rw [Option.map_none, Option.getD_none, Expr.binding, Expr.without_mk]
      rfl
    | some s => rfl
  have hcolumns : ((c.plain.edit (Expr.without .annotations) g).columns ctx).fields =
      (c.columns ctx).fields.map (Expr.without .annotations) := by
    rw [columns, projectable_plain_edit hg, hselected,
      Projectable.expansion_without_annotations]
    rfl
  unfold filled
  cases ctx.operation with
  | all =>
    simp only [hselected, hcolumns]
    rfl
  | updateAll | deleteAll => rfl

theorem plain_edit_completed (hg : ∀ q, (g q).exposedNames = q.exposedNames) :
    (c.completed ctx).plain.edit (Expr.without .annotations) g =
      (c.plain.edit (Expr.without .annotations) g).completed ctx := by
  rw [completed, plain_edit_prune, plain_edit_filled hg,
    plain_edit_storedAssignments Expr.keepsLiterals_annotations]
  rfl

end

end Clauses

/-! ### Queries -/

namespace Query

/-- The names under which columns can be read are not among what keys leave out. -/
theorem exposedNames_comparable (q : Query) :
    (q.comparable form).exposedNames = q.exposedNames := by
  have hname : ∀ e : Expr, exposedName? (e.without .annotations) = exposedName? e := by
    rintro ⟨n⟩
    rw [Expr.without_mk]
    cases n <;> rfl
  obtain ⟨c⟩ := q
  rw [comparable_mk]
  simp only [exposedNames, Clauses.edit, Clauses.plain, Clauses.storedFragments]
  cases c.select with
  | none => rfl
  | some s =>
    simp only [rewrite, Option.map_some, List.filterMap_map]
    exact List.filterMap_congr fun e _ => hname e

/-- A level put together from a planned one as its key is, but from normal forms. -/
theorem comparable_normal_mk (ctx : Context) (c : Clauses Query) :
    (normal ⟨c⟩ ctx).comparable (Clauses.literalForm ctx) =
      ⟨(c.plain.edit (fun e => (c.passed ctx e).without .annotations) fun q =>
        (q.normal (ctx.nested c.queryPrefix)).comparable (Clauses.literalForm ctx)).completed
          ctx⟩ := by
  have hpassed : (c.nestedNormal ctx).passed ctx = c.passed ctx := rfl
  rw [normal_mk, comparable_mk, Clauses.storedFragments_normal,
    Clauses.plain_edit_completed exposedNames_comparable, hpassed, Clauses.nestedNormal,
    Clauses.edit_edit, Clauses.plain_edit _ rfl, Clauses.edit_edit]
  rfl

/-- **Queries with one canonical query** have one normal form, but for what keys leave out. -/
theorem comparable_of_canonical_eq (q₁ : Query) : ∀ (q₂ : Query) (ctx : Context),
    q₁.canonical (Clauses.literalForm ctx) = q₂.canonical (Clauses.literalForm ctx) →
      (q₁.normal ctx).comparable (Clauses.literalForm ctx) =
        (q₂.normal ctx).comparable (Clauses.literalForm ctx) := by
  refine induction_items (P := fun q₁ => ∀ (q₂ : Query) (ctx : Context),
    q₁.canonical (Clauses.literalForm ctx) = q₂.canonical (Clauses.literalForm ctx) →
      (q₁.normal ctx).comparable (Clauses.literalForm ctx) =
        (q₂.normal ctx).comparable (Clauses.literalForm ctx)) ?_ q₁
  rintro c ih ⟨d⟩ ctx h
  rw [canonical_mk, canonical_mk] at h
  have hlevels := Query.mk.inj h
  have hsources : c.sources = d.sources := congrArg (·.sources) hlevels
  have hprefix : c.queryPrefix = d.queryPrefix := congrArg (·.queryPrefix) hlevels
  simp only [comparable_normal_mk, Clauses.passed, ← hsources, ← hprefix] at hlevels ⊢
  refine congrArg (fun c => Query.mk (Clauses.completed ctx c)) (Clauses.ext_items ?_ ?_)
  · have hframes := congrArg Clauses.frame hlevels
    rwa [Clauses.frame_edit, Clauses.frame_edit] at hframes ⊢
  · intro clause
    have hitems := congrArg (·.items clause) hlevels
    simp only [Clauses.items_edit] at hitems ⊢
    refine List.map_eq_of_map_eq (fun i hi j hj hij => ?_) hitems
    cases i with
    | expr e =>
      cases j with
      | expr e' => exact congrArg Item.expr (Item.expr.inj hij)
      | nested q' => cases hij
    | nested q =>
      cases j with
      | expr e' => cases hij
      | nested q' =>
        rcases Clauses.mem_items_plain hi with hi | hi
        · exact congrArg Item.nested
            (ih clause q hi q' (ctx.nested c.queryPrefix) (Item.nested.inj hij))
        · cases hi

end Query

/-! ### Plans -/

/-- **Plans with one key have one normal form.**  For all queries without placeholders of their own
that a planner plans for one operation on one database with equal keys: if normalization accepts
both planned queries, then what they are normalized to is the same at every depth, up to what
`Query.comparable` drops.  So literals are the same, but in fragments in place of common table
expressions only once they are in their stored forms. -/
theorem Planner.comparable_of_cacheKey_eq (p : Planner) (q₁ q₂ : Query) (operation : Operation)
    (caps : Capabilities) (plan₁ plan₂ : Plan) (nodes : List KeyNode) (normal₁ normal₂ : Query)
    (projection₁ projection₂ : Projection)
    (hq₁ : q₁.slots .all = []) (hq₂ : q₂.slots .all = [])
    (h₁ : p.plan q₁ operation caps = .ok plan₁) (h₂ : p.plan q₂ operation caps = .ok plan₂)
    (hkey₁ : plan₁.cacheKey = .key nodes) (hkey₂ : plan₂.cacheKey = .key nodes)
    (hnormal₁ : p.normalize plan₁.query operation caps = .ok (normal₁, projection₁))
    (hnormal₂ : p.normalize plan₂.query operation caps = .ok (normal₂, projection₂)) :
    normal₁.comparable (Clauses.literalForm (p.context operation caps)) =
      normal₂.comparable (Clauses.literalForm (p.context operation caps)) := by
  obtain ⟨hplanned₁, hlegible₁, hcode₁, hslots₁⟩ := Planner.plan_keyed hq₁ h₁ hkey₁
  obtain ⟨hplanned₂, hlegible₂, hcode₂, hslots₂⟩ := Planner.plan_keyed hq₂ h₂ hkey₂
  obtain ⟨-, hcanonical⟩ := Query.canonical_eq_of_code_eq hplanned₁ hplanned₂ hlegible₁ hlegible₂
    (hcode₁.symm.trans hcode₂) hslots₁ hslots₂
  obtain ⟨rfl, -⟩ := Prod.mk.inj (hplanned₁.normalize_eq hnormal₁)
  obtain ⟨rfl, -⟩ := Prod.mk.inj (hplanned₂.normalize_eq hnormal₂)
  exact Query.comparable_of_canonical_eq _ _ _ hcanonical

/-- The literals of a query in reading order. -/
def Query.literals (q : Query) : List Value :=
  (q.reading .all).flatMap fun e => e.walk.filterMap fun
    | .literal value => some value
    | _ => none

/-- What becomes of a query that is planned and normalized: its key, and the literals of its normal
form. -/
def Planner.keyedLiterals (p : Planner) (q : Query) : Option (CacheKey × List Value) := do
  let plan ← (p.plan q .all Dialect.postgres.capabilities).toOption
  let (normal, _) ← (p.normalize plan.query .all Dialect.postgres.capabilities).toOption
  some (plan.cacheKey, normal.bare.literals)

theorem Planner.exists_normal_of_keyedLiterals {p : Planner} {q : Query} {nodes : List KeyNode}
    {values : List Value} (h : p.keyedLiterals q = some (.key nodes, values)) :
    ∃ plan normal projection, p.plan q .all Dialect.postgres.capabilities = .ok plan ∧
      plan.cacheKey = .key nodes ∧
      p.normalize plan.query .all Dialect.postgres.capabilities = .ok (normal, projection) ∧
      normal.bare.literals = values := by
  obtain ⟨plan, hplan, hrest⟩ := Option.bind_eq_some_iff.mp h
  obtain ⟨⟨normal, projection⟩, hnormal, hsame⟩ := Option.bind_eq_some_iff.mp hrest
  obtain ⟨hkey, hvalues⟩ := Prod.mk.inj (Option.some.inj hsame)
  exact ⟨plan, normal, projection, Except.toOption_eq_some_iff.mp hplan, hkey,
    Except.toOption_eq_some_iff.mp hnormal, hvalues⟩

/-- The token of an identifier, beside a fragment that asks for it too. -/
def Query.tokenBeside (id : Value) : Query :=
  (tokenOf id).modify fun c => { c with
    ctes := [⟨"one", .fragment [.raw "select ", .term ((Expr.field 0 "id").eq (.literal id))],
      false⟩] }

/-- The key of its plan, given the stored form of the identifier. -/
def Query.tokenBesideKey (stored : Value) : List KeyNode :=
  let test : KeyNode := .tagged "==" [.tagged "field" [.ofBinding 0, .atom "id"], .value stored]
  [.atom "all",
    .tagged "with_cte"
      [.tagged "cte" [.atom "one", .tagged "fragment" [.atom "select ", test]]],
    .tagged "from" [.tagged "source" [.atom "tokens", .atom "Token", .null]],
    .tagged "where" [.tagged "and" [test]]]

/-- An identifier spelled in capitals, without hyphens. -/
def Value.tokenCapital : Value := .string "00112233445566778899AABBCCDDEEFF"

/-- The same identifier spelled with hyphens. -/
def Value.tokenHyphenated : Value := .string "00112233-4455-6677-8899-aabbccddeeff"

/-- Either spelling has the same key.  Normalization passes it on in the fragment, which is read
first, and puts it in its stored form in the condition. -/
theorem Planner.keyedLiterals_tokenBeside :
    ofTokens.keyedLiterals (.tokenBeside .tokenCapital) =
      some (.key (Query.tokenBesideKey .tokenBytes), [.tokenCapital, .tokenBytes]) ∧
    ofTokens.keyedLiterals (.tokenBeside .tokenHyphenated) =
      some (.key (Query.tokenBesideKey .tokenBytes), [.tokenHyphenated, .tokenBytes]) := by
  constructor
  · decide +kernel
  · decide +kernel

/-- Either spelling comes to the same condition, and to the same fragment once that is stored
too. -/
theorem Planner.comparable_of_cacheKey_eq_spelled :
    ∃ (plan₁ plan₂ : Plan) (normal₁ normal₂ : Query) (projection₁ projection₂ : Projection),
      ofTokens.plan (.tokenBeside .tokenCapital) .all
        Dialect.postgres.capabilities = .ok plan₁ ∧
      ofTokens.plan (.tokenBeside .tokenHyphenated) .all
        Dialect.postgres.capabilities = .ok plan₂ ∧
      plan₁.cacheKey = .key (Query.tokenBesideKey .tokenBytes) ∧
      plan₂.cacheKey = .key (Query.tokenBesideKey .tokenBytes) ∧
      ofTokens.normalize plan₁.query .all Dialect.postgres.capabilities =
        .ok (normal₁, projection₁) ∧
      ofTokens.normalize plan₂.query .all Dialect.postgres.capabilities =
        .ok (normal₂, projection₂) ∧
      normal₁.comparable
          (Clauses.literalForm (ofTokens.context .all Dialect.postgres.capabilities)) =
        normal₂.comparable
          (Clauses.literalForm (ofTokens.context .all Dialect.postgres.capabilities)) := by
  obtain ⟨houtcome₁, houtcome₂⟩ := keyedLiterals_tokenBeside
  obtain ⟨plan₁, normal₁, projection₁, h₁, hkey₁, hnormal₁, -⟩ :=
    exists_normal_of_keyedLiterals houtcome₁
  obtain ⟨plan₂, normal₂, projection₂, h₂, hkey₂, hnormal₂, -⟩ :=
    exists_normal_of_keyedLiterals houtcome₂
  exact ⟨plan₁, plan₂, normal₁, normal₂, projection₁, projection₂, h₁, h₂, hkey₁, hkey₂, hnormal₁,
    hnormal₂, comparable_of_cacheKey_eq ofTokens _ _ .all _ plan₁ plan₂ _ normal₁ normal₂
      projection₁ projection₂ (by decide +kernel) (by decide +kernel) h₁ h₂ hkey₁ hkey₂ hnormal₁
      hnormal₂⟩

/-- But the fragment is passed on as it is spelled: plans with one key have two normal forms that
differ in more than what keys leave out. -/
theorem Planner.fragments_ne_of_cacheKey_eq :
    ∃ (plan₁ plan₂ : Plan) (nodes : List KeyNode) (normal₁ normal₂ : Query)
        (projection₁ projection₂ : Projection),
      (Query.tokenBeside .tokenCapital).slots .all = [] ∧
      (Query.tokenBeside .tokenHyphenated).slots .all = [] ∧
      ofTokens.plan (.tokenBeside .tokenCapital) .all
        Dialect.postgres.capabilities = .ok plan₁ ∧
      ofTokens.plan (.tokenBeside .tokenHyphenated) .all
        Dialect.postgres.capabilities = .ok plan₂ ∧
      plan₁.cacheKey = .key nodes ∧ plan₂.cacheKey = .key nodes ∧
      ofTokens.normalize plan₁.query .all Dialect.postgres.capabilities =
        .ok (normal₁, projection₁) ∧
      ofTokens.normalize plan₂.query .all Dialect.postgres.capabilities =
        .ok (normal₂, projection₂) ∧
      normal₁.bare ≠ normal₂.bare := by
  obtain ⟨houtcome₁, houtcome₂⟩ := keyedLiterals_tokenBeside
  obtain ⟨plan₁, normal₁, projection₁, h₁, hkey₁, hnormal₁, hliterals₁⟩ :=
    exists_normal_of_keyedLiterals houtcome₁
  obtain ⟨plan₂, normal₂, projection₂, h₂, hkey₂, hnormal₂, hliterals₂⟩ :=
    exists_normal_of_keyedLiterals houtcome₂
  refine ⟨plan₁, plan₂, _, normal₁, normal₂, projection₁, projection₂, by decide +kernel,
    by decide +kernel, h₁, h₂, hkey₁, hkey₂, hnormal₁, hnormal₂, fun hsame => ?_⟩
  have hne : [Value.tokenHyphenated, .tokenBytes] ≠ [.tokenCapital, .tokenBytes] := by
    decide +kernel
  exact hne (hliterals₂.symm.trans ((congrArg Query.literals hsame).symm.trans hliterals₁))

end QueryPlanner
