import QueryPlanner.Proofs.CacheKey.Faithful
import QueryPlanner.Proofs.Normal.Level

/-!
# Which plans of one key are accepted

A key holds a literal that is compared with a field in its stored form, or as it is if it has none.
What is otherwise decisive for normalization can be told from the key.  So if normalization accepts
one of two plans with one key, it refuses the other for nothing but a literal without stored form.

* `Query.Storable` — every literal that is compared with a field has a stored form
* `Query.normalize_of_canonical_eq` — otherwise acceptance depends on the canonical query only
* `Planner.normalize_of_cacheKey_eq` — which plans of one key are accepted
-/

namespace QueryPlanner

open HasExprs

variable {form : List BoundSource → LiteralForm}

/-- Of lists that agree under a function, each element of one agrees with one of the other. -/
theorem List.exists_mem_of_map_eq {α β : Type} {f : α → β} {xs ys : List α}
    (h : xs.map f = ys.map f) {y : α} (hy : y ∈ ys) : ∃ x ∈ xs, f x = f y :=
  List.mem_map.mp (h ▸ List.mem_map_of_mem hy)

/-- A query in which every literal that is compared with a stored field, or listed against one, has
a stored form, fragments in place of common table expressions aside. -/
inductive Query.Storable (ctx : Context) : Query → Prop
  | mk {c : Clauses Query} (level : c.Storable ctx)
    (nested : ∀ clause q, .nested q ∈ c.items clause → q.Storable ctx) : Storable ctx ⟨c⟩

/-- An expression as a canonical query holds it, without numbers of placeholders. -/
def Expr.canonical (form : LiteralForm) (e : Expr) : Expr :=
  ((e.settle form .nothing).without .annotations).without .numbers

theorem Expr.blank_canonical (form : LiteralForm) (e : Expr) :
    (e.canonical form).blank = e.blank := by
  have hnumbers : ∀ n : Node Expr, (Detail.numbers.forget n).blank = n.blank := by
    intro n
    cases n <;> rfl
  have hannotations : ∀ n : Node Expr, (Detail.annotations.forget n).blank = n.blank := by
    intro n
    cases n <;> rfl
  rw [canonical, blank_without hnumbers, blank_without hannotations, blank_settle]

/-- A replacement that leaves literals as they are and makes no others. -/
def Expr.KeepsLiterals (f : Expr → Expr) : Prop :=
  ∀ e value, f e = .literal value ↔ e = .literal value

namespace Expr

theorem KeepsLiterals.comp {f g : Expr → Expr} (hg : KeepsLiterals g) (hf : KeepsLiterals f) :
    KeepsLiterals (g ∘ f) := fun e value => (hg (f e) value).trans (hf e value)

theorem keepsLiterals_settle (form : LiteralForm) :
    KeepsLiterals fun e => e.settle form .nothing := by
  rintro ⟨n⟩ value
  change settle form ⟨n⟩ .nothing = .literal value ↔ _
  rw [settle_mk]
  cases n with
  | literal v => exact Iff.rfl
  | binary op left right =>
    cases hop : op.isComparison <;> simp [Node.against, hop, Node.map, Node.stored]
  | _ =>
    constructor
    · intro h
      cases h
    · intro h
      cases h

theorem keepsLiterals_without {δ : Type} {d : Detail δ}
    (hd : ∀ (n : Node Expr) value, d.forget n = .literal value ↔ n = .literal value) :
    KeepsLiterals (without d) := by
  rintro ⟨n⟩ value
  have hmap : n.map (without d) = .literal value ↔ n = .literal value := by
    cases n <;> simp [Node.map]
  rw [without_mk, mk.injEq, mk.injEq]
  exact (hd _ value).trans hmap

theorem keepsLiterals_annotations : KeepsLiterals (without .annotations) :=
  keepsLiterals_without fun n value => by cases n <;> simp [Detail.annotations]

theorem keepsLiterals_numbers : KeepsLiterals (without .numbers) :=
  keepsLiterals_without fun n value => by cases n <;> simp [Detail.numbers]

/-- Only literals are canonical literals. -/
theorem canonical_eq_literal {form : LiteralForm} {e : Expr} {value : Value} :
    e.canonical form = .literal value ↔ e = .literal value :=
  keepsLiterals_numbers.comp (keepsLiterals_annotations.comp (keepsLiterals_settle form)) e value

end Expr

namespace Clauses

/-- A level as a canonical query holds it, without numbers of placeholders. -/
def canonical (form : List BoundSource → LiteralForm) (c : Clauses Query) : Clauses Query :=
  c.plain.edit (Expr.canonical (form c.sources)) fun q => (q.canonical form).without .numbers

variable {c d : Clauses Query}

theorem canonical_eq_of_eq
    (h : (Query.canonical form ⟨c⟩).without .numbers =
      (Query.canonical form ⟨d⟩).without .numbers) :
    c.canonical form = d.canonical form := by
  rw [Query.canonical_mk, Query.canonical_mk, Query.without_mk, Query.without_mk, edit_edit,
    edit_edit] at h
  exact Query.mk.inj h

theorem outline_eq_of_canonical_eq (h : c.canonical form = d.canonical form) :
    c.outline = d.outline := by
  have houtline : ∀ c : Clauses Query,
      (c.canonical form).edit Expr.blank (fun _ => Query.empty) = c.outline := by
    intro c
    have hblank : Expr.blank ∘ Expr.canonical (form c.sources) = Expr.blank :=
      funext (Expr.blank_canonical _)
    rw [canonical, edit_edit, hblank]
    rfl
  rw [← houtline c, h, houtline]

theorem assigns_of_canonical_eq {ctx : Context} (h : c.canonical form = d.canonical form)
    (hc : ∀ u ∈ c.updates, ∀ field ∈ u.fields, c.Assigns ctx u.op field) :
    ∀ u ∈ d.updates, ∀ field ∈ u.fields, d.Assigns ctx u.op field := by
  have hsources : c.sources = d.sources :=
    (congrArg Clauses.sources h : (c.canonical form).sources = (d.canonical form).sources)
  have hupdates : c.updates.map (rewrite (Expr.canonical (form c.sources))) =
      d.updates.map (rewrite (Expr.canonical (form c.sources))) := by
    have hboth : (c.canonical form).updates = (d.canonical form).updates :=
      congrArg Clauses.updates h
    exact hboth.trans (by rw [hsources]; rfl)
  intro u hu field hfield
  obtain ⟨u', hu', hsame⟩ := List.exists_mem_of_map_eq hupdates hu
  obtain ⟨hop, hfields⟩ := Update.mk.inj hsame
  obtain ⟨field', hfield', hassigned⟩ := List.exists_mem_of_map_eq hfields hfield
  obtain ⟨hname, hexpr⟩ := Prod.mk.inj hassigned
  obtain ⟨hfound, hstored⟩ := hc u' hu' field' hfield'
  have htype : c.assignedAt? ctx u'.op field'.1 = d.assignedAt? ctx u.op field.1 := by
    rw [assignedAt?, assignedAt?, hop, hname, hsources]
  refine ⟨hsources ▸ hname ▸ hfound, fun value type hvalue hd => ?_⟩
  have hliteral : field'.2.canonical (form c.sources) = .literal value :=
    hexpr.trans (Expr.canonical_eq_literal.mpr hvalue)
  exact hstored value type (Expr.canonical_eq_literal.mp hliteral) (htype.trans hd)

theorem exists_nested_of_canonical_eq (h : c.canonical form = d.canonical form) {clause : Clause}
    {q : Query} (hq : .nested q ∈ d.items clause) : ∃ q', .nested q' ∈ c.items clause ∧
      (q'.canonical form).without .numbers = (q.canonical form).without .numbers := by
  have hitems := congrArg (·.items clause) h
  simp only [canonical, items_edit] at hitems
  obtain ⟨i, hi, hsame⟩ := List.mem_map.mp (hitems ▸ List.mem_map_of_mem (mem_plain_items hq))
  cases i with
  | expr e => cases hsame
  | nested q' =>
    rcases mem_items_plain hi with hi | hi
    · exact ⟨q', hi, Item.nested.inj hsame⟩
    · cases hi

end Clauses

namespace Query

/-- Nested queries look up the same schemas and types. -/
theorem storable_nested {q : Query} {ctx : Context} {parentPrefix : Option String} :
    q.Storable (ctx.nested parentPrefix) ↔ q.Storable ctx := by
  constructor
  · intro h
    induction h with
    | mk level _ ih => exact .mk level ih
  · intro h
    induction h with
    | mk level _ ih => exact .mk level ih

/-- What normalization accepts has stored forms for what it compares with fields. -/
theorem Planned.storable_of_normalize {q : Query} (hq : q.Planned) : ∀ {ctx : Context},
    (∃ r, q.normalize ctx = .ok r) → q.Storable ctx := by
  induction hq with
  | @mk c level _ ih =>
    intro ctx h
    obtain ⟨haccepted, hnested⟩ := (normalize_ok level.select ctx).mp h
    have hstorable := ((c.refers_iff ctx).mp haccepted.references).2.1
    exact .mk hstorable fun clause q hq =>
      storable_nested.mp (ih clause q hq (hnested clause q hq))

/-- **Of two planned queries with one canonical query**, one is accepted if the other is and its
literals have stored forms where they are compared with fields. -/
theorem Planned.normalize_of_canonical_eq {q₂ : Query} (h₂ : q₂.Planned) :
    ∀ {q₁ : Query} {ctx : Context}, q₁.Planned →
      (q₁.canonical (Clauses.literalForm ctx)).without .numbers =
        (q₂.canonical (Clauses.literalForm ctx)).without .numbers →
      (∃ r, q₁.normalize ctx = .ok r) → q₂.Storable ctx → ∃ r, q₂.normalize ctx = .ok r := by
  induction h₂ with
  | @mk d level _ ih =>
    intro q₁ ctx h₁ hcanonical haccepted hstorable
    obtain ⟨hlevel₁, hnested₁⟩ := h₁
    rename_i c
    obtain ⟨hlevel, hnested⟩ := hstorable
    have hlevels := Clauses.canonical_eq_of_eq hcanonical
    obtain ⟨hc, hnormal⟩ := (normalize_ok hlevel₁.select ctx).mp haccepted
    have hassigns := Clauses.assigns_of_canonical_eq hlevels hc.references.assigns
    refine (normalize_ok level.select ctx).mpr ⟨hc.of_outline_eq
      (Clauses.outline_eq_of_canonical_eq hlevels) hlevel hassigns, fun clause q hq => ?_⟩
    obtain ⟨q', hq', hsame⟩ := Clauses.exists_nested_of_canonical_eq hlevels hq
    have hprefix : c.queryPrefix = d.queryPrefix := congrArg (·.queryPrefix) hlevels
    have hnormal' := hprefix ▸ hnormal clause q' hq'
    exact ih clause q hq (hnested₁ clause q' hq') hsame hnormal'
      (storable_nested.mpr (hnested clause q hq))

end Query

/-- **Which plans of one key are accepted.**  For all queries that a planner plans for one operation
on one database with equal keys: if normalization accepts one of the planned queries, then it
accepts the other if and only if every literal that the other compares with a stored field, or lists
against one, has a stored form.  So where all these literals of both have stored forms, it accepts
both or neither. -/
theorem Planner.normalize_of_cacheKey_eq (p : Planner) (q₁ q₂ : Query) (operation : Operation)
    (caps : Capabilities) (plan₁ plan₂ : Plan) (nodes : List KeyNode)
    (h₁ : p.plan q₁ operation caps = .ok plan₁) (h₂ : p.plan q₂ operation caps = .ok plan₂)
    (hkey₁ : plan₁.cacheKey = .key nodes) (hkey₂ : plan₂.cacheKey = .key nodes) :
    ((∃ r, p.normalize plan₁.query operation caps = .ok r) →
      ((∃ r, p.normalize plan₂.query operation caps = .ok r) ↔
        plan₂.query.Storable (p.context operation caps))) ∧
    (plan₁.query.Storable (p.context operation caps) →
      plan₂.query.Storable (p.context operation caps) →
      ((∃ r, p.normalize plan₁.query operation caps = .ok r) ↔
        ∃ r, p.normalize plan₂.query operation caps = .ok r)) := by
  obtain ⟨hplanned₁, hlegible₁, hcode₁⟩ := Planner.plan_coded h₁ hkey₁
  obtain ⟨hplanned₂, hlegible₂, hcode₂⟩ := Planner.plan_coded h₂ hkey₂
  have hcanonical := (Query.canonical_of_code_eq hplanned₁ hplanned₂ hlegible₁ hlegible₂
    (hcode₁.symm.trans hcode₂)).2
  refine ⟨fun haccepted => ?_, fun hstorable₁ hstorable₂ => ?_⟩
  · exact ⟨hplanned₂.storable_of_normalize,
      hplanned₂.normalize_of_canonical_eq hplanned₁ hcanonical haccepted⟩
  · constructor
    · intro haccepted
      exact hplanned₂.normalize_of_canonical_eq hplanned₁ hcanonical haccepted hstorable₂
    · intro haccepted
      exact hplanned₁.normalize_of_canonical_eq hplanned₂ hcanonical.symm haccepted hstorable₁

/-- Tokens, known by identifiers that are stored as bytes. -/
def Planner.ofTokens : Planner where
  registry := Registry.empty.insert
    ((Schema.ofTable "Token" "tokens").withPrimaryKey "id" (.custom "binary_id"))
  conversions := .builtin

/-- The token of an identifier. -/
def Query.tokenOf (id : Value) : Query :=
  (Query.ofSchema "tokens" "Token").filter ((Expr.field 0 "id").eq (.literal id))

/-- An identifier in store. -/
def Value.tokenBytes : Value :=
  .binary [0x00, 0x11, 0x22, 0x33, 0x44, 0x55, 0x66, 0x77, 0x88, 0x99, 0xAA, 0xBB, 0xCC, 0xDD, 0xEE,
    0xFF]

/-- The key of its plan, given the stored form of the identifier. -/
def Query.tokenKey (stored : Value) : List KeyNode :=
  [.atom "all",
    .tagged "from" [.tagged "source" [.atom "tokens", .atom "Token", .null]],
    .tagged "where"
      [.tagged "and" [.tagged "==" [.tagged "field" [.ofBinding 0, .atom "id"], .value stored]]]]

/-- What becomes of a query that is planned: its key, and whether normalization accepts the plan. -/
def Planner.outcome (p : Planner) (q : Query) : Option (CacheKey × Bool) :=
  (p.plan q .all Dialect.postgres.capabilities).toOption.map fun plan => (plan.cacheKey,
    (p.normalize plan.query .all Dialect.postgres.capabilities).toOption.isSome)

theorem Planner.exists_plan_of_outcome {p : Planner} {q : Query} {nodes : List KeyNode}
    {accepted : Bool} (h : p.outcome q = some (.key nodes, accepted)) :
    ∃ plan, p.plan q .all Dialect.postgres.capabilities = .ok plan ∧ plan.cacheKey = .key nodes ∧
      ((∃ r, p.normalize plan.query .all Dialect.postgres.capabilities = .ok r) ↔
        accepted = true) := by
  obtain ⟨plan, hplan, houtcome⟩ := Option.map_eq_some_iff.mp h
  obtain ⟨hkey, haccepted⟩ := Prod.mk.inj houtcome
  refine ⟨plan, Except.toOption_eq_some_iff.mp hplan, hkey, ?_⟩
  rw [← haccepted, Option.isSome_iff_exists]
  exact exists_congr fun r => Except.toOption_eq_some_iff.symm

/-- An identifier may be spelled in several ways, each of which has the same stored form. -/
theorem Planner.normalize_of_cacheKey_eq_spelled :
    ∃ plan₁ plan₂ nodes,
      ofTokens.plan (.tokenOf (.string "00112233445566778899AABBCCDDEEFF")) .all
        Dialect.postgres.capabilities = .ok plan₁ ∧ plan₁.cacheKey = .key nodes ∧
      ofTokens.plan (.tokenOf (.string "00112233-4455-6677-8899-aabbccddeeff")) .all
        Dialect.postgres.capabilities = .ok plan₂ ∧ plan₂.cacheKey = .key nodes ∧
      (∃ r, ofTokens.normalize plan₁.query .all Dialect.postgres.capabilities = .ok r) ∧
      (∃ r, ofTokens.normalize plan₂.query .all Dialect.postgres.capabilities = .ok r) ∧
      plan₂.query.Storable (ofTokens.context .all Dialect.postgres.capabilities) := by
  have houtcome₁ : ofTokens.outcome (.tokenOf (.string "00112233445566778899AABBCCDDEEFF")) =
      some (.key (Query.tokenKey .tokenBytes), true) := by
    decide +kernel
  have houtcome₂ : ofTokens.outcome (.tokenOf (.string "00112233-4455-6677-8899-aabbccddeeff")) =
      some (.key (Query.tokenKey .tokenBytes), true) := by
    decide +kernel
  obtain ⟨plan₁, h₁, hkey₁, haccepted₁⟩ := exists_plan_of_outcome houtcome₁
  obtain ⟨plan₂, h₂, hkey₂, haccepted₂⟩ := exists_plan_of_outcome houtcome₂
  exact ⟨plan₁, plan₂, _, h₁, hkey₁, h₂, hkey₂, haccepted₁.mpr rfl, haccepted₂.mpr rfl,
    ((normalize_of_cacheKey_eq ofTokens _ _ .all _ plan₁ plan₂ _ h₁ h₂ hkey₁ hkey₂).1
      (haccepted₁.mpr rfl)).mp (haccepted₂.mpr rfl)⟩

/-- The bytes of an identifier are no identifier.  They are keyed as they are, which is how the
identifier is keyed, but only the identifier is accepted. -/
theorem Planner.not_normalize_of_cacheKey_eq :
    ∃ plan₁ plan₂ nodes,
      ofTokens.plan (.tokenOf (.string "00112233445566778899aabbccddeeff")) .all
        Dialect.postgres.capabilities = .ok plan₁ ∧ plan₁.cacheKey = .key nodes ∧
      ofTokens.plan (.tokenOf .tokenBytes) .all Dialect.postgres.capabilities = .ok plan₂ ∧
        plan₂.cacheKey = .key nodes ∧
      (∃ r, ofTokens.normalize plan₁.query .all Dialect.postgres.capabilities = .ok r) ∧
      ¬ ∃ r, ofTokens.normalize plan₂.query .all Dialect.postgres.capabilities = .ok r := by
  have houtcome₁ : ofTokens.outcome (.tokenOf (.string "00112233445566778899aabbccddeeff")) =
      some (.key (Query.tokenKey .tokenBytes), true) := by
    decide +kernel
  have houtcome₂ : ofTokens.outcome (.tokenOf .tokenBytes) =
      some (.key (Query.tokenKey .tokenBytes), false) := by
    decide +kernel
  obtain ⟨plan₁, h₁, hkey₁, haccepted₁⟩ := exists_plan_of_outcome houtcome₁
  obtain ⟨plan₂, h₂, hkey₂, haccepted₂⟩ := exists_plan_of_outcome houtcome₂
  exact ⟨plan₁, plan₂, _, h₁, hkey₁, h₂, hkey₂, haccepted₁.mpr rfl, by simp [haccepted₂]⟩

end QueryPlanner
