import QueryPlanner.Normal.Legality
import QueryPlanner.Normal.Preloads
import QueryPlanner.Proofs.CacheKey.Query
import QueryPlanner.Proofs.Normal.References

/-!
# What normalization reads of a level

But for literals that are compared with fields or assigned to them, normalization decides on a level
by its outline: literals, the numbers of placeholders, annotations and the nested queries make no
difference to it.

* `Expr.blank`, `Clauses.outline` — an expression and a level without what makes no difference
* `Expr.walk_blank` — the outline of an expression is walked like the expression
* `Clauses.outline_edit` — rewriting expressions within their outlines keeps that of the level
* `Clauses.checkOperation_outline`, `Clauses.checkCombinedOrder_outline`,
  `Clauses.checkPreloads_outline`, `Clauses.finds_outline` — what is decided by the outline
-/

namespace QueryPlanner

open HasExprs

variable {α β σ τ δ : Type}

/-! ### Expressions -/

/-- A node without its value, number or annotated type. -/
def Node.blank : Node α → Node α
  | literal _ => literal .null
  | param _ => param 0
  | paramRange .. => paramRange 0 0
  | typed inner _ => typed inner .any
  | n => n

theorem Node.children_blank (n : Node α) : n.blank.children = n.children := by
  cases n <;> rfl

namespace Expr

/-- An expression without values, numbers of placeholders and annotated types. -/
def blank : Expr → Expr := relabel Node.blank

theorem blank_mk (n : Node Expr) : blank ⟨n⟩ = ⟨(n.map blank).blank⟩ := relabel_mk _ n

theorem walk_blank (e : Expr) : e.blank.walk = e.walk.map blank := by
  refine Expr.induction (P := fun e => e.blank.walk = e.walk.map blank) ?_ e
  intro n ih
  rw [blank_mk, walk_mk, walk_mk, List.map_cons, blank_mk, Node.children_blank, Node.children_map,
    List.flatMap_map, List.map_flatMap]
  congr 1
  exact List.flatMap_congr ih

theorem any_blank {test : Expr → Bool} (h : ∀ x : Expr, test x.blank = test x) (e : Expr) :
    e.blank.any test = e.any test := by
  rw [any, any, walk_blank, List.any_map]
  exact congrArg (List.any e.walk) (funext h)

theorem any_usesBinding_blank (e : Expr) : e.blank.any usesBinding = e.any usesBinding := by
  refine any_blank (fun ⟨n⟩ => ?_) e
  rw [blank_mk]
  cases n <;> rfl

theorem selectsRoot_blank (e : Expr) : e.blank.selectsRoot = e.selectsRoot := by
  refine any_blank (fun ⟨n⟩ => ?_) e
  rw [blank_mk]
  cases n <;> rfl

/-- Forgetting a detail that is blank anyway makes no difference. -/
theorem blank_without {d : Detail δ} (hd : ∀ n : Node Expr, (d.forget n).blank = n.blank)
    (e : Expr) : (e.without d).blank = e.blank := by
  refine Expr.induction (P := fun e => (e.without d).blank = e.blank) ?_ e
  intro n ih
  rw [without_mk, blank_mk, blank_mk, ← d.forget_map, Node.map_map, hd]
  exact congrArg (fun m => Expr.mk m.blank) (Node.map_congr ih)

/-- Stored forms of literals make no difference. -/
theorem blank_settle {form : LiteralForm} (e : Expr) :
    ∀ opposite, (e.settle form opposite).blank = e.blank := by
  refine Expr.induction (P := fun e => ∀ opposite, (e.settle form opposite).blank = e.blank) ?_ e
  intro n ih opposite
  have hstored : ∀ m : Node Expr, (m.stored form opposite).blank = m.blank := by
    intro m
    cases m <;> rfl
  have hagainst : (n.against id opposite).map (fun child => child.1.blank) = n.map blank := by
    have h := congrArg (Node.map blank) (Node.map_fst_against id opposite n)
    rwa [Node.map_map] at h
  rw [settle_mk, blank_mk, blank_mk, ← Node.stored_map, hstored, Node.map_map, ← hagainst]
  exact congrArg (fun m => Expr.mk m.blank)
    (Node.map_congr fun child hchild => ih child.1 (mem_of_mem_against hchild) child.2)

end Expr

/-! ### Levels -/

namespace Clauses

/-- A level without what makes no difference to normalization. -/
def outline (c : Clauses σ) : Clauses Query := c.plain.edit Expr.blank fun _ => Query.empty

/-- Rewriting a level within the outlines of its expressions keeps its outline. -/
theorem outline_edit {f : Expr → Expr} (g : σ → τ) (hf : ∀ e, (f e).blank = e.blank)
    (htrue : f (.literal (.bool true)) = .literal (.bool true)) (c : Clauses σ) :
    (c.edit f g).outline = c.outline := by
  have hblank : Expr.blank ∘ f = Expr.blank := funext hf
  rw [outline, plain_edit g htrue, edit_edit, hblank]
  rfl

/-- Without what keys leave out, a level has the items that it had. -/
theorem mem_plain_items {c : Clauses σ} {clause : Clause} {i : Item σ}
    (h : i ∈ c.items clause) : i ∈ c.plain.items clause := by
  cases clause with
  | join =>
    obtain ⟨j, hj, hi⟩ := List.mem_flatMap.mp h
    refine List.mem_flatMap.mpr ⟨j.plain, List.mem_map_of_mem hj, ?_⟩
    rcases List.mem_append.mp hi with hi | hi
    · exact List.mem_append_left _ hi
    · refine List.mem_append_right _ ?_
      cases hon : j.on with
      | none => simp [hon, Item.ofExprs, exprs] at hi
      | some e => simpa [hon, Item.ofExprs, exprs, Join.plain, Join.onOrTrue] using hi
  | fromSource =>
    cases hroot : c.root with
    | none => simp [items, hroot] at h
    | some root => simpa [items, plain, hroot] using h
  | _ => exact h

section

variable (c : Clauses σ)

theorem updatedFields_outline : c.outline.updatedFields = c.updatedFields := by
  simp [updatedFields, outline, edit, plain, rewrite, List.flatMap_map, Function.comp_def]

theorem readClauses_outline : c.outline.readClauses = c.readClauses := by
  simp [readClauses, outline, edit, plain, rewrite, List.isEmpty_map]

theorem checkNoUpdate_outline (operation : Operation) :
    c.outline.checkNoUpdate operation = c.checkNoUpdate operation := by
  simp only [checkNoUpdate, outline, edit, plain, rewrite, List.head?_map]
  cases c.updates.head? <;> rfl

/-- What an operation allows is decided by the outline. -/
theorem checkOperation_outline (operation : Operation) :
    c.outline.checkOperation operation = c.checkOperation operation := by
  simp only [checkOperation, checkNoUpdate_outline, checkOnlyFilters, readClauses_outline,
    checkUpdates, updatedFields_outline]

theorem checkCombinedOrder_ok : (∃ u, c.checkCombinedOrder = .ok u) ↔
    c.combinations = [] ∨ ∀ e ∈ exprs c.orderBys, e.any Expr.usesBinding = false := by
  have hitems : exprs c.orderBys = (c.orderBys.flatMap (·.orderedItems)).map (·.term) := by
    rw [List.map_flatMap]
    refine List.flatMap_congr fun o _ => ?_
    cases o with
    | items ordered => exact List.map_eq_flatMap.symm
    | pinned names => rfl
  rw [hitems, List.forall_mem_map]
  unfold checkCombinedOrder
  cases hcombined : c.combinations with
  | nil => simp
  | cons combined rest =>
    cases hitem : (c.orderBys.flatMap (·.orderedItems)).find? (·.term.any Expr.usesBinding) with
    | none => simpa using List.find?_eq_none.mp hitem
    | some item =>
      have hmem := List.mem_of_find?_eq_some hitem
      refine iff_of_false (by simp) fun h => ?_
      rcases h with h | h
      · cases h
      · exact absurd (List.find?_some hitem) (by simp [h item hmem])

/-- What an ordering of set operations may name is decided by the outline. -/
theorem checkCombinedOrder_outline : (∃ u, c.outline.checkCombinedOrder = .ok u) ↔
    ∃ u, c.checkCombinedOrder = .ok u := by
  have hcombined : c.outline.combinations = [] ↔ c.combinations = [] := List.map_eq_nil_iff
  have hexprs : exprs c.outline.orderBys = (exprs c.orderBys).map Expr.blank :=
    exprs_rewrite Expr.blank c.orderBys
  simp only [checkCombinedOrder_ok, hcombined, hexprs, List.forall_mem_map,
    Expr.any_usesBinding_blank]

/-- Preloads are checked in the outline. -/
theorem checkPreloads_outline (ctx : Context) :
    c.outline.checkPreloads ctx = c.checkPreloads ctx := by
  have hselect : c.outline.select = c.select.map (rewrite Expr.blank) := rfl
  have hpreloads : c.outline.preloads = c.preloads := rfl
  have hsources : c.outline.sources = c.sources := rfl
  unfold checkPreloads
  rw [hselect, hpreloads, hsources]
  cases c.select with
  | none => rfl
  | some select =>
    have hexpr : (rewrite Expr.blank select).expr.selectsRoot = select.expr.selectsRoot :=
      Expr.selectsRoot_blank select.expr
    simp only [Option.map_some, hexpr]

/-- What the expressions of a level name is there.  Fragments in place of common table expressions
are not looked at. -/
def Finds (ctx : Context) (c : Clauses σ) : Prop :=
  ∀ clause, clause ≠ .withCte → ∀ e, .expr e ∈ c.items clause →
    ∀ x ∈ e.walk, (c.references ctx clause "").finds x.node = true

theorem aliases_outline : c.outline.aliases = c.aliases := by
  have hselect : c.outline.select = c.select.map (rewrite Expr.blank) := rfl
  unfold aliases
  rw [hselect]
  cases c.select with
  | none => rfl
  | some select =>
    have hwalk : (rewrite Expr.blank select).expr.walk = select.expr.walk.map Expr.blank :=
      Expr.walk_blank select.expr
    simp only [Option.map_some, hwalk, List.filterMap_map]
    refine congrArg (List.filterMap · select.expr.walk) (funext fun ⟨n⟩ => ?_)
    rw [Function.comp_apply, Expr.blank_mk]
    cases n <;> rfl

theorem finds_blank (ctx : Context) (clause : Clause) (x : Expr) :
    (c.outline.references ctx clause "").finds x.blank.node =
      (c.references ctx clause "").finds x.node := by
  have haliases : (c.outline.references ctx clause "").aliases =
      (c.references ctx clause "").aliases := c.aliases_outline
  have hwindows : (c.outline.references ctx clause "").windows =
      (c.references ctx clause "").windows := by
    simp [references, outline, edit, plain, rewrite]
  obtain ⟨n⟩ := x
  rw [Expr.blank_mk]
  cases n with
  | selectedRef name => exact congrArg (·.contains name) haliases
  | windowed inner window =>
    cases window with
    | named name => exact congrArg (·.contains name) hwindows
    | inline w => rfl
  | _ => rfl

/-- Whether what a level names is there is decided by the outline. -/
theorem finds_outline (ctx : Context) : c.outline.Finds ctx ↔ c.Finds ctx := by
  have hexpr : ∀ clause (e : Expr), (∀ x ∈ e.blank.walk,
      (c.outline.references ctx clause "").finds x.node = true) ↔
        ∀ x ∈ e.walk, (c.references ctx clause "").finds x.node = true := by
    intro clause e
    rw [Expr.walk_blank, List.forall_mem_map]
    simp only [finds_blank]
  constructor
  · intro h clause hclause e he
    refine (hexpr clause e).mp (h clause hclause e.blank ?_)
    rw [outline, items_edit]
    exact List.mem_map_of_mem (mem_plain_items he)
  · intro h clause hclause e he
    rw [outline, items_edit] at he
    obtain ⟨i, hi, hie⟩ := List.mem_map.mp he
    cases i with
    | nested q => cases hie
    | expr e' =>
      obtain rfl : e'.blank = e := Item.expr.inj hie
      refine (hexpr clause e').mpr ?_
      rcases mem_items_plain hi with hi | hi
      · exact h clause hclause e' hi
      · obtain rfl : e' = .literal (.bool true) := Item.expr.inj hi
        intro x hx
        rw [List.mem_singleton.mp hx]
        rfl

end

end Clauses

end QueryPlanner
