import QueryPlanner.Proofs.Normal.Replanned
import QueryPlanner.Proofs.Plan.JoinConditions

/-!
# Conditions that are interpolated as a whole

An interpolated expression or a list of keywords may be a whole condition, and then stands for what
it is written out as.  Planning the one is planning the other, down to the order of the refusals;
only the texts that messages show differ.

* `Query.Restates` — queries that state the same conditions in two ways
* `Clauses.Restates.bindsAlike`, `Clauses.Restates.silent_bindClause` — the steps of a level
* `Query.Restates.silent_plan` — a query
-/

namespace QueryPlanner

open HasExprs Binder

variable {σ : Type} {ctx : Context}

/-! ### Two ways to state a condition -/

/-- Something that stands for a condition: an interpolated expression or a list of keywords. -/
def Expr.isSplice : Expr → Bool
  | .dynamic _ | .keywords _ => true
  | _ => false

/-- A condition about the binding `ix`, and another way to state it. -/
inductive Expr.Restates (ix : Nat) : Expr → Expr → Prop
  | same (e : Expr) : Restates ix e e
  | keywords (pairs : List (String × Value)) :
    Restates ix (.keywords pairs) (Scope.conjunction (pairs.map (keywordTest ix)))
  | dynamic {e : Expr} (plain : e.isSplice = false) : Restates ix (.dynamic e) e

/-- An entry of `where` or `having`, and another way to state it. -/
def Condition.Restates (x y : Condition) : Prop :=
  x.connective = y.connective ∧ x.expr.Restates 0 y.expr

/-- A join at the binding `ix`, and the same one with its condition stated in another way. -/
inductive Join.Restates (ix : Nat) (j : Join σ) : Join σ → Prop
  | mk {on : Option Expr} (condition : Option.Rel (Expr.Restates ix) j.on on) :
    Restates ix j { j with on }

/-- A level, and the same one with its conditions stated in another way: those of `where` and
`having` about binding 0, and those of the joins about the binding of the join. -/
structure Clauses.Restates (c d : Clauses σ) : Prop where
  wheres : List.Forall₂ Condition.Restates c.wheres d.wheres
  havings : List.Forall₂ Condition.Restates c.havings d.havings
  joins : List.Forall₂ (fun p q => p.1 = q.1 ∧ p.2.Restates p.1 q.2) c.declaredJoins
    d.declaredJoins
  others : d = { c with wheres := d.wheres, havings := d.havings, joins := d.joins }

/-- Queries that state their conditions in two ways, at every level. -/
inductive Query.Restates : Query → Query → Prop
  | mk {c d : Clauses (Query × Query)} (level : c.Restates d)
    (nested : ∀ pair ∈ c.nested, Restates pair.1 pair.2) :
    Restates ⟨c.edit id Prod.fst⟩ ⟨d.edit id Prod.snd⟩

theorem Expr.opened_of_plain {e : Expr} (h : e.isSplice = false) (ix : Nat) :
    e.opened ix = e := by
  obtain ⟨n⟩ := e
  cases n with
  | dynamic | keywords => cases h
  | _ => rfl

theorem Scope.conjunction_plain (ix : Nat) (pairs : List (String × Value)) :
    (conjunction (pairs.map (Expr.keywordTest ix))).isSplice = false := by
  have hfold : ∀ (tests : List Expr) (first : Expr), first.isSplice = false →
      (tests.foldl Expr.and first).isSplice = false := by
    intro tests
    induction tests with
    | nil => exact fun _ h => h
    | cons test tests ih => exact fun first _ => ih _ rfl
  cases pairs with
  | nil => rfl
  | cons pair pairs => exact hfold _ _ rfl

/-- Conditions about a binding that are written out alike. -/
def Expr.OpenedAlike (ix : Nat) (e e' : Expr) : Prop := e.opened ix = e'.opened ix

/-- **Conditions that are stated in two ways** are written out alike. -/
theorem Expr.Restates.openedAlike {ix : Nat} {e e' : Expr} (h : e.Restates ix e') :
    e.OpenedAlike ix e' := by
  cases h with
  | same => rfl
  | keywords pairs => exact (opened_of_plain (Scope.conjunction_plain ix pairs) ix).symm
  | dynamic plain => exact (opened_of_plain plain ix).symm

theorem Join.Restates.edit {τ : Type} {ix : Nat} {j j' : Join σ} (h : j.Restates ix j')
    (g : σ → τ) : (j.edit id g).Restates ix (j'.edit id g) := by
  obtain @⟨on, condition⟩ := h
  have hon : Option.Rel (Expr.Restates ix) (rewrite id j.on) (rewrite id on) := by
    rwa [rewrite_id, rewrite_id]
  exact .mk hon

theorem Join.Restates.refl (ix : Nat) (j : Join σ) : j.Restates ix j := by
  obtain ⟨qualifier, source, on, association, tablePrefix, binding⟩ := j
  refine .mk ?_
  cases on with
  | none => exact .none
  | some e => exact .some (.same e)

theorem Clauses.Restates.edit {τ : Type} {c d : Clauses σ} (h : c.Restates d) (g : σ → τ) :
    (c.edit id g).Restates (d.edit id g) where
  wheres := by
    change List.Forall₂ _ (rewrite id c.wheres) (rewrite id d.wheres)
    rw [rewrite_id, rewrite_id]
    exact h.wheres
  havings := by
    change List.Forall₂ _ (rewrite id c.havings) (rewrite id d.havings)
    rw [rewrite_id, rewrite_id]
    exact h.havings
  joins := by
    rw [declaredJoins_edit, declaredJoins_edit, List.forall₂_map_left_iff,
      List.forall₂_map_right_iff]
    exact h.joins.imp fun _ _ ⟨hix, hrestates⟩ => ⟨hix, hrestates.edit g⟩
  others := by
    rw [h.others]
    rfl

theorem Clauses.Restates.refl (c : Clauses σ) : c.Restates c where
  wheres := List.forall₂_same.mpr fun x _ => ⟨rfl, .same x.expr⟩
  havings := List.forall₂_same.mpr fun x _ => ⟨rfl, .same x.expr⟩
  joins := List.forall₂_same.mpr fun declared _ => ⟨rfl, .refl declared.1 declared.2⟩
  others := rfl

/-- Conditions may be stated in another way at one level only. -/
theorem Query.Restates.of_level {c d : Clauses Query} (h : c.Restates d)
    (hnested : ∀ q ∈ c.nested, Restates q q) : Restates ⟨c⟩ ⟨d⟩ := by
  have hsame : ∀ c : Clauses Query,
      (c.edit id fun q => (q, q)).edit id Prod.fst = c ∧
        (c.edit id fun q => (q, q)).edit id Prod.snd = c := by
    intro c
    rw [Clauses.edit_edit, Clauses.edit_edit]
    exact ⟨c.edit_id, c.edit_id⟩
  have hmk := Restates.mk (h.edit fun q => (q, q)) ?_
  · rwa [(hsame c).1, (hsame d).2] at hmk
  · rw [Clauses.nested_edit]
    intro pair hpair
    obtain ⟨q, hq, rfl⟩ := List.mem_map.mp hpair
    exact hnested q hq

/-- A query states its conditions in the way that it states them. -/
theorem Query.Restates.refl (q : Query) : q.Restates q :=
  Query.induction (P := fun q => q.Restates q) (fun c ih => .of_level (.refl c) ih) q

/-! ### What two levels read alike -/

theorem Level.silent_bindOption {α β : Type} {f g : α → Binder β} {x y : Option α}
    (h : Option.Rel (fun x y => (f x).silent = (g y).silent) x y) :
    (bindOption f x).silent = (bindOption g y).silent := by
  cases h with
  | none => rfl
  | some h => simp only [bindOption, silent_map, h]

/-- Sources that are bound alike, and read alike apart from texts. -/
structure Source.ReadsAlike (s s' : Source NestedPlan) : Prop where
  bind : ∀ ctx queryPrefix clausePrefix clause, s.bind ctx queryPrefix clausePrefix clause =
    s'.bind ctx queryPrefix clausePrefix clause
  read : ∀ (l : Level) clause, (l.bindSource clause s).silent = (l.bindSource clause s').silent

/-- Joins that are read alike: their sources are, and their conditions are written out alike. -/
structure Join.ReadsAlike (j j' : Join NestedPlan) : Prop where
  qualifier : j.qualifier = j'.qualifier
  source : Option.Rel Source.ReadsAlike j.source j'.source
  on : Option.Rel (Expr.OpenedAlike (j.ix.getD 0)) j.on j'.on
  association : j.association = j'.association
  tablePrefix : j.tablePrefix = j'.tablePrefix
  ix : j.ix = j'.ix

/-- Bindings of one list of sources, with joins that are read alike. -/
abbrev Bindings.ReadsAlike (b b' : Bindings NestedPlan) : Prop :=
  b.Alike Join.ReadsAlike Expr.OpenedAlike b'

section

variable {F G : σ → NestedPlan}

theorem Source.readsAlike_edit {s : Source σ}
    (h : ∀ q ∈ s.nested, ∀ ctx, (F q ctx).silent = (G q ctx).silent) :
    (s.edit id F).ReadsAlike (s.edit id G) where
  bind _ _ _ _ := (bind_edit _ _ s).trans (bind_edit _ _ s).symm
  read l clause := by
    cases s with
    | subquery q =>
      simp only [edit, Level.bindSource, Level.bindNested, silent_map]
      rw [h q (List.mem_singleton_self q)]
    | _ => rfl

/-- A declared join is bound alike, in whatever way its condition is stated. -/
theorem Join.Restates.bindsAlike {ix : Nat} {j j' : Join σ} (h : j.Restates ix j')
    (hnested : ∀ q ∈ j.source.toList.flatMap Source.nested, ∀ ctx,
      (F q ctx).silent = (G q ctx).silent) (queryPrefix : Option String) :
    (j.edit id F).BindsAlike ctx queryPrefix Join.ReadsAlike Expr.OpenedAlike ix
      (j'.edit id G) := by
  obtain @⟨on, condition⟩ := h
  have hsource : Option.Rel Source.ReadsAlike (j.source.map (Source.edit id F))
      (j.source.map (Source.edit id G)) := Option.rel_map fun s hs =>
    Source.readsAlike_edit fun q hq =>
      hnested q (List.mem_flatMap.mpr ⟨s, Option.mem_toList.mpr hs, hq⟩)
  have hon : Option.Rel (Expr.OpenedAlike ix) (rewrite id j.on) (rewrite id on) := by
    rw [rewrite_id, rewrite_id]
    exact Option.rel_imp (fun _ _ => Expr.Restates.openedAlike) condition
  refine ⟨rfl, rfl, ?_, ⟨rfl, hsource, hon, rfl, rfl, rfl⟩, fun hop parent ix => ?_, hon⟩
  · exact Option.rel_imp (fun _ _ halike => halike.bind _ _ _ _) hsource
  · refine ⟨rfl, ?_, .some rfl, rfl, rfl, rfl⟩
    exact .some ⟨fun _ _ _ _ => rfl, fun _ _ => rfl⟩

theorem Clauses.map_declaredJoins (c : Clauses σ) : c.declaredJoins.map Prod.snd = c.joins := by
  rw [declaredJoins, List.map_map]
  exact List.zipIdx_map_fst 0 c.joins

theorem Clauses.mem_joins_of_declared {c : Clauses σ} {declared : Nat × Join σ}
    (h : declared ∈ c.declaredJoins) : declared.2 ∈ c.joins :=
  c.map_declaredJoins ▸ List.mem_map_of_mem h

/-- **The sources of a level are bound alike**, in whatever way its conditions are stated. -/
theorem Clauses.Restates.bindsAlike {c d : Clauses σ} (h : c.Restates d)
    (hnested : ∀ q ∈ c.nested, ∀ ctx, (F q ctx).silent = (G q ctx).silent) :
    (c.edit id F).BindsAlike ctx Join.ReadsAlike Expr.OpenedAlike (d.edit id G) where
  queryPrefix := by rw [h.others]; rfl
  root := by
    rw [h.others]
    exact Option.rel_map fun root _ =>
      (Source.bind_edit _ _ root.source).trans (Source.bind_edit _ _ root.source).symm
  joins := by
    rw [declaredJoins_edit, declaredJoins_edit, List.forall₂_map_left_iff,
      List.forall₂_map_right_iff]
    have hjoins := (List.forall₂_and_left c.declaredJoins d.declaredJoins).mpr
      ⟨fun declared hdeclared => mem_joins_of_declared hdeclared, h.joins⟩
    refine hjoins.imp fun p q ⟨hmem, hix, hrestates⟩ => ⟨hix, ?_⟩
    refine hrestates.bindsAlike (fun q hq => hnested q ?_) _
    exact List.mem_append_right _ (List.mem_flatMap.mpr ⟨p.2, hmem, hq⟩)
  preloads := by rw [h.others]; rfl
  kept _ _ halike := ⟨halike.ix, halike.qualifier⟩

/-! ### The steps of a level -/

/-- What a database does not support is refused alike. -/
theorem Clauses.Restates.checkCapabilities {c d : Clauses σ} (h : c.Restates d)
    (caps : Capabilities) : Except.Alike Eq ((c.edit id F).checkCapabilities caps)
      ((d.edit id G).checkCapabilities caps) := by
  have hjoins : Option.Rel (fun j j' : Join NestedPlan => j.qualifier = j'.qualifier)
      ((c.edit id F).joins.find? (!caps.supports ·.qualifier))
      ((d.edit id G).joins.find? (!caps.supports ·.qualifier)) := by
    refine List.rel_find? (fun j j' hj => by rw [hj]) ?_
    change List.Forall₂ _ (c.joins.map (Join.edit id F)) (d.joins.map (Join.edit id G))
    rw [← c.map_declaredJoins, ← d.map_declaredJoins]
    simp only [List.forall₂_map_left_iff, List.forall₂_map_right_iff]
    refine h.joins.imp ?_
    rintro ⟨ix, j⟩ ⟨_, _⟩ ⟨-, ⟨-⟩⟩
    rfl
  have hctes : Option.Rel (fun cte cte' : Cte NestedPlan => cte.recursive = cte'.recursive)
      ((c.edit id F).ctes.find? (·.recursive)) ((d.edit id G).ctes.find? (·.recursive)) := by
    refine List.rel_find? (fun _ _ => id) ?_
    rw [h.others]
    change List.Forall₂ _ (c.ctes.map (Cte.edit id F)) (c.ctes.map (Cte.edit id G))
    rw [List.forall₂_map_left_iff, List.forall₂_map_right_iff]
    exact List.forall₂_same.mpr fun _ _ => rfl
  have hwindows : (d.edit id G).windows = (c.edit id F).windows := by rw [h.others]; rfl
  have hlock : (d.edit id G).lock = (c.edit id F).lock := by rw [h.others]; rfl
  unfold Clauses.checkCapabilities
  rw [hwindows, hlock]
  dsimp only
  revert hjoins hctes
  generalize (c.edit id F).joins.find? _ = join
  generalize (d.edit id G).joins.find? _ = join'
  generalize (c.edit id F).ctes.find? _ = cte
  generalize (d.edit id G).ctes.find? _ = cte'
  intro hjoins hctes
  cases hjoins with
  | some hqualifier =>
    exact .error (congrArg (fun qualifier =>
      PlanError.malformed ⟨.join, ""⟩ (.unsupportedJoin qualifier caps.name)) hqualifier)
  | none =>
    cases hctes with
    | none => exact Except.alike_of_silent rfl
    | some =>
      dsimp only
      cases caps.recursiveCte with
      | false => exact .error rfl
      | true => exact Except.alike_of_silent rfl

end

/-- Levels that are read in one place, with bindings that are read alike. -/
structure Level.ReadsAlike (l l' : Level) : Prop where
  ctx : l.ctx = l'.ctx
  queryPrefix : l.clauses.queryPrefix = l'.clauses.queryPrefix
  bindings : l.bindings.ReadsAlike l'.bindings

namespace Level.ReadsAlike

variable {l l' : Level} (h : l.ReadsAlike l')

include h

theorem scope_eq (clause : Clause) (text : String) :
    l.scope clause text = l'.scope clause text := by
  simp only [scope, h.ctx, h.bindings.sources]

theorem bindNested_eq (plan : NestedPlan) : l.bindNested plan = l'.bindNested plan := by
  simp only [bindNested, h.ctx, h.queryPrefix]

theorem bindSource_eq (clause : Clause) (s : Source NestedPlan) :
    l.bindSource clause s = l'.bindSource clause s := by
  cases s <;> simp only [bindSource, h.bindNested_eq, bindParts, h.scope_eq]

/-- Conditions that are written out alike are read alike, whatever messages show of them. -/
theorem silent_bindCondition {clause : Clause} {ix : Nat} {e e' : Expr}
    (he : e.OpenedAlike ix e') :
    (l.bindCondition clause ix e).silent = (l'.bindCondition clause ix e').silent := by
  simp only [bindCondition, Scope.bindCondition_eq, Scope.silent_bindExpr, Scope.showing,
    h.scope_eq]
  rw [he]
  rfl

theorem silent_bindConditions {clause : Clause} {xs ys : List Condition}
    (hxs : List.Forall₂ Condition.Restates xs ys) :
    (l.bindConditions clause xs).silent = (l'.bindConditions clause ys).silent := by
  refine silent_mapM_congr (hxs.imp fun x y ⟨hconnective, hexpr⟩ => ?_)
  rw [hconnective]
  exact silent_bind_congr (h.silent_bindCondition hexpr.openedAlike) _

/-- **A join is read alike**, in whatever way its condition is stated, and the condition that waits
for its binding. -/
theorem silent_bindJoin {j j' : Join NestedPlan} (hj : j.ReadsAlike j') :
    (l.bindJoin j).silent = (l'.bindJoin j').silent := by
  have hsource : (bindOption (l.bindSource .join) j.source).silent =
      (bindOption (l'.bindSource .join) j'.source).silent :=
    silent_bindOption (Option.rel_imp (fun s s' hs => by rw [hs.read, h.bindSource_eq]) hj.source)
  have hread : ∀ e e', e.OpenedAlike (j.ix.getD 0) e' →
      (l.bindCondition .join (j.ix.getD 0) e).silent =
        (l'.bindCondition .join (j.ix.getD 0) e').silent := fun _ _ => h.silent_bindCondition
  have hon := silent_bindOption (Option.rel_imp hread hj.on)
  have hdeclared := silent_bindOption (Option.rel_imp hread
    (List.rel_lookup h.bindings.conditions (j.ix.getD 0)))
  rw [bindJoin_eq, bindJoin_eq, ← hj.ix, ← hj.qualifier, ← hj.association, ← hj.tablePrefix]
  simp only [silent_bind, hsource, hon, hdeclared]

end Level.ReadsAlike

section

variable {F G : σ → NestedPlan}

namespace Level.ReadsAlike

variable {l l' : Level} (h : l.ReadsAlike l')

include h

theorem silent_bindRoot {root : FromClause σ}
    (hnested : ∀ q ∈ root.source.nested, ∀ ctx, (F q ctx).silent = (G q ctx).silent) :
    (l.bindRoot (root.edit id F)).silent = (l'.bindRoot (root.edit id G)).silent := by
  refine silent_bind_congr ?_ _
  rw [← h.bindSource_eq]
  exact (Source.readsAlike_edit hnested).read l .fromSource

theorem silent_bindCombination {x : Combination σ}
    (hnested : ∀ ctx, (F x.query ctx).silent = (G x.query ctx).silent) :
    (l.bindCombination (x.map F)).silent = (l'.bindCombination (x.map G)).silent := by
  refine silent_bind_congr ?_ _
  rw [← h.bindNested_eq]
  exact hnested _

theorem silent_bindCte {cte : Cte σ}
    (hnested : ∀ q ∈ cte.body.nested, ∀ ctx, (F q ctx).silent = (G q ctx).silent) :
    (l.bindCte (cte.edit id F)).silent = (l'.bindCte (cte.edit id G)).silent := by
  obtain ⟨name, body, recursive⟩ := cte
  cases body with
  | query q =>
    refine silent_bind_congr ?_ _
    rw [silent_map, silent_map, ← h.bindNested_eq]
    exact congrArg _ (hnested q (List.mem_singleton_self q) _)
  | fragment parts => simp only [bindCte, CteBody.edit, Cte.edit, bindParts, h.scope_eq]

end Level.ReadsAlike

/-- **A clause is read alike**, in whatever way the conditions of the level are stated. -/
theorem Clauses.Restates.silent_bindClause {c d : Clauses σ} (h : c.Restates d)
    (hnested : ∀ q ∈ c.nested, ∀ ctx, (F q ctx).silent = (G q ctx).silent)
    {b b' : Bindings NestedPlan} (hb : b.ReadsAlike b') (out : Clauses Query) (clause : Clause) :
    (Level.bindClause ⟨ctx, c.edit id F, b⟩ out clause).silent =
      (Level.bindClause ⟨ctx, d.edit id G, b'⟩ out clause).silent := by
  have hbound : (c.edit id F).BindsAlike ctx _ _ (d.edit id G) := h.bindsAlike hnested
  have hlevel : Level.ReadsAlike ⟨ctx, c.edit id F, b⟩ ⟨ctx, d.edit id G, b'⟩ :=
    ⟨rfl, hbound.queryPrefix, hb⟩
  simp only [nested, List.mem_append] at hnested
  -- apart from conditions, the two levels differ in how nested queries are planned only
  have hd := h.others
  generalize d.wheres = wheres at hd
  generalize d.havings = havings at hd
  generalize d.joins = joins at hd
  subst hd
  cases clause with
  | filter => exact silent_bind_congr (hlevel.silent_bindConditions (h.edit F).wheres) _
  | having => exact silent_bind_congr (hlevel.silent_bindConditions (h.edit F).havings) _
  | join =>
    exact silent_bind_congr (silent_mapM_congr (hb.joins.imp fun _ _ => hlevel.silent_bindJoin)) _
  | withCte =>
    refine silent_bind_congr (silent_mapM_map fun cte hcte => hlevel.silent_bindCte ?_) _
    exact fun q hq => hnested q (.inl (.inl (.inl (List.mem_flatMap.mpr ⟨cte, hcte, hq⟩))))
  | combination =>
    refine silent_bind_congr (silent_mapM_map fun x hx => hlevel.silent_bindCombination ?_) _
    exact hnested x.query (.inl (.inl (.inr (List.mem_map_of_mem hx))))
  | fromSource =>
    refine silent_bind_congr (Level.silent_bindOption (Option.rel_map fun root hroot => ?_)) _
    refine hlevel.silent_bindRoot fun q hq => hnested q (.inl (.inr ?_))
    exact List.mem_flatMap.mpr ⟨root, Option.mem_toList.mpr hroot, hq⟩
  | _ =>
    obtain ⟨joins, sources, conditions⟩ := b
    obtain ⟨joins', _, conditions'⟩ := b'
    obtain ⟨rfl, -, -⟩ := hb
    rfl

/-- **A level is planned alike**, in whatever way its conditions are stated, if its nested queries
are. -/
theorem Clauses.Restates.silent_plan {c d : Clauses σ} (h : c.Restates d)
    (hnested : ∀ q ∈ c.nested, ∀ ctx, (F q ctx).silent = (G q ctx).silent) (ctx : Context) :
    ((c.edit id F).plan ctx).silent = ((d.edit id G).plan ctx).silent := by
  have hroot : (d.edit id G).root.isNone = (c.edit id F).root.isNone := by
    rw [h.others]
    exact Option.isNone_map.trans Option.isNone_map.symm
  have hbind : ∀ b b' : Bindings NestedPlan, b.ReadsAlike b' →
      (Level.bind ⟨ctx, c.edit id F, b⟩).silent = (Level.bind ⟨ctx, d.edit id G, b'⟩).silent := by
    intro b b' hb
    have hstart : (d.edit id G).queryPrefix = (c.edit id F).queryPrefix ∧
        (d.edit id G).preloads = (c.edit id F).preloads := by
      rw [h.others]
      exact ⟨rfl, rfl⟩
    simp only [Level.bind, hstart, ← hb.sources]
    refine silent_bind_congr ?_ _
    rw [silent_foldlM, silent_foldlM]
    congr 1
    funext out clause
    exact h.silent_bindClause hnested hb out clause
  unfold Clauses.plan
  rw [hroot]
  cases (c.edit id F).root.isNone with
  | true =>
    -- what would follow the failure is not compared
    simp only [if_true]
    rw [silent_throw_bind, silent_throw_bind]
  | false =>
    simp only [Bool.false_eq_true, if_false]
    refine silent_lift_congr (h.checkCapabilities ctx.capabilities) fun _ _ _ => ?_
    exact silent_lift_congr (h.bindsAlike hnested).resolve hbind

end

/-! ### Queries -/

/-- **A query is planned alike**, in whatever way its conditions are stated. -/
theorem Query.Restates.silent_plan {q q' : Query} (h : q.Restates q') :
    ∀ ctx, (q.plan ctx).silent = (q'.plan ctx).silent := by
  induction h with
  | @mk c d level nested ih =>
    intro ctx
    rw [plan_mk, plan_mk, Clauses.edit_edit, Clauses.edit_edit]
    exact level.silent_plan ih ctx

end QueryPlanner
