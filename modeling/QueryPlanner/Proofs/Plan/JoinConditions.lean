import Mathlib.Data.List.Nodup
import QueryPlanner.Proofs.Normal.Preloads
import QueryPlanner.Proofs.Plan.Conditions
import QueryPlanner.Proofs.Plan.Related

/-!
# Where the condition of a join is found

A condition that is declared beside an association waits under the binding of its join until the
joins are read.  It is read then, and joins the condition that the association makes at its last
hop.  The conditions of the other hops hold nothing to be read, so they come out as they are made.

* `Join.Extracts` — what a declared condition is read as
* `Join.Keeps` — the planned joins of a declared join
* `Clauses.KeepsConditions` — the planned joins of a level
* `Planner.plan_conditions` — a whole plan
-/

namespace QueryPlanner

open HasExprs Binder

variable {ctx : Context} {ps qs : List BoundParameter}

/-! ### What holds nothing to be read -/

/-- An expression without interpolations is read as it is, and adds no parameter. -/
theorem Scope.reads_inert {s : Scope} (e : Expr) : e.Inert → ∀ {expected : FieldType} {ps a qs},
    s.Reads e expected ps a qs → a = e ∧ qs = ps := by
  refine Expr.induction (P := fun e => e.Inert → ∀ {expected : FieldType} {ps a qs},
    s.Reads e expected ps a qs → a = e ∧ qs = ps) ?_ e
  intro n ih hinert expected ps a qs h
  obtain ⟨hn, hchildren⟩ := Expr.inert_mk.mp hinert
  rcases reads_cases h with
    ⟨v, p, rfl, -⟩ | ⟨left, values, left', rs, added, rfl, -⟩ | ⟨-, cs, m, hcs, rfl, hshape, hreads⟩
  · cases hn
  · have hpin : Expr.Inert (.pin (.list values)) := hchildren _ (by simp [Node.children])
    cases (Expr.inert_mk.mp hpin).1
  · have hcs' := children_of_typedChildren hcs
    have hsame : ∀ {cs ps ys qs}, (∀ c ∈ cs, ∀ ps a qs, s.Reads c.1 c.2 ps a qs →
        a = c.1 ∧ qs = ps) → s.ReadsAll cs ps ys qs → ys = cs.map (·.1) ∧ qs = ps := by
      intro cs ps ys qs hread hchain
      induction hchain with
      | nil => exact ⟨rfl, rfl⟩
      | cons head _ ih =>
        obtain ⟨rfl, rfl⟩ := hread _ List.mem_cons_self _ _ _ head
        obtain ⟨rfl, rfl⟩ := ih fun c hc => hread c (List.mem_cons_of_mem _ hc)
        exact ⟨rfl, rfl⟩
    obtain ⟨hys, rfl⟩ := hsame (fun c hc ps a qs => by
      have hc' : c.1 ∈ n.children := hcs' ▸ List.mem_map_of_mem hc
      exact ih c.1 hc' (hchildren c.1 hc')) hreads
    exact ⟨congrArg Expr.mk (Node.ext_children hshape (hys.trans hcs')), rfl⟩

/-- An expression without interpolations is not one itself. -/
theorem Expr.opened_of_inert {e : Expr} (h : e.Inert) (ix : Nat) : e.opened ix = e := by
  obtain ⟨n⟩ := e
  cases n with
  | dynamic | keywords => cases (inert_mk.mp h).1
  | _ => rfl

/-! ### One join -/

/-- The condition that is declared with a join at the binding `ix`, if there is one, is read as
`planned`.  A condition that is interpolated as a whole is written out, keywords about `ix`.  The
parameters that reading it leaves are the first ones of `parameters`. -/
inductive Join.Extracts (ctx : Context) (sources : List BoundSource)
    (parameters : List BoundParameter) (ix : Nat) : Option Expr → Option Expr → Prop
  | absent : Extracts ctx sources parameters ix none none
  | read {e a rs ts} (read : ((⟨ctx, sources, ⟨.join, e.render⟩⟩ : Scope).bindExpr (e.opened ix)
      .boolean).Yields rs a ts) (kept : ts <+: parameters) :
    Extracts ctx sources parameters ix (some e) (some a)

/-- The planned joins of the declared join `j` at the binding `ix`.  A join with a source of its own
is one join with the condition that its own is read as.  A join along an association becomes a join
for each hop.  Every hop but the last has the condition that the association makes there.  The last
one has the declared binding, and its condition is the one that the association makes there and
then the one that the declared condition is read as. -/
inductive Join.Keeps (ctx : Context) (sources : List BoundSource)
    (parameters : List BoundParameter) (ix : Nat) (j : Join Query) : List (Join Query) → Prop
  | explicit {planned : Join Query} (own : j.association = none) (binding : planned.ix = some ix)
      (condition : Extracts ctx sources parameters ix j.on planned.on) :
    Keeps ctx sources parameters ix j [planned]
  | along {ref steps target hops last fresh placed start before} {planned : Join Query} {own}
      (declared : j.association = some ref)
      (leads : ref.Leads ctx.registry (sources[·]?) steps target)
      (makes : Registry.Makes (hops ++ [last]) steps target)
      (places : placeHops ref.parent fresh ix (hops ++ [last]) = placed ++ [(start, ix, last)])
      (generated : before.map (fun hop : Join Query => (hop.ix, hop.on)) =
        placed.map fun p => (some p.2.1, some (p.2.2.condition p.1 p.2.1)))
      (binding : planned.ix = some ix)
      (extracts : Extracts ctx sources parameters ix j.on own)
      (condition : planned.on = Expr.conjunction? (some (last.condition start ix)) own) :
    Keeps ctx sources parameters ix j (before ++ [planned])

theorem Join.Extracts.mono {sources : List BoundSource}
    {parameters parameters' : List BoundParameter} {ix : Nat} {on planned : Option Expr}
    (h : Extracts ctx sources parameters ix on planned) (hkept : parameters <+: parameters') :
    Extracts ctx sources parameters' ix on planned := by
  cases h with
  | absent => exact .absent
  | read read kept => exact .read read (kept.trans hkept)

theorem Join.Keeps.mono {sources : List BoundSource} {parameters parameters' : List BoundParameter}
    {ix : Nat} {j : Join Query} {block : List (Join Query)}
    (h : j.Keeps ctx sources parameters ix block) (hkept : parameters <+: parameters') :
    j.Keeps ctx sources parameters' ix block := by
  cases h with
  | explicit own binding condition => exact .explicit own binding (condition.mono hkept)
  | along declared leads makes places generated binding extracts condition =>
    exact .along declared leads makes places generated binding (extracts.mono hkept) condition

namespace Level

variable {l : Level}

/-- What may be there is read if it is, and nothing is taken back. -/
theorem extracts_bindOption {ix : Nat} {on planned : Option Expr}
    (h : (bindOption (l.bindCondition .join ix) on).Yields ps planned qs) :
    ps <+: qs ∧ Join.Extracts l.ctx l.bindings.sources qs ix on planned := by
  cases on with
  | none =>
    obtain ⟨rfl, rfl⟩ := yields_pure.mp h
    exact ⟨List.prefix_rfl, .absent⟩
  | some e =>
    obtain ⟨a, ha, rfl⟩ := yields_map.mp h
    have hread := reads_bindCondition ha
    rw [bindCondition, Scope.bindCondition_eq] at ha
    exact ⟨Scope.reads_appends _ hread, .read ha List.prefix_rfl⟩

/-- A bound join keeps its binding.  What its condition is read as comes before what the condition
that waits for the binding is read as. -/
theorem extracts_bindJoin {j : Join NestedPlan} {planned : Join Query} {ix : Nat}
    (hix : j.ix = some ix) (h : (l.bindJoin j).Yields ps planned qs) :
    planned.ix = some ix ∧ ∃ on declared, planned.on = Expr.conjunction? on declared ∧
      Join.Extracts l.ctx l.bindings.sources qs ix j.on on ∧
      Join.Extracts l.ctx l.bindings.sources qs ix (l.bindings.conditions.lookup ix) declared := by
  rw [bindJoin_eq, hix, Option.getD_some] at h
  obtain ⟨source, rs, -, hrest⟩ := yields_bind.mp h
  obtain ⟨on, us, hon, hrest'⟩ := yields_bind.mp hrest
  obtain ⟨declared, vs, hdeclared, hresult⟩ := yields_bind.mp hrest'
  obtain ⟨rfl, rfl⟩ := yields_pure.mp hresult
  obtain ⟨-, hon⟩ := extracts_bindOption hon
  obtain ⟨happends, hdeclared⟩ := extracts_bindOption hdeclared
  exact ⟨rfl, on, declared, rfl, hon.mono happends, hdeclared⟩

end Level

/-- What an association makes is read as it is. -/
theorem Join.Extracts.of_hop {sources : List BoundSource} {parameters : List BoundParameter}
    {hop : Hop} {parent ix : Nat} {planned : Option Expr}
    (h : Extracts ctx sources parameters ix (some (hop.condition parent ix)) planned) :
    planned = some (hop.condition parent ix) := by
  have hinert := hop.inert_condition parent ix
  cases h with
  | read read kept =>
    rw [Expr.opened_of_inert hinert] at read
    exact congrArg some (Scope.reads_inert _ hinert (s := ⟨ctx, sources, ⟨.join, ""⟩⟩)
      (.bound _ read)).1

/-! ### The joins of a level -/

/-- A step of reading a query level takes no parameter back. -/
theorem Clauses.appends_performs {c : Clauses Query} {b : Bindings Query} {clause : Clause}
    {task : Task NestedPlan} {i : Item Query}
    (htask : task ∈ (c.level ctx b).prepared.tasks (c.level ctx b).typeOf clause)
    (h : (c.level ctx b).Performs task ps i qs) : ps <+: qs := by
  have hitem : task.item ∈ (c.level ctx b).prepared.items clause :=
    Clauses.map_item_tasks _ _ clause ▸ List.mem_map_of_mem htask
  rw [prepared_level, items_edit] at hitem
  obtain ⟨declared, -, hdeclared⟩ := List.mem_map.mp hitem
  have hplans : task.item.Holds (fun _ => True) fun plan : NestedPlan =>
      ∀ ctx ps t qs, (plan ctx).Yields ps t qs → ps <+: qs := by
    rw [← hdeclared]
    cases declared with
    | expr e => trivial
    | nested q => exact fun ctx ps t qs => q.plan_appends
  exact Task.performs_cases (S := fun _ => ps <+: qs) h hplans
    (fun e _ _ _ _ hread => Scope.reads_appends e hread)
    (fun plan t hplan hyields => hplan _ ps t qs hyields)

namespace Level

variable {l : Level}

/-- No clause but that of the joins touches them. -/
theorem joins_foldlM_bindClause {clauses : List Clause} (hjoin : .join ∉ clauses)
    {out out' : Clauses Query} (h : (clauses.foldlM l.bindClause out).Yields ps out' qs) :
    out'.joins = out.joins := by
  induction clauses generalizing out ps with
  | nil =>
    rw [List.foldlM_nil] at h
    obtain ⟨rfl, -⟩ := yields_pure.mp h
    rfl
  | cons clause clauses ih =>
    rw [List.foldlM_cons] at h
    obtain ⟨mid, rs, hclause, hrest⟩ := yields_bind.mp h
    rw [List.mem_cons, not_or] at hjoin
    rw [ih hjoin.2 hrest]
    cases clause
    case join => exact absurd rfl hjoin.1
    case preload =>
      obtain ⟨rfl, -⟩ := yields_pure.mp hclause
      rfl
    all_goals
      obtain ⟨x, us, -, hresult⟩ := yields_bind.mp hclause
      obtain ⟨rfl, -⟩ := yields_pure.mp hresult
      rfl

/-- The planned joins of a level are its bound joins, read one after the other. -/
theorem yields_joins {t : Query} (h : l.bind.Yields ps t qs) :
    ∃ rs ts, ∃ after : List Clause,
      Yields (l.bindings.joins.mapM l.bindJoin) rs t.clauses.joins ts ∧
      Chain l.Performs (after.flatMap (l.prepared.tasks l.typeOf)) ts
        (after.flatMap t.clauses.items) qs := by
  obtain ⟨d, us, hd, hresult⟩ := yields_bind.mp h
  obtain ⟨rfl, rfl⟩ := yields_pure.mp hresult
  have hmem : Clause.join ∈ l.ctx.operation.clauseOrder :=
    l.ctx.operation.mem_clauseOrder.mpr (by simp)
  have hpreload : Clause.preload ∉ l.ctx.operation.clauseOrder :=
    fun hmem => (l.ctx.operation.mem_clauseOrder.mp hmem) rfl
  have hnodup := l.ctx.operation.nodup_clauseOrder
  obtain ⟨before, after, horder⟩ := List.append_of_mem hmem
  rw [horder] at hd hpreload hnodup
  rw [List.foldlM_append] at hd
  obtain ⟨front, rs, -, hd⟩ := yields_bind.mp hd
  rw [List.foldlM_cons] at hd
  obtain ⟨mid, ts, hjoins, hafter⟩ := yields_bind.mp hd
  obtain ⟨joins, vs, hyields, hresult⟩ := yields_bind.mp hjoins
  obtain ⟨rfl, rfl⟩ := yields_pure.mp hresult
  obtain ⟨-, hcons, -⟩ := List.nodup_append.mp hnodup
  obtain ⟨hfresh, hnodup'⟩ := List.nodup_cons.mp hcons
  have hpreload' : Clause.preload ∉ after := fun hmem =>
    hpreload (List.mem_append_right _ (List.mem_cons_of_mem _ hmem))
  obtain ⟨-, hchain, -⟩ := foldlM_bindClause hnodup' hpreload' hafter
  refine ⟨rs, ts, after, ?_, hchain⟩
  rw [joins_foldlM_bindClause hfresh hafter]
  exact hyields

end Level

namespace Query

/-- The planned joins of a query are its bound joins, each of them read, and the parameters that
reading it leaves are left in the end. -/
theorem plan_joins {c : Clauses Query} {t : Query} (h : (plan ⟨c⟩ ctx).Yields ps t qs) :
    ∃ b, c.resolve ctx = .ok b ∧ t.clauses.frame = (c.prepared b).frame ∧
      List.Forall₂ (fun j planned => ∃ rs ts,
          ((c.level ctx b).bindJoin (j.edit id Query.plan)).Yields rs planned ts ∧ ts <+: qs)
        b.joins t.clauses.joins := by
  obtain ⟨-, b, hb, hlevel⟩ := yields_plan_iff.mp h
  obtain ⟨b', hb', hframe, -⟩ := plan_cases h
  obtain rfl : b = b' := Except.ok.inj (hb.symm.trans hb')
  refine ⟨b, hb, hframe, ?_⟩
  obtain ⟨rs, ts, after, hjoins, hafter⟩ := Level.yields_joins hlevel
  have hrest : ts <+: qs := hafter.appends fun task htask ps i qs hperforms => by
    obtain ⟨clause, -, htask⟩ := List.mem_flatMap.mp htask
    exact Clauses.appends_performs htask hperforms
  have hkept := hjoins.chain.kept fun j hj ps planned qs hstep => by
    obtain ⟨-, hchain⟩ := Level.performs_bindJoin hstep
    refine hchain.appends fun task htask ps i qs hperforms => ?_
    have hjoin : task ∈ (c.level ctx b).prepared.tasks (c.level ctx b).typeOf .join :=
      List.mem_flatMap.mpr ⟨_, List.mem_map_of_mem hj, htask⟩
    exact Clauses.appends_performs hjoin hperforms
  have hedit : (c.level ctx b).bindings.joins = b.joins.map (Join.edit id Query.plan) := rfl
  rw [hedit, List.forall₂_map_left_iff] at hkept
  exact hkept.imp fun _ _ ⟨rs, us, hyields, hus⟩ => ⟨rs, us, hyields, hus.trans hrest⟩

end Query

/-! ### Blocks of planned joins -/

section

variable {α β : Type} {R : α → β → Prop}

/-- What is related to two lists, one after the other, is what is related to each of them. -/
theorem List.exists_append_of_forall₂ {xs xs' : List α} {ys : List β}
    (h : List.Forall₂ R (xs ++ xs') ys) :
    ∃ zs zs', ys = zs ++ zs' ∧ List.Forall₂ R xs zs ∧ List.Forall₂ R xs' zs' := by
  have hlength : xs.length = (ys.take xs.length).length := by
    have := h.length_eq
    rw [List.length_append] at this
    rw [List.length_take]
    omega
  rw [← List.take_append_drop xs.length ys] at h
  obtain ⟨hfirst, hsecond⟩ := List.forall₂_of_append hlength h
  exact ⟨_, _, (List.take_append_drop xs.length ys).symm, hfirst, hsecond⟩

/-- What is related to a list of blocks comes in blocks as well. -/
theorem List.exists_flatten_of_forall₂ : ∀ {blocks : List (List α)} {ys : List β},
    List.Forall₂ R blocks.flatten ys →
      ∃ blocks', ys = blocks'.flatten ∧ List.Forall₂ (List.Forall₂ R) blocks blocks'
  | [], _, h => by
    cases h
    exact ⟨[], rfl, .nil⟩
  | block :: blocks, ys, h => by
    rw [List.flatten_cons] at h
    obtain ⟨zs, zs', rfl, hfirst, hrest⟩ := List.exists_append_of_forall₂ h
    obtain ⟨blocks', rfl, hblocks⟩ := List.exists_flatten_of_forall₂ hrest
    exact ⟨zs :: blocks', rfl, .cons hfirst hblocks⟩

end

/-- Of the hops of a block the last one takes the declared binding. -/
theorem placeHops_concat (final : Nat) (hops : List Hop) (last : Hop) (parent fresh : Nat) :
    ∃ placed start, placeHops parent fresh final (hops ++ [last]) =
      placed ++ [(start, final, last)] := by
  have hix := ix_placeHops final (hops ++ [last]) parent fresh (by simp)
  have hhop := hop_placeHops final (hops ++ [last]) parent fresh
  obtain ⟨placed, rest, hplaced, -, hrest⟩ := List.map_eq_append_iff.mp hix
  obtain ⟨⟨start, ix, hop⟩, rfl, hfinal⟩ := List.map_eq_singleton_iff.mp hrest
  obtain rfl : ix = final := hfinal
  rw [hplaced, List.map_append] at hhop
  obtain ⟨-, hlast⟩ := List.append_inj' hhop rfl
  obtain rfl : hop = last := (List.cons.inj hlast).1
  exact ⟨placed, start, hplaced⟩

/-- What the level waits to read for a binding is what is declared for it. -/
theorem Clauses.lookup_level {c : Clauses Query} (b : Bindings Query) (ix : Nat) :
    (c.level ctx b).bindings.conditions.lookup ix = b.conditions.lookup ix := by
  have hsame : (c.level ctx b).bindings.conditions = b.conditions := List.map_id' b.conditions
  rw [hsame]

/-- A block of bound joins is read as the planned joins of its declared join. -/
theorem Join.Becomes.keeps {c : Clauses Query} {b : Bindings Query} {ix : Nat} {j : Join Query}
    {block planned : List (Join Query)}
    (h : j.Becomes ctx c.queryPrefix (b.sources[·]?) ix block)
    (hdeclared : b.conditions.lookup ix = j.besideAssociation)
    (hfresh : ∀ hop ∈ block.dropLast, b.conditions.lookup (hop.ix.getD 0) = none)
    (hread : List.Forall₂ (fun bound planned => ∃ rs ts,
      ((c.level ctx b).bindJoin (bound.edit id Query.plan)).Yields rs planned ts ∧ ts <+: qs)
        block planned) :
    j.Keeps ctx b.sources qs ix planned := by
  have hon : ∀ bound : Join Query, (bound.edit id Query.plan).on = bound.on :=
    fun bound => Option.map_id'
  cases h with
  | explicit own =>
    obtain ⟨planned, rest, ⟨rs, ts, hyields, hts⟩, hrest, rfl⟩ :=
      List.forall₂_cons_left_iff.mp hread
    cases hrest
    obtain ⟨hix, on, declared, hcondition, hextracts, hnone⟩ :=
      Level.extracts_bindJoin rfl hyields
    rw [Clauses.lookup_level, hdeclared, Join.besideAssociation, own] at hnone
    cases hnone
    have hplanned : planned.on = on := by
      rw [hcondition]
      cases on <;> rfl
    rw [hon] at hextracts
    exact .explicit own hix (hplanned ▸ hextracts.mono hts)
  | @along ref steps target hops fresh declared earlier leads makes =>
    obtain ⟨hops, last, rfl⟩ : ∃ hops' last, hops = hops' ++ [last] :=
      List.eq_nil_or_concat' hops |>.resolve_left (Registry.Makes.ne_nil makes)
    obtain ⟨placed, start, hplaced⟩ := placeHops_concat ix hops last ref.parent fresh
    rw [hplaced, List.map_append, List.map_singleton] at hread hfresh
    obtain ⟨before, final, rfl, hbefore, hfinal⟩ := List.exists_append_of_forall₂ hread
    obtain ⟨planned, rest, ⟨rs, ts, hyields, hts⟩, hrest, rfl⟩ :=
      List.forall₂_cons_left_iff.mp hfinal
    cases hrest
    obtain ⟨hix, generated, own, hcondition, hgenerated, hown⟩ :=
      Level.extracts_bindJoin rfl hyields
    rw [hon] at hgenerated
    obtain rfl := Extracts.of_hop hgenerated
    rw [Clauses.lookup_level, hdeclared, Join.besideAssociation, declared] at hown
    refine .along declared leads makes hplaced ?_ hix (hown.mono hts) hcondition
    -- no condition is declared for the bindings of the other hops
    rw [List.dropLast_concat] at hfresh
    rw [List.forall₂_map_left_iff] at hbefore
    have hkeeps := (List.forall₂_and_left placed before).mpr
      ⟨fun p hp => hfresh _ (List.mem_map_of_mem hp), hbefore⟩
    refine (List.map_eq_of_forall₂ (hkeeps.imp fun p planned => ?_)).symm
    rintro ⟨hnone, rs, ts, hyields, hts⟩
    obtain ⟨hix, generated, own, hcondition, hgenerated, hown⟩ :=
      Level.extracts_bindJoin rfl hyields
    rw [hon] at hgenerated
    obtain rfl := Extracts.of_hop hgenerated
    rw [Clauses.lookup_level] at hown
    have hlookup : b.conditions.lookup p.2.1 = none := hnone
    rw [hlookup] at hown
    cases hown
    rw [hix, hcondition]
    rfl

namespace Clauses

/-- The joins of the planned level `d` have bindings of their own and come in blocks, one for each
declared join of `c`. -/
def KeepsConditions (ctx : Context) (parameters : List BoundParameter) (c d : Clauses Query) :
    Prop :=
  (d.joins.map Join.ix).Nodup ∧ ∃ blocks, d.joins = blocks.flatten ∧
    List.Forall₂ (fun declared block => declared.2.Keeps ctx d.sources parameters declared.1 block)
      c.declaredJoins blocks

/-- **The conditions of the joins of a level.** -/
theorem keepsConditions_of_plan {c : Clauses Query} {t : Query}
    (h : (Query.plan ⟨c⟩ ctx).Yields ps t qs) : c.KeepsConditions ctx qs t.clauses := by
  obtain ⟨b, hb, hframe, hjoins⟩ := Query.plan_joins h
  obtain ⟨-, hperm, blocks, hflatten, hlength, hfresh, hbecomes⟩ := resolve_blocks hb
  have hsources : t.clauses.sources = b.sources := congrArg Clauses.sources hframe
  have hixs : t.clauses.joins.map Join.ix = b.joins.map Join.ix := by
    have hframes := congrArg (fun c => c.joins.map Join.ix) hframe
    simpa [frame, edit, prepared, Join.prepared, Join.edit, Function.comp_def] using hframes
  refine ⟨?_, ?_⟩
  · rw [hixs]
    exact hperm.nodup_iff.mpr (List.Nodup.map (Option.some_injective _) List.nodup_range')
  rw [hflatten] at hjoins
  obtain ⟨planned, hplanned, hblocks⟩ := List.exists_flatten_of_forall₂ hjoins
  refine ⟨planned, hplanned, List.forall₂_of_length_eq_of_get ?_ fun i hi hi' => ?_⟩
  · rw [← hblocks.length_eq, hlength]
    simp [declaredJoins]
  · have hj : i < c.joins.length := by simpa [declaredJoins] using hi
    obtain ⟨block, hblock, hbecomes⟩ := hbecomes i c.joins[i] (List.getElem?_eq_getElem hj)
    have hget := hblocks.get (hblocks.length_eq ▸ hi') hi'
    obtain ⟨hib, rfl⟩ := List.getElem?_eq_some_iff.mp hblock
    have hlookup : b.conditions.lookup (i + 1) = c.joins[i].besideAssociation := by
      rw [lookup_conditions hb, besideAssociation, List.getElem?_eq_getElem hj, Option.bind_some]
    have hkeeps := hbecomes.keeps hlookup
      (fun hop hhop => lookup_conditions_fresh hb hfresh (List.getElem_mem hib) hhop) hget
    rw [hsources]
    simpa [declaredJoins] using hkeeps

end Clauses

/-! ### Whole plans -/

/-- What holds of every level that is planned, with parameters that are left in the end, holds
throughout a query that is planned. -/
theorem Query.throughout_plan {R : Context → Clauses Query → Clauses Query → Prop}
    {parameters : List BoundParameter}
    (hlevel : ∀ ctx c ps t qs, (plan ⟨c⟩ ctx).Yields ps t qs → qs <+: parameters →
      R ctx c t.clauses) (q : Query) :
    ∀ ctx ps t qs, (q.plan ctx).Yields ps t qs → qs <+: parameters → q.Throughout R ctx t := by
  refine Query.induction (P := fun q => ∀ ctx ps t qs, (q.plan ctx).Yields ps t qs →
    qs <+: parameters → q.Throughout R ctx t) ?_ q
  intro c ih ctx ps t qs h hkept
  obtain ⟨d⟩ := t
  obtain ⟨hcount, hnested⟩ := List.forall₂_iff_zip.mp (plan_queries_kept h)
  refine .mk (hlevel ctx c ps ⟨d⟩ qs h hkept) hcount ?_
  rintro ⟨inner, planned⟩ hpair
  obtain ⟨rs, ts, hyields, hts⟩ := hnested hpair
  exact ih inner (Clauses.considered_nested_subset (List.of_mem_zip hpair).1) _ rs planned ts
    hyields (hts.trans hkept)

/-- **Where the conditions of joins are found.**  At every level of a planned query each declared
join has joins of its own, of which one has the declared binding.  Its own condition, if it has one,
is read once and found there alone: as it is read on a join with a source of its own, and on a join
along an association behind the condition that the association makes at its last hop.  The
conditions of the hops before the last one are those that the association makes. -/
theorem Planner.plan_conditions {p : Planner} {q : Query} {operation : Operation}
    {caps : Capabilities} {plan : Plan} (h : p.plan q operation caps = .ok plan) :
    q.Throughout (fun ctx => Clauses.KeepsConditions ctx plan.parameters)
      (p.context operation caps) plan.query := by
  obtain ⟨hyields, -⟩ := Planner.plan_cases h
  refine q.throughout_plan (fun ctx c ps t qs hlevel hkept => ?_) _ _ _ _ hyields List.prefix_rfl
  obtain ⟨hnodup, blocks, hjoins, hblocks⟩ := Clauses.keepsConditions_of_plan hlevel
  exact ⟨hnodup, blocks, hjoins, hblocks.imp fun _ _ hkeeps => hkeeps.mono hkept⟩

/-- Posts with the owner of their labels that has a given number, and with users of some age. -/
def Query.knownOwners : Query :=
  ((Query.ofSchema "posts" "Post").join
      { Join.along .left 0 "label_owners" with on := some (.keywords [("id", .int 5)]) }).innerJoin
    (.table "users") (.dynamic ((Expr.field 2 "age").gt (.pin (.int 18))))

/-- The number is asked of the last of the three hops, the one with the declared binding. -/
theorem Planner.plan_conditions_owners :
    ∃ plan, (⟨.labelled, .builtin, none, {}⟩ : Planner).plan .knownOwners .all
        Dialect.postgres.capabilities = .ok plan ∧
      plan.query.clauses.joins.map (fun j => (j.ix, j.on.map Expr.render)) =
        [(some 3, some "(&3.post_id == &0.id) and is_nil(&3.deleted_at)"),
          (some 4, some
            "(&4.id == &3.label_id) and fragment(\"? <> upper(?)\", &4.name, &4.name)"),
          (some 1, some "(&1.id == &4.owner_id) and (&1.id == ?0)"),
          (some 2, some "&2.age > ?1")] ∧
      Query.knownOwners.Throughout (fun ctx => Clauses.KeepsConditions ctx plan.parameters)
        ((⟨.labelled, .builtin, none, {}⟩ : Planner).context .all Dialect.postgres.capabilities)
        plan.query := by
  have hplanned : ((⟨.labelled, .builtin, none, {}⟩ : Planner).plan .knownOwners .all
      Dialect.postgres.capabilities).toOption.map
        (·.query.clauses.joins.map fun j => (j.ix, j.on.map Expr.render)) =
      some [(some 3, some "(&3.post_id == &0.id) and is_nil(&3.deleted_at)"),
        (some 4, some
          "(&4.id == &3.label_id) and fragment(\"? <> upper(?)\", &4.name, &4.name)"),
        (some 1, some "(&1.id == &4.owner_id) and (&1.id == ?0)"),
        (some 2, some "&2.age > ?1")] := by
    decide +kernel
  obtain ⟨plan, hplan, hjoins⟩ := Option.map_eq_some_iff.mp hplanned
  have hok := Except.toOption_eq_some_iff.mp hplan
  exact ⟨plan, hok, hjoins, Planner.plan_conditions hok⟩

end QueryPlanner
