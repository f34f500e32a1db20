import QueryPlanner.Proofs.CacheKey.Oblivious
import QueryPlanner.Proofs.Plan.Separate

/-!
# Operations read the same clauses

The operations read the clauses of a query in different orders, and nested queries in one order.
Since clauses are read separately, the order decides where the parameters of a clause stand and
nothing else: which parameters there are, and which of them a placeholder stands for, is the same
for every operation.

* `Slot.addressed`, `Query.addressing` — the parameters that placeholders stand for
* `Level.bind_alone` — what a level is read as, clause by clause
* `Query.plan_rearranged` — two operations on one query
* `Query.cacheKey_operations` — keys name the operation first, and nowhere else
* `Planner.plan_operations` — plans for two operations
-/

namespace QueryPlanner

open HasExprs Binder

variable {α : Type}

/-! ### What placeholders stand for -/

/-- A run of placeholders moved up by `n`. -/
def Slot.shift (n : Nat) (s : Slot) : Slot := ⟨s.start + n, s.length⟩

/-- The parameters that a run of placeholders stands for, one by one. -/
def Slot.addressed (parameters : List BoundParameter) (s : Slot) : List (Option BoundParameter) :=
  s.indices.map (parameters[·]?)

/-- A query with parameters in the places of its placeholders: the query without the numbers of its
placeholders, and the parameters that each of them stands for, in reading order. -/
def Query.addressing (q : Query) (parameters : List BoundParameter) :
    Query × List (List (Option BoundParameter)) :=
  (q.without .numbers, (q.slots .all).map (Slot.addressed parameters))

/-- A run moved up past other parameters stands for the same ones. -/
theorem Slot.addressed_shift {before own after : List BoundParameter} {s : Slot}
    (h : s.start + s.length ≤ own.length) :
    (s.shift before.length).addressed (before ++ own ++ after) = s.addressed own := by
  have hindices : (s.shift before.length).indices = s.indices.map (before.length + ·) := by
    rw [indices, indices, List.map_add_range', Nat.add_comm before.length]
    rfl
  rw [addressed, addressed, hindices, List.map_map]
  refine List.map_congr_left fun ix hix => ?_
  have hlt : ix < own.length := by
    have := List.mem_range'_1.mp hix
    omega
  rw [Function.comp_apply, List.append_assoc, List.getElem?_append_right (Nat.le_add_right _ _),
    Nat.add_sub_cancel_left, List.getElem?_append_left hlt]

/-- Runs that follow one another stay between their ends. -/
theorem Slot.Tiles.le_of_mem {slots : List Slot} {a b : Nat} (h : Tiles slots a b) :
    ∀ s ∈ slots, s.start + s.length ≤ b := by
  induction slots generalizing a with
  | nil => exact fun _ hs => nomatch hs
  | cons r slots ih =>
    obtain ⟨rfl, hrest⟩ := h
    intro s hs
    rcases List.mem_cons.mp hs with rfl | hs
    · exact hrest.le
    · exact ih hrest s hs

/-! ### Placeholders moved up -/

theorem Node.map_shift {β : Type} (f : α → β) (n : Nat) (m : Node α) :
    (m.shift n).map f = (m.map f).shift n := by
  cases m <;> rfl

/-- Moving placeholders up changes their numbers only. -/
theorem Expr.without_shift (n : Nat) (e : Expr) :
    (e.shift n).without .numbers = e.without .numbers := by
  refine Expr.induction (P := fun e => (e.shift n).without .numbers = e.without .numbers) ?_ e
  intro m ih
  have hforget : ∀ k : Node Expr, Detail.numbers.forget (k.shift n) = Detail.numbers.forget k := by
    intro k
    cases k <;> rfl
  rw [shift_mk, without_mk, without_mk, Node.map_shift, hforget, Node.map_map]
  exact congrArg (fun k => Expr.mk (Detail.numbers.forget k)) (Node.map_congr ih)

theorem Expr.details_shift (n : Nat) (e : Expr) :
    (e.shift n).details .numbers = (e.details .numbers).map (Slot.shift n) := by
  refine Expr.induction (P := fun e =>
    (e.shift n).details .numbers = (e.details .numbers).map (Slot.shift n)) ?_ e
  intro m ih
  have hdata : ∀ k : Node Expr, Detail.numbers.data (k.shift n) =
      (Detail.numbers.data k).map (Slot.shift n) := by
    intro k
    cases k <;> rfl
  have hchildren : ∀ k : Node Expr, (k.shift n).children = k.children := by
    intro k
    cases k <;> rfl
  rw [shift_mk, details_mk, details_mk, hdata, hchildren, Detail.data_map, Node.children_map,
    List.map_append, List.flatMap_map, List.map_flatMap]
  exact congrArg _ (List.flatMap_congr ih)

/-- One replacement after another. -/
theorem Query.edit_edit (f' f : Expr → Expr) (q : Query) :
    (q.edit f).edit f' = q.edit (f' ∘ f) := by
  refine Query.induction_items (P := fun q => (q.edit f).edit f' = q.edit (f' ∘ f)) ?_ q
  intro c ih
  rw [edit_mk, edit_mk, edit_mk, Clauses.edit_edit]
  refine congrArg Query.mk (Clauses.edit_congr fun clause i hi => ?_)
  cases i with
  | expr e => rfl
  | nested q => exact congrArg Item.nested (ih clause q hi)

theorem Query.without_shift (n : Nat) (q : Query) :
    (q.shift n).without .numbers = q.without .numbers := by
  have hexpr : Expr.without .numbers ∘ Expr.shift n = Expr.without .numbers :=
    funext (Expr.without_shift n)
  exact (edit_edit _ _ q).trans (congrArg (edit · q) hexpr)

theorem Item.details_shift (n : Nat) (i : Item Query) :
    (i.shift n).details .numbers = (i.details .numbers).map (Slot.shift n) := by
  have hreading : (i.shift n).reading = i.reading.map (Expr.shift n) := by
    cases i with
    | expr e => rfl
    | nested q => exact Query.reading_edit _ q .all
  rw [details, details, hreading, List.flatMap_map, List.map_flatMap]
  exact List.flatMap_congr fun e _ => e.details_shift n

theorem Item.without_shift (n : Nat) (i : Item Query) :
    (i.shift n).map (Expr.without .numbers) (Query.without .numbers) =
      i.map (Expr.without .numbers) (Query.without .numbers) := by
  cases i with
  | expr e => exact congrArg Item.expr (e.without_shift n)
  | nested q => exact congrArg Item.nested (q.without_shift n)

/-! ### One level -/

/-- **A level is read clause by clause.**  If each clause is read by itself, the level is read with
the parameters of each in the order of the operation, and what the placeholders of a clause stand
for is found among the parameters of that clause. -/
theorem Level.bind_alone {l : Level} (h : l.Separable) {alone : Clause → Clauses Query}
    {own : Clause → List BoundParameter}
    (halone : ∀ clause, clause ≠ .preload → l.ReadsAlone clause (alone clause) (own clause))
    (htiles : ∀ clause, clause ≠ .preload →
      Slot.Tiles (((alone clause).items clause).flatMap (Item.details .numbers)) 0
        (own clause).length) :
    ∃ t, l.bind.Yields [] t (l.ctx.operation.clauseOrder.flatMap own) ∧
      ∀ clause, clause ≠ .preload →
        (t.clauses.items clause).map (Item.map (Expr.without .numbers) (Query.without .numbers)) =
          ((alone clause).items clause).map
            (Item.map (Expr.without .numbers) (Query.without .numbers)) ∧
        ((t.clauses.items clause).flatMap (Item.details .numbers)).map
            (Slot.addressed (l.ctx.operation.clauseOrder.flatMap own)) =
          (((alone clause).items clause).flatMap (Item.details .numbers)).map
            (Slot.addressed (own clause)) := by
  have hmem : ∀ clause, clause ∈ l.ctx.operation.clauseOrder ↔ clause ≠ .preload :=
    fun _ => l.ctx.operation.mem_clauseOrder
  obtain ⟨d, hyields, hitems, -⟩ := Level.foldlM_alone h l.ctx.operation.nodup_clauseOrder
    (fun hpreload => (hmem _).mp hpreload rfl)
    (fun clause hclause => halone clause ((hmem clause).mp hclause))
    { queryPrefix := l.clauses.queryPrefix
      preloads := l.clauses.preloads
      sources := l.bindings.sources } []
  refine ⟨⟨d⟩, yields_bind.mpr ⟨d, _, hyields, yields_pure.mpr ⟨rfl, rfl⟩⟩,
    fun clause hclause => ?_⟩
  obtain ⟨before, after, hsplit⟩ := List.append_of_mem ((hmem clause).mpr hclause)
  have hshifted := hitems before clause after hsplit
  rw [List.length_nil, Nat.zero_add] at hshifted
  refine ⟨?_, ?_⟩
  · rw [hshifted, List.map_map]
    exact List.map_congr_left fun i _ => i.without_shift _
  · rw [hshifted, List.flatMap_map]
    simp only [Item.details_shift, ← List.map_flatMap, List.map_map]
    refine List.map_congr_left fun s hs => ?_
    have hbound := (htiles clause hclause).le_of_mem s hs
    rw [hsplit, List.flatMap_append, List.flatMap_cons, ← List.append_assoc]
    exact Slot.addressed_shift hbound

/-! ### Two operations -/

/-- **Two operations on one query** succeed together, with the same parameters up to their order and
the same parameters in the places of the placeholders. -/
theorem Query.plan_rearranged {q : Query} (hnone : q.slots .all = []) (ctx : Context)
    (o₁ o₂ : Operation) {caps : Capabilities} {t₁ : Query} {ps₁ : List BoundParameter}
    (h : (q.plan (ctx.under o₁ caps)).Yields [] t₁ ps₁) :
    ∃ t₂ ps₂, (q.plan (ctx.under o₂ caps)).Yields [] t₂ ps₂ ∧ ps₁.Perm ps₂ ∧
      t₁.addressing ps₁ = t₂.addressing ps₂ := by
  obtain ⟨c⟩ := q
  obtain ⟨hcheck, b, hb, hlevel⟩ := yields_plan_iff.mp h
  have hresolve : ∀ o, c.resolve (ctx.under o caps) = .ok b := fun _ => hb
  have hseparable : ∀ o, (c.level (ctx.under o caps) b).Separable := fun o =>
    Clauses.separable_level (hresolve o) hnone
  -- what each clause is read as by itself, whichever operation reads it
  have hread : ∀ clause, ∃ alone own,
      (c.level (ctx.under o₁ caps) b).ReadsAlone clause alone own := by
    intro clause
    by_cases hclause : clause = .preload
    · exact ⟨{}, [], hclause ▸ yields_pure.mpr ⟨rfl, rfl⟩⟩
    · obtain ⟨d, rs, hd, -⟩ := yields_bind.mp hlevel
      exact Level.exists_alone (hseparable o₁) (fun hpreload => o₁.mem_clauseOrder.mp hpreload rfl)
        hd clause (o₁.mem_clauseOrder.mpr hclause)
  choose alone own halone using hread
  have halone' : ∀ o clause, (c.level (ctx.under o caps) b).ReadsAlone clause (alone clause)
      (own clause) := by
    intro o clause
    have hnested : ∀ plan, (c.level (ctx.under o₁ caps) b).PlansAlike (ctx.under o caps) plan :=
      fun plan => .refl ((c.level (ctx.under o₁ caps) b).bindNested plan)
    exact Level.refines_bindClause ((ctx.under o₁ caps).alike_under _ o caps)
      (fun _ plan _ => hnested plan) {} clause (halone clause)
  have hbind := fun o => Level.bind_alone (hseparable o) (fun clause _ => halone' o clause)
    fun clause hclause => Clauses.tiles_alone (hresolve o) hnone hclause (halone' o clause)
  obtain ⟨t, hyields, ht⟩ := hbind o₁
  obtain ⟨t₂, hyields₂, ht₂⟩ := hbind o₂
  obtain ⟨rfl, rfl⟩ := Prod.mk.inj (Except.ok.inj (hlevel.symm.trans hyields))
  have hperm : (o₁.clauseOrder.flatMap own).Perm (o₂.clauseOrder.flatMap own) := by
    refine List.Perm.flatMap_right own ?_
    exact (List.perm_ext_iff_of_nodup o₁.nodup_clauseOrder o₂.nodup_clauseOrder).mpr fun clause =>
      o₁.mem_clauseOrder.trans o₂.mem_clauseOrder.symm
  refine ⟨t₂, _, yields_plan_iff.mpr ⟨hcheck, b, hb, hyields₂⟩, hperm, ?_⟩
  obtain ⟨d⟩ := t₁
  obtain ⟨d₂⟩ := t₂
  have hframe : d.frame = d₂.frame :=
    (Level.bind_cases hyields).1.trans (Level.bind_cases hyields₂).1.symm
  refine Prod.ext ?_ ?_
  · simp only [addressing, without_mk]
    refine congrArg Query.mk (Clauses.ext_items ?_ fun clause => ?_)
    · rw [Clauses.frame_edit, Clauses.frame_edit, hframe]
    · rw [Clauses.items_edit, Clauses.items_edit]
      by_cases hclause : clause = .preload
      · rw [hclause]
        rfl
      · exact (ht clause hclause).1.trans (ht₂ clause hclause).1.symm
  · simp only [addressing, slots, details_mk, List.map_flatMap]
    refine List.flatMap_congr fun clause hclause => ?_
    have hpreload := Operation.all.mem_clauseOrder.mp hclause
    simp only [← List.map_flatMap]
    exact (ht clause hpreload).2.trans (ht₂ clause hpreload).2.symm

/-! ### Plans -/

/-- The key of a planned query names the operation first, and nowhere else. -/
theorem Query.cacheKey_operations {ctx : Context} {t : Query} (h : t.Planned) :
    (∀ operation, t.cacheKey ctx operation = .uncacheable) ∨
      ∃ rest, ∀ operation, t.cacheKey ctx operation = .key (.atom operation.name :: rest) := by
  obtain ⟨c⟩ := t
  by_cases hrange : Query.All Expr.RangeFree ⟨c⟩
  · refine .inr ⟨(code (Clauses.literalForm ctx) ⟨c⟩ .all).tail, fun operation => ?_⟩
    refine cacheKey_eq_key.mpr ((guarded_key h operation _).mpr ⟨hrange, ?_⟩)
    rw [code_mk, code_mk]
    rfl
  · refine .inl fun operation => ?_
    cases hkey : cacheKey ctx ⟨c⟩ operation with
    | uncacheable => rfl
    | key nodes => exact absurd ((guarded_key h operation _).mp (cacheKey_eq_key.mp hkey)).1 hrange

/-- **Operations differ in their order alone.**  Take a query without placeholders and any two
operations.  The query is planned for both or for neither.  If it is planned, the parameters are the
same up to their order; with the parameters that placeholders stand for in their places, the planned
queries are the same; and neither has a key, or the keys differ in their first node alone, which
names the operation. -/
theorem Planner.plan_operations (p : Planner) (q : Query) (o₁ o₂ : Operation)
    (caps : Capabilities) (hquery : q.slots .all = []) :
    ((∃ plan, p.plan q o₁ caps = .ok plan) ↔ ∃ plan, p.plan q o₂ caps = .ok plan) ∧
    ∀ plan₁ plan₂, p.plan q o₁ caps = .ok plan₁ → p.plan q o₂ caps = .ok plan₂ →
      plan₁.parameters.Perm plan₂.parameters ∧
      plan₁.query.addressing plan₁.parameters = plan₂.query.addressing plan₂.parameters ∧
      (plan₁.cacheKey = .uncacheable ∧ plan₂.cacheKey = .uncacheable ∨
        ∃ rest, plan₁.cacheKey = .key (.atom o₁.name :: rest) ∧
          plan₂.cacheKey = .key (.atom o₂.name :: rest)) := by
  have hplans : ∀ o o' plan, p.plan q o caps = .ok plan →
      ∃ plan', p.plan q o' caps = .ok plan' := by
    intro o o' plan h
    obtain ⟨t, ps, hyields, -⟩ :=
      Query.plan_rearranged hquery (p.context .all caps) o o' (plan_cases h).1
    exact ⟨⟨t, ps, p.cacheKey (p.context o' caps) t, p.cache.fingerprint⟩,
      plan_iff.mpr ⟨hyields, rfl, rfl⟩⟩
  refine ⟨⟨fun ⟨plan, h⟩ => hplans _ _ plan h, fun ⟨plan, h⟩ => hplans _ _ plan h⟩, ?_⟩
  intro plan₁ plan₂ h₁ h₂
  obtain ⟨hyields₁, hkey₁⟩ := plan_cases h₁
  obtain ⟨hyields₂, hkey₂⟩ := plan_cases h₂
  obtain ⟨t, ps, hyields, hperm, haddressing⟩ :=
    Query.plan_rearranged hquery (p.context .all caps) o₁ o₂ hyields₁
  obtain ⟨rfl, rfl⟩ := Prod.mk.inj (Except.ok.inj (hyields.symm.trans hyields₂))
  refine ⟨hperm, haddressing, ?_⟩
  have hplanned₁ := Query.plan_planned q _ _ _ _ hyields₁
  have hplanned₂ := Query.plan_planned q _ _ _ _ hyields₂
  -- what keys look up does not depend on the operation
  have hcache : ∀ o (t : Query), p.cacheKey (p.context o caps) t =
      if p.cache.enabled then t.cacheKey (p.context .all caps) o else .uncacheable :=
    fun _ _ => rfl
  have hsame : plan₁.query.cacheKey (p.context .all caps) o₁ =
      plan₂.query.cacheKey (p.context .all caps) o₁ := by
    unfold Query.cacheKey
    rw [Query.key_eq_of_without_eq hplanned₁ hplanned₂ (congrArg Prod.fst haddressing) o₁]
  rw [hkey₁, hkey₂, hcache, hcache, hsame]
  cases p.cache.enabled with
  | false => exact .inl ⟨rfl, rfl⟩
  | true =>
    rcases Query.cacheKey_operations hplanned₂ with hnone | ⟨rest, hrest⟩
    · exact .inl ⟨hnone o₁, hnone o₂⟩
    · exact .inr ⟨rest, hrest o₁, hrest o₂⟩

/-- Posts of a title, a few of them, that get another title. -/
def Query.retitledPosts : Query :=
  (((Query.ofTable "posts").filter ((Expr.field 0 "title").eq (.pin (.string "t")))).limit
    (.pin (.int 5))).update .set [("title", .pin (.string "u"))]

/-- Reading takes the new title last, a bulk update takes it first. -/
theorem Planner.plan_operations_retitled :
    ∃ plan₁ plan₂, (⟨.empty, .builtin, none, {}⟩ : Planner).plan .retitledPosts .all
        Dialect.postgres.capabilities = .ok plan₁ ∧
      (⟨.empty, .builtin, none, {}⟩ : Planner).plan .retitledPosts .updateAll
        Dialect.postgres.capabilities = .ok plan₂ ∧
      plan₁.parameters.map (·.value) = [.string "t", .int 5, .string "u"] ∧
      plan₂.parameters.map (·.value) = [.string "u", .string "t", .int 5] ∧
      plan₁.parameters.Perm plan₂.parameters ∧
      plan₁.query.addressing plan₁.parameters = plan₂.query.addressing plan₂.parameters := by
  have hread : ((⟨.empty, .builtin, none, {}⟩ : Planner).plan .retitledPosts .all
      Dialect.postgres.capabilities).toOption.map (·.parameters.map (·.value)) =
        some [.string "t", .int 5, .string "u"] := by
    decide +kernel
  have hwritten : ((⟨.empty, .builtin, none, {}⟩ : Planner).plan .retitledPosts .updateAll
      Dialect.postgres.capabilities).toOption.map (·.parameters.map (·.value)) =
        some [.string "u", .string "t", .int 5] := by
    decide +kernel
  obtain ⟨plan₁, hplan₁, hvalues₁⟩ := Option.map_eq_some_iff.mp hread
  obtain ⟨plan₂, hplan₂, hvalues₂⟩ := Option.map_eq_some_iff.mp hwritten
  have h₁ := Except.toOption_eq_some_iff.mp hplan₁
  have h₂ := Except.toOption_eq_some_iff.mp hplan₂
  obtain ⟨hperm, haddressing, -⟩ := (Planner.plan_operations _ _ .all .updateAll _
    (by decide +kernel)).2 plan₁ plan₂ h₁ h₂
  exact ⟨plan₁, plan₂, h₁, h₂, hvalues₁, hvalues₂, hperm, haddressing⟩

end QueryPlanner
