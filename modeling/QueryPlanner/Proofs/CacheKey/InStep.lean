import QueryPlanner.Proofs.CacheKey.Expr
import QueryPlanner.Proofs.Plan.Interpolation
import QueryPlanner.Proofs.Plan.Query

/-!
# Two runs of planning go in step

Two queries that differ in interpolated values only are planned side by side.  Every step yields the
same in both runs up to the numbers of placeholders.  The numbers can only part where an
interpolated collection is read; as long as none is, the results are equal and the parameters that
are added are of the same types and clauses.

* `InStep`, `Chain.inStep` — one step and steps in a row
* `Scope.reads_inStep` — reading an expression
* `Query.plan_inStep` — planning a query
-/

namespace QueryPlanner

variable {α β γ δ : Type}

/-- Two runs of a step go in step.  Their results are the same up to `u`; if the first satisfies `S`
and the runs begin with parameters of the same kinds, then the results are equal and the kinds of
the parameters are still the same. -/
structure InStep (u : β → γ) (S : β → Prop) (ps₁ : List BoundParameter) (y₁ : β)
    (qs₁ ps₂ : List BoundParameter) (y₂ : β) (qs₂ : List BoundParameter) : Prop where
  same : u y₁ = u y₂
  exact : S y₁ → ps₁.map (·.kind) = ps₂.map (·.kind) →
    y₁ = y₂ ∧ qs₁.map (·.kind) = qs₂.map (·.kind)

/-- Steps in a row on inputs that are the same up to `v` go in step if each of them does. -/
theorem Chain.inStep {R R' : α → List BoundParameter → β → List BoundParameter → Prop} {v : α → δ}
    {u : β → γ} {S : β → Prop} {xs₁ xs₂ : List α} {ys₁ ys₂ : List β}
    {ps₁ qs₁ ps₂ qs₂ : List BoundParameter} (h₁ : Chain R xs₁ ps₁ ys₁ qs₁)
    (h₂ : Chain R' xs₂ ps₂ ys₂ qs₂) (hv : xs₁.map v = xs₂.map v)
    (hR : ∀ x₁ ∈ xs₁, ∀ x₂, v x₁ = v x₂ → ∀ ps₁ y₁ qs₁ ps₂ y₂ qs₂,
      R x₁ ps₁ y₁ qs₁ → R' x₂ ps₂ y₂ qs₂ → InStep u S ps₁ y₁ qs₁ ps₂ y₂ qs₂) :
    InStep (List.map u) (fun ys => ∀ y ∈ ys, S y) ps₁ ys₁ qs₁ ps₂ ys₂ qs₂ := by
  induction h₁ generalizing xs₂ ps₂ ys₂ with
  | nil =>
    obtain rfl := List.map_eq_nil_iff.mp hv.symm
    cases h₂
    exact ⟨rfl, fun _ hkinds => ⟨rfl, hkinds⟩⟩
  | cons head _ ih =>
    obtain ⟨x₂, rest₂, rfl, hx, hrest⟩ := List.map_eq_cons_iff.mp hv.symm
    cases h₂ with
    | cons head₂ tail₂ =>
      have hhead := hR _ List.mem_cons_self x₂ hx.symm _ _ _ _ _ _ head head₂
      have htail := ih tail₂ hrest.symm fun x hx => hR x (List.mem_cons_of_mem _ hx)
      refine ⟨by rw [List.map_cons, List.map_cons, hhead.same, htail.same], fun hS hkinds => ?_⟩
      obtain ⟨hfirst, hbetween⟩ := hhead.exact (hS _ List.mem_cons_self) hkinds
      obtain ⟨hothers, hafter⟩ :=
        htail.exact (fun y hy => hS y (List.mem_cons_of_mem _ hy)) hbetween
      exact ⟨by rw [hfirst, hothers], hafter⟩

/-! ### Expressions -/

namespace Expr

variable {n m : Node Expr}

theorem forget_of_without_eq (h : without .interpolated ⟨n⟩ = without .interpolated ⟨m⟩) :
    Detail.interpolated.forget (n.map (without .interpolated)) =
      Detail.interpolated.forget (m.map (without .interpolated)) := by
  rw [without_mk, without_mk] at h
  exact congrArg Expr.node h

/-- Whether a node is plain shows without interpolated values. -/
theorem plain_of_without_eq (h : without .interpolated ⟨n⟩ = without .interpolated ⟨m⟩)
    (hn : n.Plain) : m.Plain := by
  have hplain : ∀ k : Node Expr,
      (Detail.interpolated.forget (k.map (without .interpolated))).Plain ↔ k.Plain := by
    intro k
    cases k with
    | isIn left right =>
      obtain ⟨r⟩ := right
      simp only [Node.map, without_mk]
      cases r <;> exact Iff.rfl
    | _ => exact Iff.rfl
  rw [← hplain, ← forget_of_without_eq h, hplain]
  exact hn

/-- Plain nodes that agree without interpolated values lose only what their children lose. -/
theorem map_without_eq (h : without .interpolated ⟨n⟩ = without .interpolated ⟨m⟩)
    (hn : n.Plain) : n.map (without .interpolated) = m.map (without .interpolated) := by
  have hforget : ∀ k : Node Expr, k.Plain → Detail.interpolated.forget
      (k.map (without .interpolated)) = k.map (without .interpolated) := by
    intro k hk
    cases k <;> first | rfl | cases hk
  rw [← hforget n hn, ← hforget m (plain_of_without_eq h hn), forget_of_without_eq h]

end Expr

namespace Scope

variable {s : Scope} {expected : FieldType} {ps₁ qs₁ ps₂ qs₂ : List BoundParameter}

/-- Nodes that hand types down go in step if their children do. -/
theorem HandsDown.inStep {n₁ n₂ : Node Expr} {a₁ a₂ : Expr}
    (h₁ : s.HandsDown n₁ expected ps₁ a₁ qs₁) (h₂ : s.HandsDown n₂ expected ps₂ a₂ qs₂)
    (hmap : n₁.map (Expr.without .interpolated) = n₂.map (Expr.without .interpolated))
    (ih : ∀ c₁ ∈ n₁.children, ∀ (c₂ : Expr) expected ps₁ a₁ qs₁ ps₂ a₂ qs₂,
      c₁.without .interpolated = c₂.without .interpolated → s.Reads c₁ expected ps₁ a₁ qs₁ →
        s.Reads c₂ expected ps₂ a₂ qs₂ →
          InStep (Expr.without .numbers) Expr.RangeFree ps₁ a₁ qs₁ ps₂ a₂ qs₂) :
    InStep (Expr.without .numbers) Expr.RangeFree ps₁ a₁ qs₁ ps₂ a₂ qs₂ := by
  obtain ⟨cs₁, m₁, hcs₁, rfl, hshape₁, hreads₁⟩ := h₁
  obtain ⟨cs₂, m₂, hcs₂, rfl, hshape₂, hreads₂⟩ := h₂
  have htyped : cs₁.map withoutValues = cs₂.map withoutValues := by
    have hsome : (some cs₁).map (List.map withoutValues) =
        (some cs₂).map (List.map withoutValues) := by
      rw [← hcs₁, ← hcs₂, ← typedChildren_without, ← typedChildren_without, hmap]
    exact Option.some.inj hsome
  have hstep := hreads₁.inStep hreads₂ htyped fun c₁ hc₁ c₂ hc ps₁ a₁ qs₁ ps₂ a₂ qs₂ hr₁ hr₂ => by
    obtain ⟨hexpr, htype⟩ := Prod.mk.injEq .. ▸ hc
    have hmem : c₁.1 ∈ n₁.children := children_of_typedChildren hcs₁ ▸ List.mem_map_of_mem hc₁
    exact ih c₁.1 hmem c₂.1 _ _ _ _ _ _ _ hexpr hr₁ (htype ▸ hr₂)
  have hshape : m₁.shape = m₂.shape := by
    rw [hshape₁, hshape₂, ← Node.shape_map (Expr.without .interpolated) n₁, hmap, Node.shape_map]
  refine ⟨?_, fun hrange hkinds => ?_⟩
  · have hmaps : m₁.map (Expr.without .numbers) = m₂.map (Expr.without .numbers) := by
      refine Node.ext_children ?_ ?_
      · rw [Node.shape_map, Node.shape_map, hshape]
      · rw [Node.children_map, Node.children_map, hstep.same]
    rw [Expr.without_mk, Expr.without_mk, hmaps]
  · obtain ⟨hchildren, hafter⟩ := hstep.exact (Expr.rangeFree_mk.mp hrange).2 hkinds
    exact ⟨congrArg Expr.mk (Node.ext_children hshape hchildren), hafter⟩

/-- **Reading two expressions** that differ in interpolated values only goes in step. -/
theorem reads_inStep (e₁ : Expr) : ∀ (e₂ : Expr) expected ps₁ a₁ qs₁ ps₂ a₂ qs₂,
    e₁.without .interpolated = e₂.without .interpolated → s.Reads e₁ expected ps₁ a₁ qs₁ →
      s.Reads e₂ expected ps₂ a₂ qs₂ →
        InStep (Expr.without .numbers) Expr.RangeFree ps₁ a₁ qs₁ ps₂ a₂ qs₂ := by
  refine Expr.induction (P := fun e₁ => ∀ (e₂ : Expr) expected ps₁ a₁ qs₁ ps₂ a₂ qs₂,
    e₁.without .interpolated = e₂.without .interpolated → s.Reads e₁ expected ps₁ a₁ qs₁ →
      s.Reads e₂ expected ps₂ a₂ qs₂ →
        InStep (Expr.without .numbers) Expr.RangeFree ps₁ a₁ qs₁ ps₂ a₂ qs₂) ?_ e₁
  rintro n₁ ih ⟨n₂⟩ expected ps₁ a₁ qs₁ ps₂ a₂ qs₂ hsame h₁ h₂
  have hforget := Expr.forget_of_without_eq hsame
  rcases reads_cases h₁ with
    ⟨v₁, p₁, rfl, htype₁, hclause₁, rfl, rfl⟩ |
    ⟨left₁, values₁, left₁', rs₁, added₁, rfl, hleft₁, -, rfl, rfl⟩ | ⟨hplain, hhands₁⟩
  · rcases reads_cases h₂ with
      ⟨v₂, p₂, rfl, htype₂, hclause₂, rfl, rfl⟩ | ⟨_, _, _, _, _, rfl, -⟩ | ⟨hplain, -⟩
    · refine ⟨rfl, fun _ hkinds => ?_⟩
      have hlength : ps₁.length = ps₂.length := by simpa using congrArg List.length hkinds
      have hkind : p₁.kind = p₂.kind := by
        rw [BoundParameter.kind, BoundParameter.kind, htype₁, htype₂, hclause₁, hclause₂]
      exact ⟨by rw [hlength], by rw [List.map_append, List.map_append, hkinds, List.map_singleton,
        List.map_singleton, hkind]⟩
    · cases hforget
    · exact (Expr.plain_of_without_eq hsame.symm hplain).elim
  · rcases reads_cases h₂ with
      ⟨_, _, rfl, -⟩ | ⟨left₂, values₂, left₂', rs₂, added₂, rfl, hleft₂, -, rfl, rfl⟩ |
      ⟨hplain, -⟩
    · cases hforget
    · have hlefts : left₁.without .interpolated = left₂.without .interpolated :=
        (Node.isIn.inj hforget).1
      have hstep := ih left₁ List.mem_cons_self left₂ _ _ _ _ _ _ _ hlefts hleft₁ hleft₂
      refine ⟨?_, fun hrange _ => ?_⟩
      · rw [Expr.without_mk, Expr.without_mk, Node.map, Node.map, hstep.same]
        rfl
      · exact (Expr.not_rangeFree_isIn _ _ _ hrange).elim
    · exact (Expr.plain_of_without_eq hsame.symm hplain).elim
  · rcases reads_cases h₂ with ⟨_, _, rfl, -⟩ | ⟨_, _, _, _, _, rfl, -⟩ | ⟨-, hhands₂⟩
    · exact (Expr.plain_of_without_eq hsame hplain).elim
    · exact (Expr.plain_of_without_eq hsame hplain).elim
    · exact hhands₁.inStep hhands₂ (Expr.map_without_eq hsame hplain) ih

end Scope

/-! ### Queries -/

/-- Two tasks that differ in interpolated values only go in step. -/
theorem Task.Performs.inStep {place : Clause → Scope} {plan : Query → Binder Query}
    {task₁ task₂ : Task Query} {ps₁ qs₁ ps₂ qs₂ : List BoundParameter} {i₁ i₂ : Item Query}
    (h₁ : task₁.Performs place plan ps₁ i₁ qs₁) (h₂ : task₂.Performs place plan ps₂ i₂ qs₂)
    (hsame : task₁.map (Expr.without .interpolated) (Query.without .interpolated) =
      task₂.map (Expr.without .interpolated) (Query.without .interpolated))
    (hnested : task₁.item.Holds (fun _ => True) fun q₁ => ∀ (q₂ : Query) ps₁ t₁ qs₁ ps₂ t₂ qs₂,
      q₁.without .interpolated = q₂.without .interpolated → (plan q₁).Yields ps₁ t₁ qs₁ →
        (plan q₂).Yields ps₂ t₂ qs₂ →
          InStep (Query.without .numbers) (Query.All Expr.RangeFree) ps₁ t₁ qs₁ ps₂ t₂ qs₂) :
    InStep (Item.map (Expr.without .numbers) (Query.without .numbers)) (Item.All Expr.RangeFree)
      ps₁ i₁ qs₁ ps₂ i₂ qs₂ := by
  obtain ⟨clause, expected, item₁⟩ := task₁
  obtain ⟨clause', expected', item₂⟩ := task₂
  obtain ⟨rfl, rfl, hitem⟩ := (Task.mk.injEq ..) ▸ hsame
  cases item₁ with
  | expr e₁ =>
    cases item₂ with
    | nested q₂ => cases hitem
    | expr e₂ =>
      cases i₁ with
      | nested t₁ => cases h₁
      | expr a₁ =>
        cases i₂ with
        | nested t₂ => cases h₂
        | expr a₂ =>
          obtain ⟨type, htype, hread₁⟩ := h₁
          obtain ⟨type', htype', hread₂⟩ := h₂
          obtain rfl := Option.some.inj (htype.symm.trans htype')
          have hstep := Scope.reads_inStep e₁ e₂ _ _ _ _ _ _ _ (Item.expr.inj hitem) hread₁ hread₂
          refine ⟨congrArg Item.expr hstep.same, fun hrange hkinds => ?_⟩
          obtain ⟨hresult, hafter⟩ := hstep.exact hrange hkinds
          exact ⟨congrArg Item.expr hresult, hafter⟩
  | nested q₁ =>
    cases item₂ with
    | expr e₂ => cases hitem
    | nested q₂ =>
      cases i₁ with
      | expr a₁ => cases h₁
      | nested t₁ =>
        cases i₂ with
        | expr a₂ => cases h₂
        | nested t₂ =>
          have hstep := hnested q₂ _ _ _ _ _ _ (Item.nested.inj hitem) h₁ h₂
          refine ⟨congrArg Item.nested hstep.same, fun hrange hkinds => ?_⟩
          obtain ⟨hresult, hafter⟩ := hstep.exact hrange hkinds
          exact ⟨congrArg Item.nested hresult, hafter⟩

/-- **Planning two queries** that differ in interpolated values only goes in step. -/
theorem Query.plan_inStep (q₁ : Query) : ∀ (q₂ : Query) (ctx : Context) ps₁ t₁ qs₁ ps₂ t₂ qs₂,
    q₁.without .interpolated = q₂.without .interpolated → (q₁.plan ctx).Yields ps₁ t₁ qs₁ →
      (q₂.plan ctx).Yields ps₂ t₂ qs₂ →
        InStep (Query.without .numbers) (Query.All Expr.RangeFree) ps₁ t₁ qs₁ ps₂ t₂ qs₂ := by
  refine Query.induction_items (P := fun q₁ => ∀ (q₂ : Query) (ctx : Context)
    ps₁ t₁ qs₁ ps₂ t₂ qs₂,
    q₁.without .interpolated = q₂.without .interpolated → (q₁.plan ctx).Yields ps₁ t₁ qs₁ →
      (q₂.plan ctx).Yields ps₂ t₂ qs₂ →
        InStep (Query.without .numbers) (Query.All Expr.RangeFree) ps₁ t₁ qs₁ ps₂ t₂ qs₂) ?_ q₁
  rintro c₁ ih ⟨c₂⟩ ctx ps₁ ⟨d₁⟩ qs₁ ps₂ ⟨d₂⟩ qs₂ hsame h₁ h₂
  rw [Query.without_mk, Query.without_mk] at hsame
  have hedit := Query.mk.inj hsame
  obtain ⟨b₁, hb₁, hframe₁, hchain₁⟩ := Query.plan_cases h₁
  obtain ⟨b₂, hb₂, hframe₂, hchain₂⟩ := Query.plan_cases h₂
  obtain ⟨hsources, hprepared⟩ :=
    Clauses.prepared_edit_eq Expr.transparent_interpolated hb₁ hb₂ hedit
  have hpre := congrArg Clauses.queryPrefix hedit
  change c₁.queryPrefix = c₂.queryPrefix at hpre
  rw [← hsources, ← hpre] at hchain₂
  have hframe : d₁.frame = d₂.frame := by
    have hframes := congrArg Clauses.frame hprepared
    rw [Clauses.frame_edit, Clauses.frame_edit] at hframes
    exact hframe₁.trans (hframes.trans hframe₂.symm)
  have htasks : (ctx.operation.clauseOrder.flatMap ((c₁.prepared b₁).tasks
      (ctx.typeOf b₁.sources))).map (Task.map (Expr.without .interpolated)
        (Query.without .interpolated)) =
      (ctx.operation.clauseOrder.flatMap ((c₂.prepared b₂).tasks (ctx.typeOf b₁.sources))).map
        (Task.map (Expr.without .interpolated) (Query.without .interpolated)) := by
    simp only [List.map_flatMap, ← Clauses.tasks_edit, hprepared]
  have hknown := Clauses.prepared_nested hb₁ ih
  have hstep := hchain₁.inStep hchain₂ htasks fun task₁ htask₁ task₂ htask ps₁ i₁ qs₁ ps₂ i₂ qs₂
      hperforms₁ hperforms₂ => by
    refine hperforms₁.inStep hperforms₂ htask ?_
    have hitem := Clauses.forall_tasks hknown _ task₁ htask₁
    cases hi : task₁.item with
    | expr e => trivial
    | nested q =>
      rw [hi] at hitem
      exact fun q₂ => hitem q₂ _
  refine ⟨?_, fun hrange hkinds => ?_⟩
  · rw [Query.without_mk, Query.without_mk]
    refine congrArg Query.mk (Clauses.ext_read_items ctx.operation ?_ ?_)
    · rw [Clauses.frame_edit, Clauses.frame_edit, hframe]
    · have hitems := hstep.same
      simp only [List.map_flatMap, ← Clauses.items_edit] at hitems
      exact hitems
  · have hall : ∀ i ∈ ctx.operation.clauseOrder.flatMap d₁.items, i.All Expr.RangeFree := by
      intro i hi
      obtain ⟨clause, -, hi⟩ := List.mem_flatMap.mp hi
      exact Query.all_mk.mp hrange clause i hi
    obtain ⟨hitems, hafter⟩ := hstep.exact hall hkinds
    exact ⟨congrArg Query.mk (Clauses.ext_read_items _ hframe hitems), hafter⟩

end QueryPlanner
