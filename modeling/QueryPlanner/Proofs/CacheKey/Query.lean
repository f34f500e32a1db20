import QueryPlanner.Proofs.CacheKey.Level

/-!
# A planned query can be told from its key

A planned query is written down level by level.  From what is written one can tell the query up to
the numbers of placeholders, which are not written, and up to what keys leave out on purpose.

* `Query.guarded_key` — a key of a planned query is its code
* `Query.settled`, `Query.canonical` — a query without what keys leave out
* `Query.canonical_of_code_eq` — one code, the same canonical query up to numbers
-/

namespace QueryPlanner

open HasExprs

variable {σ τ : Type}

/-! ### Planned queries -/

/-- A query of which every level is as planning makes it. -/
inductive Query.Planned : Query → Prop
  | mk {c : Clauses Query} (level : c.Planned)
    (nested : ∀ clause q, .nested q ∈ c.items clause → q.Planned) : Planned ⟨c⟩

/-- A level with the frame of a prepared one is as planning makes it. -/
theorem Clauses.planned_of_frame_eq {ctx : Context} {c : Clauses σ} {b : Bindings σ}
    {d : Clauses τ} (hb : c.resolve ctx = .ok b) (h : d.frame = (c.prepared b).frame) :
    d.Planned := by
  have hgroupBys : d.groupBys.map (rewrite fun _ => Expr.hole) =
      (c.groupBys.map GroupBy.written).map (rewrite fun _ => Expr.hole) :=
    congrArg Clauses.groupBys h
  have horderBys : d.orderBys.map (rewrite fun _ => Expr.hole) =
      (c.orderBys.map OrderBy.written).map (rewrite fun _ => Expr.hole) :=
    congrArg Clauses.orderBys h
  have hselect : d.select.map (rewrite fun _ => Expr.hole) =
      (c.select.map fun s => { expr := s.expr }).map (rewrite fun _ => Expr.hole) :=
    congrArg Clauses.select h
  refine ⟨bound_of_frame_eq hb h, fun g hg => ?_, fun o ho => ?_, fun s hs => ?_⟩
  · have hmem := hgroupBys ▸ List.mem_map_of_mem hg
    obtain ⟨g', hg', hsame⟩ := List.mem_map.mp hmem
    obtain ⟨g'', -, rfl⟩ := List.mem_map.mp hg'
    cases g with
    | exprs es => exact ⟨es, rfl⟩
    | pinned names => cases g'' <;> simp [rewrite, GroupBy.written] at hsame
  · have hmem := horderBys ▸ List.mem_map_of_mem ho
    obtain ⟨o', ho', hsame⟩ := List.mem_map.mp hmem
    obtain ⟨o'', -, rfl⟩ := List.mem_map.mp ho'
    cases o with
    | items ordered => exact ⟨ordered, rfl⟩
    | pinned names => cases o'' <;> simp [rewrite, OrderBy.written] at hsame
  · rw [hs, Option.map_some] at hselect
    cases hc : c.select with
    | none => simp [hc] at hselect
    | some s' => simpa [hc, rewrite] using hselect

/-- What planning makes is a planned query. -/
theorem Query.plan_planned (q : Query) : ∀ (ctx : Context) ps t qs,
    (q.plan ctx).Yields ps t qs → t.Planned := by
  refine Query.induction_items (P := fun q => ∀ (ctx : Context) ps t qs,
    (q.plan ctx).Yields ps t qs → t.Planned) ?_ q
  intro c ih ctx ps t qs h
  obtain ⟨b, hb, hframe, hchain⟩ := Query.plan_cases h
  obtain ⟨d⟩ := t
  have hknown := Clauses.prepared_nested hb ih
  have hresults := hchain.forall_results fun task htask ps i qs hperforms =>
    Task.performs_cases (S := fun i => i.Holds (fun _ => True) Query.Planned) hperforms
      (Clauses.forall_tasks hknown _ task htask) (fun _ _ _ _ _ _ => trivial)
      (fun q t hq hyields => hq _ ps t qs hyields)
  refine .mk (Clauses.planned_of_frame_eq hb hframe) fun clause q hq => ?_
  refine hresults (.nested q) (List.mem_flatMap.mpr ⟨clause, ?_, hq⟩)
  refine ctx.operation.mem_clauseOrder.mpr ?_
  rintro rfl
  cases hq

/-! ### Keys of queries -/

/-! Writing a replaced entry down is writing the entry down with other codes. -/

section

variable (κ : Expr → KeyNode) (ν : τ → List KeyNode) (f : Expr → Expr) (g : σ → τ)

theorem Part.codeAll_rewrite (parts : List (Part Expr)) :
    codeAll κ (rewrite f parts) = codeAll (κ ∘ f) parts := by
  simp only [codeAll, rewrite, List.map_map, Function.comp_def, Part.map_map]

theorem Ordered.codeAll_rewrite (items : List (Ordered Expr)) :
    codeAll κ (rewrite f items) = codeAll (κ ∘ f) items := by
  simp only [codeAll, rewrite, List.map_map]
  rfl

theorem Source.code_edit (bound : Option BoundSource) (s : Source σ) :
    (s.edit f g).code κ ν bound = s.code (κ ∘ f) (ν ∘ g) bound := by
  cases s with
  | fragment parts => exact Part.codeAll_rewrite κ f parts
  | _ => rfl

theorem Cte.code_edit (c : Cte σ) : (c.edit f g).code κ ν = c.code (κ ∘ f) (ν ∘ g) := by
  obtain ⟨name, body, recursive⟩ := c
  cases body with
  | query q => rfl
  | fragment parts =>
    simp only [code, edit, CteBody.edit, CteBody.code, Part.codeAll_rewrite]
    rfl

theorem Join.code_edit (hf : f (.literal (.bool true)) = .literal (.bool true))
    (sources : List BoundSource) (j : Join σ) :
    (j.edit f g).code κ ν sources = j.code (κ ∘ f) (ν ∘ g) sources := by
  obtain ⟨qualifier, source, on, association, tablePrefix, ix⟩ := j
  have hon : κ ((rewrite f on).getD (.literal (.bool true))) =
      (κ ∘ f) (on.getD (.literal (.bool true))) := by
    cases on with
    | none => exact congrArg κ hf.symm
    | some e => rfl
  cases source <;> simp only [code, edit, onOrTrue, Option.map_none, Option.map_some,
    Source.code_edit, hon]

theorem Update.code_rewrite (u : Update) : (rewrite f u).code κ = u.code (κ ∘ f) := by
  simp only [code, rewrite, List.map_map]
  rfl

theorem Distinct.code_rewrite (d : Distinct) : (rewrite f d).code κ = d.code (κ ∘ f) := by
  cases d with
  | all => rfl
  | on items => exact Ordered.codeAll_rewrite κ f items

theorem GroupBy.code_rewrite (x : GroupBy) : (rewrite f x).code κ = x.code (κ ∘ f) := by
  cases x <;> simp [code, rewrite]

theorem OrderBy.code_rewrite (x : OrderBy) : (rewrite f x).code κ = x.code (κ ∘ f) := by
  cases x with
  | items ordered => exact Ordered.codeAll_rewrite κ f ordered
  | pinned names => rfl

theorem Window.declaredCode_rewrite (w : String × Window Expr) :
    declaredCode κ (rewrite f w) = declaredCode (κ ∘ f) w := by
  simp only [declaredCode, rewrite, Window.map_map]

theorem Lock.code_rewrite (l : Lock) : (rewrite f l).code κ = l.code (κ ∘ f) := by
  cases l with
  | literal text => rfl
  | fragment parts => exact Part.codeAll_rewrite κ f parts

/-- Writing a level with replaced items down is writing the level down with other codes. -/
theorem Clauses.written_edit (hf : f (.literal (.bool true)) = .literal (.bool true))
    (c : Clauses σ) (clause : Clause) :
    (c.edit f g).written κ ν clause = c.written (κ ∘ f) (ν ∘ g) clause := by
  have hlist : ∀ {X : Type} [HasExprs X] (code code' : X → KeyNode) (xs : List X),
      (∀ x, code (rewrite f x) = code' x) → (rewrite f xs).map code = xs.map code' := by
    intro X _ code code' xs h
    simp only [rewrite, List.map_map]
    exact List.map_congr_left fun x _ => h x
  have hoption : ∀ {X : Type} [HasExprs X] (code code' : X → KeyNode) (x : Option X),
      (∀ x, code (rewrite f x) = code' x) →
        (rewrite f x).toList.map code = x.toList.map code' := by
    intro X _ code code' x h
    cases x with
    | none => rfl
    | some x => exact congrArg (fun k => [k]) (h x)
  cases clause with
  | withCte =>
    simp only [written, edit, List.map_map]
    exact List.map_congr_left fun cte _ => Cte.code_edit κ ν f g cte
  | fromSource =>
    simp only [written, edit]
    cases c.root with
    | none => rfl
    | some root => exact congrArg (fun k => [k]) (Source.code_edit κ ν f g _ root.source)
  | join =>
    simp only [written, edit, List.map_map]
    exact List.map_congr_left fun j _ => Join.code_edit κ ν f g hf c.sources j
  | combination =>
    simp only [written, edit, List.map_map]
    rfl
  | update => exact hlist _ _ _ (Update.code_rewrite κ f)
  | distinct => exact hoption _ _ _ (Distinct.code_rewrite κ f)
  | select => exact hoption _ _ _ fun _ => rfl
  | filter => exact hlist _ _ c.wheres fun _ => rfl
  | having => exact hlist _ _ c.havings fun _ => rfl
  | groupBy => exact hlist _ _ _ (GroupBy.code_rewrite κ f)
  | orderBy => exact hlist _ _ _ (OrderBy.code_rewrite κ f)
  | windows => exact hlist _ _ _ (Window.declaredCode_rewrite κ f)
  | limit => exact hoption _ _ c.limit fun _ => rfl
  | offset => exact hoption _ _ c.offset fun _ => rfl
  | lock => exact hoption _ _ _ (Lock.code_rewrite κ f)
  | preload => rfl

theorem Clauses.code_edit (hf : f (.literal (.bool true)) = .literal (.bool true))
    (c : Clauses σ) (operation : Operation) :
    (c.edit f g).code κ ν operation = c.code (κ ∘ f) (ν ∘ g) operation := by
  simp only [code, written_edit κ ν f g hf]
  rfl

end

namespace Query

variable {form : List BoundSource → LiteralForm}

/-- A query written down for an operation, with literals in the forms that the sources of their
level give them. -/
def code (form : List BoundSource → LiteralForm) : Query → Operation → List KeyNode :=
  fold fun c operation => c.code (Expr.codeIn (form c.sources)) (· .all) operation

theorem code_mk (c : Clauses Query) (operation : Operation) : code form ⟨c⟩ operation =
    c.code (Expr.codeIn (form c.sources)) (fun q => q.code form .all) operation := by
  rw [code, fold_mk, Clauses.map_eq_edit, Clauses.code_edit _ _ _ _ rfl]
  rfl

/-- **Keying a planned query** is writing it down, unless it holds a range of placeholders. -/
theorem guarded_key {ctx : Context} {q : Query} (h : q.Planned) : ∀ operation,
    Guarded (q.All Expr.RangeFree) (q.code (Clauses.literalForm ctx) operation)
      (q.key ctx operation) := by
  induction h with
  | @mk c level nested ih =>
    intro operation
    have hkey : key ctx ⟨c⟩ = (c.map (key ctx)).key ctx := fold_mk _ c
    have hlevel : Guarded (∀ clause, ∀ i ∈ c.items clause,
        i.Holds Expr.RangeFree (All Expr.RangeFree)) _ ((c.map (key ctx)).key ctx operation) :=
      Clauses.guarded_key operation (fun clause q hq => ih clause q hq .all) level.select
    rw [hkey, code_mk, all_mk]
    refine hlevel.of_eq (forall_congr' fun clause => forall₂_congr fun i _ => ?_) rfl
    cases i <;> rfl

end Query

/-! ### Canonical queries -/

/-- A level without what its code leaves out has the items of the level and truths. -/
theorem Clauses.mem_items_plain {c : Clauses σ} {clause : Clause} {i : Item σ}
    (h : i ∈ c.plain.items clause) : i ∈ c.items clause ∨ i = .expr (.literal (.bool true)) := by
  cases clause with
  | join =>
    obtain ⟨j', hj', hi⟩ := List.mem_flatMap.mp h
    obtain ⟨j, hj, rfl⟩ := List.mem_map.mp hj'
    rcases List.mem_append.mp hi with hi | hi
    · exact .inl (List.mem_flatMap.mpr ⟨j, hj, List.mem_append_left _ hi⟩)
    · have hon : i = .expr j.onOrTrue := by simpa [Item.ofExprs, exprs, Join.plain] using hi
      cases honj : j.on with
      | none => exact .inr (by rw [hon, Join.onOrTrue, honj, Option.getD_none])
      | some e =>
        refine .inl (List.mem_flatMap.mpr ⟨j, hj, List.mem_append_right _ ?_⟩)
        rw [hon, Join.onOrTrue, honj]
        simp [Item.ofExprs, exprs]
  | fromSource =>
    refine .inl ?_
    cases hr : c.root with
    | none => simp [items, plain, hr] at h
    | some r => simpa [items, plain, hr] using h
  | _ => exact .inl h

theorem Clauses.plain_edit {f : Expr → Expr} (g : σ → τ)
    (hf : f (.literal (.bool true)) = .literal (.bool true)) (c : Clauses σ) :
    (c.edit f g).plain = c.plain.edit f g := by
  have hroot : (c.edit f g).plain.root = (c.plain.edit f g).root := by
    simp only [plain, edit]
    cases c.root <;> rfl
  have hjoin : ∀ j : Join σ, (j.edit f g).plain = j.plain.edit f g := by
    intro j
    obtain ⟨qualifier, source, on, association, tablePrefix, ix⟩ := j
    cases on with
    | none => simp [Join.plain, Join.edit, Join.onOrTrue, rewrite, hf]
    | some e => rfl
  have hjoins : (c.edit f g).plain.joins = (c.plain.edit f g).joins := by
    simp only [plain, edit, List.map_map]
    exact List.map_congr_left fun j _ => hjoin j
  exact (Clauses.mk.injEq ..).mpr ⟨hroot, hjoins, rfl, rfl, rfl, rfl, rfl, rfl, rfl, rfl, rfl, rfl,
    rfl, rfl, rfl, rfl, rfl, rfl⟩

namespace Query

variable {form : List BoundSource → LiteralForm}

/-- A query without what keys leave out on purpose, types aside: at every level the prefixes that
sources were declared with and the associations of joins are dropped, a join without a condition
joins on truth, and a literal compared with a field is in its stored form. -/
def settled (form : List BoundSource → LiteralForm) : Query → Query :=
  fold fun c => ⟨c.plain.edit (fun e => e.settle (form c.sources) .nothing) id⟩

theorem settled_mk (c : Clauses Query) : settled form ⟨c⟩ =
    ⟨c.plain.edit (fun e => e.settle (form c.sources) .nothing) (settled form)⟩ := by
  rw [settled, fold_mk, Clauses.map_eq_edit, Clauses.plain_edit _ rfl, Clauses.edit_edit]
  rfl

/-- A query without anything that keys leave out: of a type annotation they hold the text only. -/
def canonical (form : List BoundSource → LiteralForm) (q : Query) : Query :=
  (q.settled form).without .annotations

theorem canonical_mk (c : Clauses Query) : canonical form ⟨c⟩ =
    ⟨c.plain.edit (fun e => (e.settle (form c.sources) .nothing).without .annotations)
      (canonical form)⟩ := by
  rw [canonical, settled_mk, without_mk, Clauses.edit_edit]
  rfl

/-- **Planned queries with one code** were planned for one operation and differ in nothing that is
written down: their canonical queries are equal but for the numbers of placeholders. -/
theorem canonical_of_code_eq {q₁ : Query} (h₁ : q₁.Planned) :
    ∀ {q₂ : Query} {o₁ o₂ : Operation}, q₂.Planned → q₁.All Expr.Legible → q₂.All Expr.Legible →
      q₁.code form o₁ = q₂.code form o₂ →
        o₁ = o₂ ∧ (q₁.canonical form).without .numbers = (q₂.canonical form).without .numbers := by
  induction h₁ with
  | @mk c hc _ ih =>
    intro q₂ o₁ o₂ h₂ hlegible₁ hlegible₂ hcode
    obtain ⟨hd, hnested⟩ := h₂
    rename_i d
    rw [code_mk, code_mk] at hcode
    obtain ⟨ho, hpre, hwritten⟩ := Clauses.written_of_code_eq hcode
    have hsources := Clauses.sources_of_written_eq hc hd hwritten
    rw [← hsources] at hwritten
    have hcompound : ∀ {k : Clauses Query}, All Expr.Legible ⟨k⟩ →
        k.Compound (Expr.codeIn (form c.sources)) := by
      intro k h clause e he
      exact Expr.isCompound_code ((all_mk.mp h clause _ he).settle .nothing)
    obtain ⟨hframe, hitems⟩ := Clauses.alike_of_written_eq hc hd (hcompound hlegible₁)
      (hcompound hlegible₂) hpre hsources hwritten
    refine ⟨ho, ?_⟩
    rw [canonical_mk, canonical_mk, without_mk, without_mk, Clauses.edit_edit, Clauses.edit_edit,
      ← hsources]
    refine congrArg Query.mk (Clauses.ext_items ?_ fun clause => ?_)
    · rw [Clauses.frame_edit, Clauses.frame_edit, hframe]
    rw [Clauses.items_edit, Clauses.items_edit]
    refine List.map_eq_of_map_eq (fun i hi j hj hij => ?_) (hitems clause)
    have hlegible : ∀ {c : Clauses Query} {i : Item Query}, All Expr.Legible ⟨c⟩ →
        i ∈ c.plain.items clause → i.All Expr.Legible := by
      intro c i h hi
      rcases Clauses.mem_items_plain hi with hi | rfl
      · exact all_mk.mp h clause i hi
      · exact Expr.legible_mk.mpr ⟨rfl, rfl, fun _ h => nomatch h⟩
    have hi' := hlegible hlegible₁ hi
    have hj' := hlegible hlegible₂ hj
    cases i with
    | expr e =>
      cases j with
      | expr e' =>
        exact congrArg Item.expr (Expr.code_inj _ _ (hi'.settle .nothing) (hj'.settle .nothing)
          (Sum.inl.inj hij))
      | nested q' => cases hij
    | nested q =>
      cases j with
      | expr e' => cases hij
      | nested q' =>
        have hnestedItem : ∀ {c : Clauses Query} {q : Query}, .nested q ∈ c.plain.items clause →
            .nested q ∈ c.items clause := by
          intro c q h
          rcases Clauses.mem_items_plain h with h | h
          · exact h
          · cases h
        have hplanned := hnested clause q' (hnestedItem hj)
        exact congrArg Item.nested
          (ih clause q (hnestedItem hi) hplanned hi' hj' (Sum.inr.inj hij)).2

end Query

end QueryPlanner
