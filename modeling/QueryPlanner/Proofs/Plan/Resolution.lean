import QueryPlanner.Plan.Bindings
import QueryPlanner.Proofs.Plan.Silent
import QueryPlanner.Proofs.Query.Reading

/-!
# What binding the sources of a level yields

Declared joins are bound in turn, each by one of two steps: a join with a source of its own stays as
it is, an association join becomes a block of joins.  What holds of the bindings made is kept by
these two steps.

* `Arena.bindJoin_cases` — the two steps
* `Clauses.BindsAlike.resolve` — the sources of related levels are bound alike, or refused alike
* `Clauses.toOption_resolve` — sources are bound alike, whatever the items of the level are
* `Clauses.resolve_forall` — the items of the joins are declared or made from the registry
-/

namespace QueryPlanner

open HasExprs

variable {σ τ : Type} {ctx : Context} {queryPrefix : Option String}

/-! ### The steps -/

namespace Arena

/-- A declared join is bound as it stands or along an association. -/
theorem bindJoin_cases {a a' : Arena σ} {ix : Nat} {j : Join σ}
    (h : bindJoin ctx queryPrefix a (ix, j) = .ok a') :
    (∃ s b, j.association = none ∧ j.source = some s ∧
      s.bind ctx queryPrefix j.tablePrefix .join = .ok b ∧
      a' = { a with bound := a.bound ++ [(ix, b)]
                    joins := a.joins ++ [{ j with ix := some ix }] }) ∨
    ∃ ref owner association hops, j.association = some ref ∧ ref.parent < ix ∧
      a.schemaAt ctx ⟨.join, j.render⟩ ref.parent = .ok owner ∧
      owner.association? ref.name = some association ∧
      ctx.registry.route owner association = .ok hops ∧
      a' = a.addHops ctx queryPrefix ref.parent ix j hops := by
  unfold bindJoin at h
  cases hassoc : j.association with
  | none =>
    simp only [hassoc, bindExplicit] at h
    cases hsource : j.source with
    | none => simp [hsource] at h
    | some s =>
      simp only [hsource] at h
      cases hb : s.bind ctx queryPrefix j.tablePrefix .join with
      | error e => simp [hb, bind, Except.bind] at h
      | ok b =>
        simp only [hb, bind, Except.bind, Except.ok.injEq] at h
        exact .inl ⟨s, b, rfl, rfl, hb, h.symm⟩
  | some ref =>
    simp only [hassoc, bindAssociation] at h
    by_cases hparent : ix ≤ ref.parent
    · simp [hparent, throw, throwThe, MonadExceptOf.throw, bind, Except.bind] at h
    simp only [hparent, if_false] at h
    cases howner : a.schemaAt ctx ⟨.join, j.render⟩ ref.parent with
    | error e => simp [howner, bind, Except.bind] at h
    | ok owner =>
      simp only [howner, bind, Except.bind] at h
      cases hassociation : owner.association? ref.name with
      | none => simp [hassociation, throw, throwThe, MonadExceptOf.throw] at h
      | some association =>
        simp only [hassociation] at h
        cases hhops : ctx.registry.route owner association with
        | error fault => simp [hhops, throw, throwThe, MonadExceptOf.throw] at h
        | ok hops =>
          simp only [hhops, pure, Except.pure, Except.ok.injEq] at h
          exact .inr ⟨ref, owner, association, hops, rfl, by omega, howner, hassociation, hhops,
            h.symm⟩

/-- What one declared join keeps, all of them keep. -/
theorem foldlM_declared (Inv : Nat → Arena σ → Prop) {joins : List (Join σ)}
    (step : ∀ k j a a', joins[k]? = some j → Inv k a →
      bindJoin ctx queryPrefix a (k + 1, j) = .ok a' → Inv (k + 1) a') {a a' : Arena σ}
    (hinv : Inv 0 a)
    (h : (joins.zipIdx.map fun (j, i) => (i + 1, j)).foldlM (bindJoin ctx queryPrefix) a =
      .ok a') : Inv joins.length a' := by
  suffices hrest : ∀ (rest done : List (Join σ)) (a : Arena σ), done ++ rest = joins →
      Inv done.length a →
      ((rest.zipIdx done.length).map fun (j, i) => (i + 1, j)).foldlM
        (bindJoin ctx queryPrefix) a = .ok a' → Inv joins.length a' from
    hrest joins [] a rfl hinv h
  intro rest
  induction rest with
  | nil =>
    intro done a hjoins hinv h
    simp only [List.zipIdx_nil, List.map_nil, List.foldlM_nil, pure, Except.pure,
      Except.ok.injEq] at h
    rw [List.append_nil] at hjoins
    exact h ▸ hjoins ▸ hinv
  | cons j rest ih =>
    intro done a hjoins hinv h
    simp only [List.zipIdx_cons, List.map_cons, List.foldlM_cons] at h
    cases hj : bindJoin ctx queryPrefix a (done.length + 1, j) with
    | error e => simp [hj, bind, Except.bind] at h
    | ok a₁ =>
      simp only [hj, bind, Except.bind] at h
      have hdeclared : joins[done.length]? = some j := by simp [← hjoins]
      refine ih (done ++ [j]) a₁ (by simp [← hjoins]) ?_ ?_
      · simpa using step _ j a a₁ hdeclared hinv hj
      · simpa using h

end Arena

/-- The steps of binding a level. -/
theorem Clauses.resolve_cases {c : Clauses σ} {b : Bindings σ} (h : c.resolve ctx = .ok b) :
    ∃ root source a, c.root = some root ∧
      root.source.bind ctx c.queryPrefix root.tablePrefix .fromSource = .ok source ∧
      c.declaredJoins.foldlM (Arena.bindJoin ctx c.queryPrefix)
        ⟨c.joins.length + 1, [(0, source)], [], []⟩ = .ok a ∧
      checkPreloadJoins a.joins c.preloads = .ok () ∧ a.sources = .ok b.sources ∧
      b.joins = a.joins ∧ b.conditions = a.conditions := by
  unfold resolve at h
  cases hroot : c.root with
  | none => simp [hroot, throw, throwThe, MonadExceptOf.throw] at h
  | some root =>
    simp only [hroot] at h
    cases hsource : root.source.bind ctx c.queryPrefix root.tablePrefix .fromSource with
    | error e => simp [hsource, bind, Except.bind] at h
    | ok source =>
      simp only [hsource, bind, Except.bind] at h
      cases ha : c.declaredJoins.foldlM (Arena.bindJoin ctx c.queryPrefix)
          ⟨c.joins.length + 1, [(0, source)], [], []⟩ with
      | error e => simp [ha] at h
      | ok a =>
        simp only [ha] at h
        cases hp : checkPreloadJoins a.joins c.preloads with
        | error e => simp [hp] at h
        | ok u =>
          simp only [hp] at h
          cases hs : a.sources with
          | error e => simp [hs] at h
          | ok sources =>
            simp only [hs, pure, Except.pure, Except.ok.injEq] at h
            subst h
            exact ⟨root, source, a, rfl, hsource, ha, hp, hs, rfl, rfl⟩

section

variable {α β ε : Type}

theorem Except.toOption_eq_some_iff {x : Except ε α} {a : α} :
    x.toOption = some a ↔ x = .ok a := by
  cases x <;> simp [Except.toOption]

/-- Whether a chain of steps succeeds, and with what, is decided step by step. -/
theorem Except.toOption_bind (x : Except ε α) (f : α → Except ε β) :
    (x >>= f).toOption = x.toOption.bind fun a => (f a).toOption := by
  cases x <;> rfl

end

namespace Arena

/-- The schema of a binding is what the registry has under the name that it is bound with. -/
theorem toOption_schemaAt (a : Arena σ) (site : Site) (ix : Nat) :
    (a.schemaAt ctx site ix).toOption =
      ((a.bound.lookup ix).bind BoundSource.schema?).bind ctx.registry.lookup? := by
  unfold schemaAt
  cases a.bound.lookup ix with
  | none => rfl
  | some source =>
    simp only [Option.bind_some]
    cases source.schema? with
    | none => rfl
    | some name =>
      simp only [Option.bind_some, Context.schema]
      cases ctx.registry.lookup? name <;> rfl

theorem toOption_bindAssociation (a : Arena σ) (ix : Nat) (j : Join σ) (ref : AssociationRef) :
    (a.bindAssociation ctx queryPrefix ix j ref).toOption =
      if ix ≤ ref.parent then none
      else (((a.bound.lookup ref.parent).bind BoundSource.schema?).bind
        ctx.registry.lookup?).bind fun owner =>
          (owner.association? ref.name).bind fun association =>
            (ctx.registry.route owner association).toOption.map fun hops =>
              a.addHops ctx queryPrefix ref.parent ix j hops := by
  unfold bindAssociation
  by_cases hparent : ix ≤ ref.parent
  · simp [hparent]
    rfl
  simp only [hparent, if_false]
  rw [← toOption_schemaAt a ⟨.join, j.render⟩]
  cases a.schemaAt ctx ⟨.join, j.render⟩ ref.parent with
  | error e => rfl
  | ok owner =>
    simp only [Except.toOption, Option.bind_some, bind, Except.bind]
    cases owner.association? ref.name with
    | none => rfl
    | some association =>
      simp only [Option.bind_some]
      cases ctx.registry.route owner association <;> rfl

end Arena

/-! ### Related levels -/

/-- What may be there stays related by what the relation implies. -/
theorem Option.rel_imp {α β : Type} {R S : α → β → Prop} (hRS : ∀ a b, R a b → S a b)
    {x : Option α} {y : Option β} (h : Option.Rel R x y) : Option.Rel S x y := by
  cases h with
  | none => exact .none
  | some h => exact .some (hRS _ _ h)

theorem Option.rel_map {α β γ : Type} {R : β → γ → Prop} {u : α → β} {v : α → γ} {x : Option α}
    (h : ∀ a ∈ x, R (u a) (v a)) : Option.Rel R (x.map u) (x.map v) := by
  cases x with
  | none => exact .none
  | some a => exact .some (h a rfl)

section

variable {J : Join σ → Join τ → Prop} {K : Nat → Expr → Expr → Prop}

/-- Joins that are declared at the binding `ix` and bound alike: along one association, or to
sources that are.  What becomes of them is related by `J`, and their conditions by `K`. -/
structure Join.BindsAlike (ctx : Context) (queryPrefix : Option String) (J : Join σ → Join τ → Prop)
    (K : Nat → Expr → Expr → Prop) (ix : Nat) (j : Join σ) (j' : Join τ) : Prop where
  association : j.association = j'.association
  tablePrefix : j.tablePrefix = j'.tablePrefix
  source : Option.Rel (fun s s' => s.bind ctx queryPrefix j.tablePrefix .join =
    s'.bind ctx queryPrefix j'.tablePrefix .join) j.source j'.source
  own : J { j with ix := some ix } { j' with ix := some ix }
  hop : ∀ (hop : Hop) parent ix, J (hop.join ctx queryPrefix j parent ix)
    (hop.join ctx queryPrefix j' parent ix)
  on : Option.Rel (K ix) j.on j'.on

/-- Levels with sources and declared joins that are bound alike.  What becomes of their joins has
the same bindings and qualifiers. -/
structure Clauses.BindsAlike (ctx : Context) (J : Join σ → Join τ → Prop)
    (K : Nat → Expr → Expr → Prop) (c : Clauses σ) (d : Clauses τ) : Prop where
  queryPrefix : c.queryPrefix = d.queryPrefix
  root : Option.Rel (fun r r' => r.source.bind ctx c.queryPrefix r.tablePrefix .fromSource =
    r'.source.bind ctx d.queryPrefix r'.tablePrefix .fromSource) c.root d.root
  joins : List.Forall₂ (fun p q => p.1 = q.1 ∧ p.2.BindsAlike ctx c.queryPrefix J K p.1 q.2)
    c.declaredJoins d.declaredJoins
  preloads : c.preloads = d.preloads
  kept : ∀ j j', J j j' → j.ix = j'.ix ∧ j.qualifier = j'.qualifier

/-- Bindings made so far with related joins and conditions. -/
structure Arena.Alike (J : Join σ → Join τ → Prop) (K : Nat → Expr → Expr → Prop) (a : Arena σ)
    (a' : Arena τ) : Prop where
  next : a.next = a'.next
  bound : a.bound = a'.bound
  joins : List.Forall₂ J a.joins a'.joins
  conditions : List.Forall₂ (fun p q => p.1 = q.1 ∧ K p.1 p.2 q.2) a.conditions a'.conditions

/-- Bindings of one list of sources with related joins and conditions. -/
structure Bindings.Alike (J : Join σ → Join τ → Prop) (K : Nat → Expr → Expr → Prop)
    (b : Bindings σ) (b' : Bindings τ) : Prop where
  sources : b.sources = b'.sources
  joins : List.Forall₂ J b.joins b'.joins
  conditions : List.Forall₂ (fun p q => p.1 = q.1 ∧ K p.1 p.2 q.2) b.conditions b'.conditions

namespace Arena

/-- The schema of a binding depends on what is bound, and its error on the text to show. -/
theorem alike_schemaAt {a : Arena σ} {a' : Arena τ} (h : a.bound = a'.bound) (clause : Clause)
    (text text' : String) (ix : Nat) :
    Except.Alike Eq (a.schemaAt ctx ⟨clause, text⟩ ix) (a'.schemaAt ctx ⟨clause, text'⟩ ix) := by
  unfold schemaAt
  rw [h]
  cases a'.bound.lookup ix with
  | none => exact .error rfl
  | some source =>
    simp only
    cases source.schema? with
    | none => exact .error rfl
    | some name =>
      simp only [Context.schema]
      cases ctx.registry.lookup? name with
      | none => exact .error rfl
      | some schema => exact .ok rfl

theorem Alike.addHops {a : Arena σ} {a' : Arena τ} (h : a.Alike J K a') {ix : Nat} {j : Join σ}
    {j' : Join τ} (hj : j.BindsAlike ctx queryPrefix J K ix j') (parent : Nat) (hops : List Hop) :
    (a.addHops ctx queryPrefix parent ix j hops).Alike J K
      (a'.addHops ctx queryPrefix parent ix j' hops) where
  next := by simp only [Arena.addHops, h.next]
  bound := by simp only [Arena.addHops, h.next, h.bound, hj.tablePrefix]
  joins := by
    simp only [Arena.addHops, h.next]
    refine List.rel_append h.joins ?_
    rw [List.forall₂_map_left_iff, List.forall₂_map_right_iff]
    exact List.forall₂_same.mpr fun p _ => hj.hop p.2.2 p.1 p.2.1
  conditions := by
    have hon := hj.on
    refine List.rel_append h.conditions ?_
    generalize j.on = on at hon
    generalize j'.on = on' at hon
    cases hon with
    | none => exact .nil
    | some hon => exact .cons ⟨rfl, hon⟩ .nil

/-- **One declared join** is bound alike, or refused alike. -/
theorem Alike.bindJoin {a : Arena σ} {a' : Arena τ} (h : a.Alike J K a') {ix : Nat} {j : Join σ}
    {j' : Join τ} (hj : j.BindsAlike ctx queryPrefix J K ix j') :
    Except.Alike (Arena.Alike J K) (Arena.bindJoin ctx queryPrefix a (ix, j))
      (Arena.bindJoin ctx queryPrefix a' (ix, j')) := by
  simp only [Arena.bindJoin, hj.association]
  cases j'.association with
  | none =>
    simp only [bindExplicit]
    have hsource := hj.source
    cases hs : j.source <;> cases hs' : j'.source <;> rw [hs, hs'] at hsource <;>
      rcases hsource with hbind | -
    · exact .error rfl
    · simp only [hbind]
      refine (Except.alike_of_silent rfl).bind fun b b' hb => .ok ?_
      have hown := hj.own
      rw [hs, hs'] at hown
      exact ⟨h.next, by rw [h.bound, hb], List.rel_append h.joins (.cons hown .nil),
        h.conditions⟩
  | some ref =>
    simp only [bindAssociation]
    by_cases hparent : ix ≤ ref.parent
    · simp only [hparent, if_true]
      exact .error rfl
    simp only [hparent, if_false]
    refine (alike_schemaAt h.bound .join j.render j'.render ref.parent).bind ?_
    rintro owner _ rfl
    cases owner.association? ref.name with
    | none => exact .error rfl
    | some association =>
      simp only
      cases ctx.registry.route owner association with
      | error fault =>
        simp only [h.next]
        exact .error rfl
      | ok hops => exact .ok (h.addHops hj ref.parent hops)

end Arena

/-- What is found first in related lists, by tests that agree, is related. -/
theorem List.rel_find? {α β : Type} {R : α → β → Prop} {p : α → Bool} {q : β → Bool}
    (hpq : ∀ a b, R a b → p a = q b) {as : List α} {bs : List β} (h : List.Forall₂ R as bs) :
    Option.Rel R (as.find? p) (bs.find? q) := by
  induction h with
  | nil => exact .none
  | @cons a b as bs head _ ih =>
    rw [List.find?_cons, List.find?_cons, hpq a b head]
    cases q b with
    | true => exact .some head
    | false => exact ih

mutual

/-- Preloads are checked against the qualifiers and the bindings of the joins. -/
theorem alike_checkPreloadJoin (hJ : ∀ j j', J j j' → j.ix = j'.ix ∧ j.qualifier = j'.qualifier)
    {joins : List (Join σ)} {joins' : List (Join τ)}
    (h : List.Forall₂ J joins joins') : ∀ p : Preload,
      Except.Alike Eq (checkPreloadJoin joins p) (checkPreloadJoin joins' p)
  | ⟨association, binding, children⟩ => by
    have hchildren := alike_checkPreloadJoins hJ h children
    have hfound : Option.Rel J (binding.bind fun ix => joins.find? (·.ix == some ix))
        (binding.bind fun ix => joins'.find? (·.ix == some ix)) := by
      cases binding with
      | none => exact .none
      | some ix => exact List.rel_find? (fun j j' hj => by rw [(hJ j j' hj).1]) h
    simp only [checkPreloadJoin]
    revert hfound
    generalize (binding.bind fun ix => joins.find? (·.ix == some ix)) = found
    generalize (binding.bind fun ix => joins'.find? (·.ix == some ix)) = found'
    intro hfound
    cases hfound with
    | none => exact hchildren
    | @some j j' hj =>
      simp only [(hJ j j' hj).2]
      cases j'.qualifier.allowsPreload with
      | false => exact .error rfl
      | true => exact hchildren

theorem alike_checkPreloadJoins (hJ : ∀ j j', J j j' → j.ix = j'.ix ∧ j.qualifier = j'.qualifier)
    {joins : List (Join σ)} {joins' : List (Join τ)}
    (h : List.Forall₂ J joins joins') : ∀ ps : List Preload,
      Except.Alike Eq (checkPreloadJoins joins ps) (checkPreloadJoins joins' ps)
  | [] => .ok rfl
  | p :: ps => by
    have hps := alike_checkPreloadJoins hJ h ps
    exact (alike_checkPreloadJoin hJ h p).bind fun _ _ _ => hps

end

/-- **The sources of related levels are bound alike**, or refused alike. -/
theorem Clauses.BindsAlike.resolve {c : Clauses σ} {d : Clauses τ} (h : c.BindsAlike ctx J K d) :
    Except.Alike (Bindings.Alike J K) (c.resolve ctx) (d.resolve ctx) := by
  have hlength : c.joins.length = d.joins.length := by
    simpa [declaredJoins] using h.joins.length_eq
  have hroot := h.root
  unfold Clauses.resolve
  cases hc : c.root <;> cases hd : d.root <;> rw [hc, hd] at hroot <;> rcases hroot with hbind | -
  · exact .error rfl
  · simp only [hbind]
    refine (Except.alike_of_silent rfl).bind fun source source' hsource => ?_
    have hstart : Arena.Alike J K ⟨c.joins.length + 1, [(0, source)], [], []⟩
        ⟨d.joins.length + 1, [(0, source')], [], []⟩ :=
      ⟨congrArg (· + 1) hlength, by rw [hsource], .nil, .nil⟩
    refine (Except.Alike.foldlM (fun a a' p q ha hpq => ?_) h.joins hstart).bind fun a a' ha => ?_
    · obtain ⟨ix, j⟩ := p
      obtain ⟨_, j'⟩ := q
      obtain ⟨rfl, hj⟩ := hpq
      rw [← h.queryPrefix]
      exact ha.bindJoin hj
    rw [h.preloads]
    refine (alike_checkPreloadJoins h.kept ha.joins d.preloads).bind fun _ _ _ => ?_
    have hsources : a.sources = a'.sources := by simp only [Arena.sources, ha.next, ha.bound]
    rw [hsources]
    refine (Except.alike_of_silent rfl).bind fun sources sources' hsources' => .ok ?_
    exact ⟨hsources', ha.joins, ha.conditions⟩

end

/-! ### Replacing items -/

/-- Bindings with the items of their joins replaced. -/
def Bindings.edit (f : Expr → Expr) (g : σ → τ) (b : Bindings σ) : Bindings τ where
  joins := b.joins.map (Join.edit f g)
  sources := b.sources
  conditions := b.conditions.map fun declared => (declared.1, f declared.2)

section

variable {f : Expr → Expr} {g : σ → τ}

theorem Source.bind_edit (clausePrefix : Option String) (clause : Clause) (s : Source σ) :
    (s.edit f g).bind ctx queryPrefix clausePrefix clause =
      s.bind ctx queryPrefix clausePrefix clause := by
  cases s <;> rfl

theorem Clauses.declaredJoins_edit (f : Expr → Expr) (g : σ → τ) (c : Clauses σ) :
    (c.edit f g).declaredJoins =
      c.declaredJoins.map fun declared => (declared.1, declared.2.edit f g) := by
  simp [declaredJoins, edit, List.zipIdx_map, Function.comp_def]

/-- The joins that the registry makes depend on no item of the declared one. -/
theorem Hop.join_edit
    (hhops : ∀ (hop : Hop) parent ix, f (hop.condition parent ix) = hop.condition parent ix)
    (hop : Hop) (j : Join σ) (parent ix : Nat) :
    hop.join ctx queryPrefix (j.edit f g) parent ix =
      (hop.join ctx queryPrefix j parent ix).edit f g := by
  have hsource : (hop.source : Source τ) = (hop.source : Source σ).edit f g := by
    unfold Hop.source
    cases hop.target.schema <;> rfl
  have hon := hhops hop parent ix
  simp [Hop.join, Join.edit, hsource, rewrite, hon]

/-- **Sources are bound alike, whatever the items of the level are.** -/
theorem Clauses.bindsAlike_edit
    (hhops : ∀ (hop : Hop) parent ix, f (hop.condition parent ix) = hop.condition parent ix)
    (c : Clauses σ) :
    c.BindsAlike ctx (fun j j' => j' = j.edit f g) (fun _ e e' => e' = f e) (c.edit f g) where
  queryPrefix := rfl
  root := by
    change Option.Rel _ c.root (c.root.map (FromClause.edit f g))
    cases c.root with
    | none => exact .none
    | some root => exact .some (Source.bind_edit _ _ _).symm
  joins := by
    rw [declaredJoins_edit, List.forall₂_map_right_iff]
    refine List.forall₂_same.mpr fun declared _ => ⟨rfl, rfl, rfl, ?_, rfl, ?_, ?_⟩
    · change Option.Rel _ declared.2.source (declared.2.source.map (Source.edit f g))
      cases declared.2.source with
      | none => exact .none
      | some s => exact .some (Source.bind_edit _ _ s).symm
    · exact fun hop parent ix => hop.join_edit hhops declared.2 parent ix
    · change Option.Rel _ declared.2.on (declared.2.on.map f)
      cases declared.2.on with
      | none => exact .none
      | some e => exact .some rfl
  preloads := rfl
  kept := by
    rintro j _ rfl
    exact ⟨rfl, rfl⟩

theorem Clauses.toOption_resolve
    (hhops : ∀ (hop : Hop) parent ix, f (hop.condition parent ix) = hop.condition parent ix)
    (c : Clauses σ) :
    ((c.edit f g).resolve ctx).toOption = (c.resolve ctx).toOption.map (Bindings.edit f g) := by
  refine ((c.bindsAlike_edit hhops).resolve.mono fun b b' h => ?_).toOption
  have hjoins : b.joins.map (Join.edit f g) = b'.joins := by
    rw [← List.forall₂_eq_eq_eq, List.forall₂_map_left_iff]
    exact h.joins.imp fun _ _ => Eq.symm
  have hconditions : (b.conditions.map fun declared => (declared.1, f declared.2)) =
      b'.conditions := by
    rw [← List.forall₂_eq_eq_eq, List.forall₂_map_left_iff]
    exact h.conditions.imp fun _ _ hpq => Prod.ext hpq.1 hpq.2.symm
  rw [Bindings.edit, hjoins, h.sources, hconditions]

end

/-- Bindings do not depend on what nested queries are. -/
theorem Clauses.resolve_edit {c : Clauses σ} {g : σ → τ} {b' : Bindings τ} :
    (c.edit id g).resolve ctx = .ok b' ↔ ∃ b, c.resolve ctx = .ok b ∧ b.edit id g = b' := by
  have htoOption : ((c.edit id g).resolve ctx).toOption =
      (c.resolve ctx).toOption.map (Bindings.edit id g) :=
    Clauses.toOption_resolve (fun _ _ _ => rfl) c
  simp only [← Except.toOption_eq_some_iff, htoOption, Option.map_eq_some_iff]

/-! ### What the joins hold -/

/-- The join of a hop holds the condition that the registry makes, and nothing else. -/
theorem Hop.items_join (hop : Hop) (j : Join σ) (parent ix : Nat) :
    (hop.join ctx queryPrefix j parent ix).items = [.expr (hop.condition parent ix)] := by
  unfold Hop.join Join.items Hop.source
  cases hop.target.schema <;> rfl

/-- What holds of everything that is declared in joins, and of the conditions that the registry
makes, holds of everything in the bound joins. -/
theorem Clauses.resolve_forall {Q : Item σ → Prop} {c : Clauses σ} {b : Bindings σ}
    (h : c.resolve ctx = .ok b) (hdeclared : ∀ i ∈ c.items .join, Q i)
    (hhops : ∀ (hop : Hop) parent ix, Q (.expr (hop.condition parent ix))) :
    (∀ j ∈ b.joins, ∀ i ∈ j.items, Q i) ∧ ∀ declared ∈ b.conditions, Q (.expr declared.2) := by
  obtain ⟨root, source, a, -, -, ha, -, -, hjoins, hconditions⟩ := resolve_cases h
  rw [hjoins, hconditions]
  refine Arena.foldlM_declared (fun _ a =>
    (∀ j ∈ a.joins, ∀ i ∈ j.items, Q i) ∧ ∀ declared ∈ a.conditions, Q (.expr declared.2))
    ?_ (by simp) ha
  rintro k j a a' hj ⟨hitems, hconds⟩ hstep
  have hown : ∀ i ∈ j.items, Q i := fun i hi =>
    hdeclared i (List.mem_flatMap.mpr ⟨j, List.mem_of_getElem? hj, hi⟩)
  rcases Arena.bindJoin_cases hstep with
    ⟨s, b, -, -, -, rfl⟩ | ⟨ref, owner, association, hops, -, -, -, -, -, rfl⟩
  · refine ⟨fun i hi => ?_, hconds⟩
    rcases List.mem_append.mp hi with hi | hi
    · exact hitems i hi
    · rw [List.mem_singleton] at hi
      exact hi ▸ hown
  · refine ⟨fun i hi => ?_, fun declared hd => ?_⟩
    · rcases List.mem_append.mp hi with hi | hi
      · exact hitems i hi
      · obtain ⟨⟨parent, ix, hop⟩, -, rfl⟩ := List.mem_map.mp hi
        simp only [Hop.items_join, List.mem_singleton, forall_eq]
        exact hhops hop parent ix
    · rcases List.mem_append.mp hd with hd | hd
      · exact hconds declared hd
      · obtain ⟨on, hon, rfl⟩ := List.mem_map.mp hd
        refine hown _ (List.mem_append_right _ (List.mem_map_of_mem ?_))
        exact List.mem_flatMap.mpr ⟨on, hon, List.mem_singleton_self on⟩

end QueryPlanner
