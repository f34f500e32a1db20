import QueryPlanner.Proofs.Plan.Prefixes

/-!
# Expanding associations while binding them

An association join can be bound as its association is followed: whatever is met on the way is bound
and joined at once, and a chain starts its next association from the binding that the one before it
came to.  Only the end of the declared association has a binding that is asked for, so a target is
handed on to the last association of a chain and to the second table of a many-to-many association;
everything else takes the next free binding.

`Clauses.resolve` finds the hops of a route first and numbers them afterwards.  Both come to the
same bindings, or to the same error.

* `Arena.expand` — follow an association from a binding, and bind what it leads to
* `Clauses.resolveExpanding` — the bindings of a level whose associations are expanded one by one
* `Arena.expand_eq` — expanding an association is placing the hops of its route
* `Clauses.resolveExpanding_eq` — the bindings of a level are those that expanding it makes
-/

namespace QueryPlanner

variable {σ : Type}

/-! ### The recursion -/

/-- The source and the bound source of what an association relates to. -/
def Related.bind (ctx : Context) (queryPrefix : Option String) (declared : Join σ)
    (related : Related) : Except PlanError (Source σ × BoundSource) :=
  match related with
  | .schema name => do
    let schema ← ctx.schema ⟨.join, declared.render⟩ name
    let resolved := ctx.resolvePrefix declared.tablePrefix (some schema) queryPrefix
    .ok (.schema schema.source name, .table schema.source (some name) resolved)
  | .table name =>
    .ok (.table name, .table name none (ctx.resolvePrefix declared.tablePrefix none queryPrefix))

namespace Arena

/-- Take the least binding that is not taken. -/
def allocate (a : Arena σ) : Nat × Arena σ := (a.next, { a with next := a.next + 1 })

/-- The binding that is asked for, or a new one. -/
def allocateTarget (a : Arena σ) : Option Nat → Nat × Arena σ
  | some ix => (ix, a)
  | none => a.allocate

section

variable (ctx : Context) (queryPrefix : Option String) (declared : Join σ)

/-- Bind what `related` names to `ix` and join it to `parent`, on equal keys and the filters.  The
join shows the association `shown`. -/
def pushHop (a : Arena σ) (ix parent : Nat) (shown : Option String) (related : Related)
    (relatedKey ownerKey : String) (filters : List AssociationFilter) :
    Except PlanError (Arena σ) := do
  let (source, bound) ← related.bind ctx queryPrefix declared
  let keys := (Expr.field ix relatedKey).eq (.field parent ownerKey)
  let join : Join σ :=
    { qualifier := declared.qualifier
      source := some source
      on := some (filters.foldl (fun e f => e.and (f.expr ix)) keys)
      association := shown.map fun name => ⟨parent, name⟩
      tablePrefix := bound.tablePrefix?
      ix := some ix }
  pure { a with bound := a.bound ++ [(ix, bound)], joins := a.joins ++ [join] }

/-- Bind the target of an association that is neither a chain nor many-to-many. -/
def expandDirect (a : Arena σ) (parent : Nat) (d : Association) (target : Option Nat) :
    Except PlanError (Nat × Arena σ) := do
  let (ix, a) := a.allocateTarget target
  let a ← a.pushHop ctx queryPrefix declared ix parent (some d.name) d.related d.relatedKey
    d.ownerKey d.filters
  pure (ix, a)

/-- Bind the table in between and the target of a many-to-many association. -/
def expandManyToMany (a : Arena σ) (parent : Nat) (d : Association) (joinThrough : Related)
    (joinOwnerKey joinRelatedKey : String) (joinFilters : List AssociationFilter)
    (target : Option Nat) : Except PlanError (Nat × Arena σ) := do
  let (through, a) := a.allocate
  let a ← a.pushHop ctx queryPrefix declared through parent none joinThrough joinOwnerKey
    d.ownerKey joinFilters
  let (ix, a) := a.allocateTarget target
  let a ← a.pushHop ctx queryPrefix declared ix through (some d.name) d.related d.relatedKey
    joinRelatedKey d.filters
  pure (ix, a)

/-- Follow the associations of the chain `through` from the binding `current` of the schema `owner`,
each by `expand`.  The target is for the last of them. -/
def expandThrough
    (expand : Arena σ → Nat → Schema → Association → Option Nat → Except PlanError (Nat × Arena σ))
    (through : String) (target : Option Nat) :
    Arena σ → (current : Nat) → Schema → List String → Except PlanError (Nat × Arena σ)
  | a, current, _, [] => pure (current, a)
  | a, current, owner, name :: rest =>
    let site : Site := ⟨.join, declared.render⟩
    match owner.association? name with
    | none => throw (.malformed site (.hopMissing owner.name name through))
    | some d => do
      let (ix, a) ← expand a current owner d (if rest.isEmpty then target else none)
      if rest.isEmpty then pure (ix, a)
      else
        let next ← a.schemaAt ctx site ix
        expandThrough expand through target a ix next rest

/-- Follow the association `d` from the binding `parent` of the schema `owner`, to the binding that
it leads to.  `opened` holds the associations being expanded around it; `depth` bounds their number,
as in `Registry.unfold`. -/
def expand : (depth : Nat) → (opened : List (String × String)) → Arena σ → (parent : Nat) →
    (owner : Schema) → (d : Association) → (target : Option Nat) → Except PlanError (Nat × Arena σ)
  | 0, _, _, _, owner, d, _ =>
    throw (.malformed ⟨.join, declared.render⟩ (.cyclicAssociation d.name owner.name))
  | depth + 1, opened, a, parent, owner, d, target =>
    if opened.contains (owner.name, d.name) then
      throw (.malformed ⟨.join, declared.render⟩ (.cyclicAssociation d.name owner.name))
    else
      match d.kind with
      | .through [] => throw (.malformed ⟨.join, declared.render⟩ (.emptyChain d.name))
      | .through chain =>
        expandThrough ctx declared (expand depth ((owner.name, d.name) :: opened)) d.name target a
          parent owner chain
      | .manyToMany joinThrough ownerKey relatedKey filters =>
        a.expandManyToMany ctx queryPrefix declared parent d joinThrough ownerKey relatedKey filters
          target
      | .belongsTo | .hasMany | .hasOne => a.expandDirect ctx queryPrefix declared parent d target

end

/-- Bind a declared join by expanding the association that it names. -/
def expandAssociation (a : Arena σ) (ctx : Context) (queryPrefix : Option String) (ix : Nat)
    (join : Join σ) (ref : AssociationRef) : Except PlanError (Arena σ) := do
  let site : Site := ⟨.join, join.render⟩
  if ix ≤ ref.parent then throw (.malformed site (.parentNotIntroduced ref.parent))
  let owner ← a.schemaAt ctx site ref.parent
  match owner.association? ref.name with
  | none => throw (.malformed site (.associationMissing owner.name ref.name))
  | some d =>
    let (_, a) ← expand ctx queryPrefix join (ctx.registry.associationCount + 1) [] a ref.parent
      owner d (some ix)
    pure { a with conditions := a.conditions ++ (join.on.toList.map fun on => (ix, on)) }

/-- Bind a declared join, expanding its association if it names one. -/
def expandJoin (ctx : Context) (queryPrefix : Option String) (a : Arena σ)
    (declared : Nat × Join σ) : Except PlanError (Arena σ) :=
  match declared.2.association with
  | none => a.bindExplicit ctx queryPrefix declared.1 declared.2
  | some ref => a.expandAssociation ctx queryPrefix declared.1 declared.2 ref

end Arena

/-- Bind the `from` source and every join, expanding associations one by one. -/
def Clauses.resolveExpanding (ctx : Context) (c : Clauses σ) : Except PlanError (Bindings σ) := do
  let some root := c.root
    | throw (.malformed ⟨.fromSource, "nil"⟩ .noSource)
  let bound ← root.source.bind ctx c.queryPrefix root.tablePrefix .fromSource
  let start : Arena σ := ⟨c.joins.length + 1, [(0, bound)], [], []⟩
  let arena ← c.declaredJoins.foldlM (Arena.expandJoin ctx c.queryPrefix) start
  checkPreloadJoins arena.joins c.preloads
  let sources ← arena.sources
  pure ⟨arena.joins, sources, arena.conditions⟩

variable {ctx : Context} {queryPrefix : Option String} {declared : Join σ}

/-! ### One hop -/

namespace Arena

/-- Bind the target of a hop to `ix` and join it to `parent`. -/
def push (a : Arena σ) (ctx : Context) (queryPrefix : Option String) (declared : Join σ)
    (ix parent : Nat) (hop : Hop) : Arena σ :=
  { a with
    bound := a.bound ++ [(ix, hop.bound ctx queryPrefix declared.tablePrefix)]
    joins := a.joins ++ [hop.join ctx queryPrefix declared parent ix] }

/-- A hop is pushed if what it relates to is there. -/
theorem pushHop_eq (a : Arena σ) (fresh ix parent : Nat) (shown : Option String)
    (related : Related) (relatedKey ownerKey : String) (filters : List AssociationFilter) :
    a.pushHop ctx queryPrefix declared ix parent shown related relatedKey ownerKey filters =
      match ctx.registry.target related with
      | .error fault => .error (.malformed ⟨.join, declared.render⟩ (fault.toFault fresh))
      | .ok target => .ok (a.push ctx queryPrefix declared ix parent
          ⟨shown, target, relatedKey, ownerKey, filters⟩) := by
  cases related with
  | table name => rfl
  | schema name =>
    simp only [pushHop, Related.bind, Registry.target, Context.schema]
    cases hlookup : ctx.registry.lookup? name with
    | none => rfl
    | some schema =>
      obtain rfl := Registry.name_of_lookup? hlookup
      rfl

/-! ### A block of hops -/

/-- Push hops one after the other, each from the binding of the one before it.  The target is for
the last of them. -/
def pushHops (ctx : Context) (queryPrefix : Option String) (declared : Join σ)
    (target : Option Nat) : Arena σ → (parent : Nat) → List Hop → Nat × Arena σ
  | a, parent, [] => (parent, a)
  | a, parent, hop :: rest =>
    let (ix, a) := a.allocateTarget (if rest.isEmpty then target else none)
    pushHops ctx queryPrefix declared target (a.push ctx queryPrefix declared ix parent hop) ix rest

/-- A hop that others follow gets a new binding. -/
theorem pushHops_cons_cons (target : Option Nat) (a : Arena σ) (parent : Nat) (hop hop' : Hop)
    (rest : List Hop) :
    a.pushHops ctx queryPrefix declared target parent (hop :: hop' :: rest) =
      (a.allocate.2.push ctx queryPrefix declared a.next parent hop).pushHops ctx queryPrefix
        declared target a.next (hop' :: rest) := rfl

/-- Hops that follow others go on from the binding that those come to. -/
theorem pushHops_append (target : Option Nat) {others : List Hop} (hothers : others ≠ []) :
    ∀ (first : List Hop) (a : Arena σ) (parent : Nat),
      a.pushHops ctx queryPrefix declared target parent (first ++ others) =
        (a.pushHops ctx queryPrefix declared none parent first).2.pushHops ctx queryPrefix declared
          target (a.pushHops ctx queryPrefix declared none parent first).1 others
  | [], _, _ => rfl
  | hop :: rest, a, parent => by
    have hne : (rest ++ others).isEmpty = false := by simp [hothers]
    rw [List.cons_append, pushHops, pushHops, hne]
    simp only [Bool.false_eq_true, if_false, ite_self]
    exact pushHops_append target hothers rest _ _

/-- With a target, the hops of a block are placed at it and at new bindings. -/
theorem pushHops_some (target : Nat) : ∀ (hops : List Hop) (a : Arena σ) (parent : Nat), hops ≠ [] →
    a.pushHops ctx queryPrefix declared (some target) parent hops =
      (target,
        { a with
          next := a.next + (hops.length - 1)
          bound := a.bound ++ (placeHops parent a.next target hops).map fun (_, ix, hop) =>
            (ix, hop.bound ctx queryPrefix declared.tablePrefix)
          joins := a.joins ++ (placeHops parent a.next target hops).map fun (parent, ix, hop) =>
            hop.join ctx queryPrefix declared parent ix })
  | [], _, _, hne => absurd rfl hne
  | [hop], a, parent, _ => rfl
  | hop :: hop' :: rest, a, parent, _ => by
    rw [pushHops_cons_cons, pushHops_some target (hop' :: rest) _ _ (by simp),
      placeHops_cons_cons]
    simp [allocate, push, Nat.add_assoc, Nat.add_comm 1]

/-- The bindings made so far are below those still free. -/
def Fresh (a : Arena σ) : Prop := ∀ p ∈ a.bound, p.1 < a.next

/-- A hop to a new binding is found there. -/
theorem Fresh.push {a : Arena σ} (h : a.Fresh) (parent : Nat) (hop : Hop) :
    (a.allocate.2.push ctx queryPrefix declared a.next parent hop).Fresh ∧
      (a.allocate.2.push ctx queryPrefix declared a.next parent hop).bound.lookup a.next =
        some (hop.bound ctx queryPrefix declared.tablePrefix) := by
  refine ⟨List.forall_mem_append.mpr ⟨fun p hp => Nat.lt_succ_of_lt (h p hp), ?_⟩, ?_⟩
  · exact List.forall_mem_singleton.mpr (Nat.lt_succ_self _)
  · have hnone : a.bound.lookup a.next = none :=
      List.lookup_eq_none_iff.mpr fun p hp => by simpa using Nat.ne_of_gt (h p hp)
    simp [Arena.push, allocate, List.lookup_append, hnone]

/-- Without a target, hops take the bindings next in turn, and the last of them is found at the
binding that they come to. -/
theorem pushHops_none (ctx : Context) (queryPrefix : Option String) (declared : Join σ)
    {last : Hop} : ∀ {hops : List Hop} {a : Arena σ} (parent : Nat), a.Fresh →
      hops.getLast? = some last →
    ∃ ix a', a.pushHops ctx queryPrefix declared none parent hops = (ix, a') ∧ a'.Fresh ∧
      ix + 1 = a'.next ∧ a'.next = a.next + hops.length ∧
      a'.bound.lookup ix = some (last.bound ctx queryPrefix declared.tablePrefix)
  | [hop], a, parent, h, hlast => by
    obtain rfl : hop = last := by simpa using hlast
    exact ⟨_, _, rfl, (h.push parent hop).1, rfl, rfl, (h.push parent hop).2⟩
  | hop :: hop' :: rest, a, parent, h, hlast => by
    have hlast' : (hop' :: rest).getLast? = some last := by simpa using hlast
    obtain ⟨ix, a', hpush, hfresh, hix, hnext, hlookup⟩ :=
      pushHops_none ctx queryPrefix declared a.next (h.push parent hop).1 hlast'
    refine ⟨ix, a', by rw [pushHops_cons_cons, hpush], hfresh, hix, ?_, hlookup⟩
    simp only [push, allocate, List.length_cons] at hnext ⊢
    omega

/-! ### Expansions and routes -/

/-- Push the hops of a route, or report why there is none.  The first binding on the way is
`fresh`. -/
def pushRoute (ctx : Context) (queryPrefix : Option String) (declared : Join σ) (a : Arena σ)
    (fresh parent : Nat) (target : Option Nat) :
    Except RouteFault (List Hop) → Except PlanError (Nat × Arena σ)
  | .error fault => .error (.malformed ⟨.join, declared.render⟩ (fault.toFault fresh))
  | .ok hops => .ok (a.pushHops ctx queryPrefix declared target parent hops)

theorem expandDirect_eq (a : Arena σ) (fresh parent : Nat) (d : Association)
    (target : Option Nat) :
    a.expandDirect ctx queryPrefix declared parent d target =
      a.pushRoute ctx queryPrefix declared fresh parent target (ctx.registry.directHop d) := by
  simp only [expandDirect, pushHop_eq _ fresh, Registry.directHop, bind, Except.bind]
  cases ctx.registry.target d.related <;> rfl

theorem expandManyToMany_eq (a : Arena σ) (fresh parent : Nat) (d : Association)
    (joinThrough : Related) (joinOwnerKey joinRelatedKey : String)
    (joinFilters : List AssociationFilter) (target : Option Nat) :
    a.expandManyToMany ctx queryPrefix declared parent d joinThrough joinOwnerKey joinRelatedKey
        joinFilters target =
      a.pushRoute ctx queryPrefix declared fresh parent target
        (ctx.registry.joinThroughHops d joinThrough joinOwnerKey joinRelatedKey joinFilters) := by
  simp only [expandManyToMany, pushHop_eq _ fresh, Registry.joinThroughHops, bind, Except.bind]
  cases ctx.registry.target joinThrough with
  | error fault => rfl
  | ok between => cases ctx.registry.target d.related <;> rfl

/-- The schema that the last of some hops leads to is found at its binding. -/
theorem schemaAt_last {a : Arena σ} {ix : Nat} {last : Hop} (site : Site)
    (hreaches : ctx.registry.Reaches last)
    (hlookup : a.bound.lookup ix = some (last.bound ctx queryPrefix declared.tablePrefix)) :
    a.schemaAt ctx site ix =
      match last.target.schema with
      | none => .error (.malformed site (.noSchemaToFollow ix))
      | some schema => .ok schema := by
  simp only [schemaAt, hlookup, Hop.bound, BoundSource.schema?]
  cases hschema : last.target.schema with
  | none => rfl
  | some schema => simp [Context.schema, hreaches schema hschema]

/-- Following a chain is pushing the hops of its associations in turn, if `expand` pushes those that
`unfold` makes. -/
theorem expandThrough_eq {fresh : Nat} {through : String} {target : Option Nat}
    {expand : Arena σ → Nat → Schema → Association → Option Nat → Except PlanError (Nat × Arena σ)}
    {unfold : Nat → Schema → Association → Except RouteFault (List Hop)}
    (hexpand : ∀ a parent owner d target count, a.Fresh → a.next = fresh + count →
      expand a parent owner d target =
        a.pushRoute ctx queryPrefix declared fresh parent target (unfold count owner d))
    (hmakes : ∀ count owner d hops, unfold count owner d = .ok hops →
      ∃ steps target, ctx.registry.Unfolds owner d steps target ∧
        Registry.Makes hops steps target)
    (hreaches : ∀ count owner d hops, unfold count owner d = .ok hops →
      ∀ hop ∈ hops, ctx.registry.Reaches hop) :
    ∀ (names : List String) (a : Arena σ) (current : Nat) (owner : Schema) (count : Nat),
      a.Fresh → a.next = fresh + count →
        expandThrough ctx declared expand through target a current owner names =
          a.pushRoute ctx queryPrefix declared fresh current target
            (Registry.chainHops unfold through count owner names)
  | [], _, _, _, _, _, _ => rfl
  | name :: names, a, current, owner, count, hfresh, hnext => by
    rw [expandThrough, Registry.chainHops]
    cases owner.association? name with
    | none => rfl
    | some d =>
      simp only [hexpand a current owner d _ count hfresh hnext, bind, Except.bind]
      cases hfirst : unfold count owner d with
      | error fault => rfl
      | ok first =>
        cases names with
        | nil => rfl
        | cons name' rest =>
          obtain ⟨steps, between, -, hfirstMakes⟩ := hmakes count owner d first hfirst
          obtain ⟨last, hlast, -⟩ := Option.map_eq_some_iff.mp hfirstMakes.2
          obtain ⟨ix, a', hpush, hfresh', hix, hnext', hlookup⟩ :=
            pushHops_none ctx queryPrefix declared current hfresh hlast
          have hschemaAt := schemaAt_last ⟨.join, declared.render⟩
            (hreaches count owner d first hfirst last (List.mem_of_getLast? hlast)) hlookup
          simp only [List.isEmpty_cons, Bool.false_eq_true, if_false, pushRoute, hpush, hschemaAt,
            hlast, Option.bind_some]
          cases last.target.schema with
          | none =>
            have hbinding : fresh + (count + first.length) - 1 = ix := by omega
            simp only [RouteFault.toFault, hbinding]
          | some next =>
            simp only
            rw [expandThrough_eq hexpand hmakes hreaches (name' :: rest) a' ix next
              (count + first.length) hfresh' (by omega)]
            cases hothers : Registry.chainHops unfold through (count + first.length) next
                (name' :: rest) with
            | error fault => rfl
            | ok others =>
              obtain ⟨_, _, -, hothersMakes⟩ := Registry.makes_chainHops hmakes (name' :: rest) _
                next others (by simp) hothers
              simp only [pushRoute, pushHops_append target hothersMakes.ne_nil, hpush]

/-- **Expanding an association** is pushing the hops of its route. -/
theorem expand_eq {fresh : Nat} : ∀ (depth : Nat) (opened : List (String × String)) (a : Arena σ)
    (parent : Nat) (owner : Schema) (d : Association) (target : Option Nat) (count : Nat),
      a.Fresh → a.next = fresh + count →
        expand ctx queryPrefix declared depth opened a parent owner d target =
          a.pushRoute ctx queryPrefix declared fresh parent target
            (ctx.registry.unfold depth opened count owner d)
  | 0, _, _, _, _, _, _, _, _, _ => rfl
  | depth + 1, opened, a, parent, owner, d, target, count, hfresh, hnext => by
    rw [expand, Registry.unfold]
    by_cases hopened : opened.contains (owner.name, d.name)
    · rw [if_pos hopened, if_pos hopened]
      rfl
    rw [if_neg hopened, if_neg hopened]
    cases d.kind with
    | through names =>
      cases names with
      | nil => rfl
      | cons name names =>
        exact expandThrough_eq (expand_eq depth _) (Registry.unfold_unfolds depth _)
          (Registry.reaches_unfold depth _) (name :: names) a parent owner count hfresh hnext
    | manyToMany joinThrough ownerKey relatedKey filters =>
      exact expandManyToMany_eq a fresh parent d joinThrough ownerKey relatedKey filters target
    | belongsTo | hasMany | hasOne => exact expandDirect_eq a fresh parent d target

/-! ### A whole level -/

/-- **One declared join** is bound alike, its association expanded or its route placed. -/
theorem expandJoin_eq {a : Arena σ} (h : a.Fresh) (declared : Nat × Join σ) :
    expandJoin ctx queryPrefix a declared = bindJoin ctx queryPrefix a declared := by
  obtain ⟨ix, j⟩ := declared
  simp only [expandJoin, bindJoin]
  cases j.association with
  | none => rfl
  | some ref =>
    simp only [expandAssociation, bindAssociation]
    by_cases hparent : ix ≤ ref.parent
    · simp only [hparent, if_true]
      rfl
    simp only [hparent, if_false, bind, Except.bind]
    cases a.schemaAt ctx ⟨.join, j.render⟩ ref.parent with
    | error e => rfl
    | ok owner =>
      simp only
      cases owner.association? ref.name with
      | none => rfl
      | some d =>
        simp only [expand_eq _ [] a ref.parent owner d (some ix) 0 h rfl, Registry.route]
        cases hroute : ctx.registry.unfold (ctx.registry.associationCount + 1) [] 0 owner d with
        | error fault => rfl
        | ok hops =>
          obtain ⟨_, _, -, hmakes⟩ := Registry.unfold_unfolds _ _ _ owner d hops hroute
          simp only [pushRoute, pushHops_some ix hops a ref.parent hmakes.ne_nil]
          rfl

/-- Bindings made in order leave only those above them free. -/
theorem Sound.fresh {root : Source σ} {n k : Nat} {a : Arena σ} (h : a.Sound root n k)
    (hk : k ≤ n) : a.Fresh := by
  intro p hp
  have := h.taken p hp
  have := h.next
  omega

/-- The declared joins are bound alike, one after the other. -/
theorem foldlM_expandJoin (ctx : Context) (queryPrefix : Option String) {root : Source σ}
    {n : Nat} : ∀ (joins : List (Join σ)) (k : Nat) (a : Arena σ), k + joins.length ≤ n →
      a.Sound root n k →
      ((joins.zipIdx k).map fun (j, i) => (i + 1, j)).foldlM (expandJoin ctx queryPrefix) a =
        ((joins.zipIdx k).map fun (j, i) => (i + 1, j)).foldlM (bindJoin ctx queryPrefix) a
  | [], _, _, _, _ => rfl
  | j :: joins, k, a, hn, h => by
    rw [List.length_cons] at hn
    simp only [List.zipIdx_cons, List.map_cons, List.foldlM_cons,
      expandJoin_eq (h.fresh (by omega))]
    cases hj : bindJoin ctx queryPrefix a (k + 1, j) with
    | error e => rfl
    | ok a' =>
      exact foldlM_expandJoin ctx queryPrefix joins (k + 1) a' (by omega) (h.bindJoin (by omega) hj)

end Arena

/-- **The bindings of a level** are those that expanding its associations makes, and it is refused
for what expanding them is refused for. -/
theorem Clauses.resolveExpanding_eq (ctx : Context) (c : Clauses σ) :
    c.resolveExpanding ctx = c.resolve ctx := by
  unfold resolveExpanding resolve
  cases c.root with
  | none => rfl
  | some root =>
    simp only [bind, Except.bind]
    cases hsource : root.source.bind ctx c.queryPrefix root.tablePrefix .fromSource with
    | error e => rfl
    | ok source =>
      have hfold := Arena.foldlM_expandJoin ctx c.queryPrefix c.joins 0
        ⟨c.joins.length + 1, [(0, source)], [], []⟩ (Nat.le_of_eq (Nat.zero_add _))
        (Arena.sound_start hsource c.joins.length)
      simp only [declaredJoins, hfold]

end QueryPlanner
