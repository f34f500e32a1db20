import QueryPlanner.Proofs.Normal.Associations
import QueryPlanner.Proofs.Plan.Nested

/-!
# Cutting rows into their parts

A query that selects its root projects the fields of the root and then those of the associations
that are preloaded from joins.  Each association has a block of its own, in which nothing else
stands.  The blocks are in the order of the tree, with the parents first.  The notes are not where a
take nests associations: there a parent is noted after what is taken within it.

* `AssociationSelect.block` — the columns of an association
* `ParentsFirst` — associations with the parents first, beside the same with the parents last
* `Projected.CutInto` — a projection that consists of the blocks of associations
* `Projected.Rows` — the same behind the columns of the root
* `Expr.rootTake?` — a selection of the root, with the take that narrows it
* `Query.plan_selected` — planning keeps it
* `Planner.prepare_rows` — how the rows of an accepted query are cut
* `Planner.prepare_rows_nested` — nested takes are not noted in the order of their fields
-/

namespace QueryPlanner

open HasExprs Binder

/-! ### Blocks of columns -/

/-- The columns that an association is read from. -/
def AssociationSelect.block (a : AssociationSelect) : List Expr :=
  a.fields.map (Expr.field a.binding)

/-- Associations, each before those that are nested in it, beside the same with each behind them.
The path of what is nested goes on from that of what it is nested in. -/
inductive ParentsFirst : List AssociationSelect → List AssociationSelect → Prop
  | nil : ParentsFirst [] []
  | cons {a : AssociationSelect} {within within' after after' : List AssociationSelect}
    (beneath : ∀ b ∈ within', a.path <+: b.path) (inner : ParentsFirst within within')
    (rest : ParentsFirst after after') : ParentsFirst (a :: within ++ after) (within' ++ a :: after')

namespace ParentsFirst

variable {xs xs' ys ys' : List AssociationSelect}

theorem append (h : ParentsFirst xs xs') (h' : ParentsFirst ys ys') :
    ParentsFirst (xs ++ ys) (xs' ++ ys') := by
  induction h with
  | nil => exact h'
  | cons beneath inner _ _ ih =>
    rw [List.append_assoc, List.append_assoc, List.cons_append]
    exact .cons beneath inner ih

/-- They are the same associations. -/
theorem perm (h : ParentsFirst xs xs') : xs.Perm xs' := by
  induction h with
  | nil => exact .nil
  | cons _ _ _ inner rest => exact ((inner.append rest).cons _).trans List.perm_middle.symm

end ParentsFirst

/-- The columns are the blocks of these associations, which are the noted ones with the parents
first. -/
structure Projected.CutInto (order : List AssociationSelect) (p : Projected) : Prop where
  noted : ParentsFirst order p.associations
  blocks : p.fields = order.flatMap AssociationSelect.block

namespace Projected.CutInto

variable {p q : Projected} {xs ys : List AssociationSelect}

theorem nil : CutInto [] {} := ⟨.nil, rfl⟩

theorem append (hp : p.CutInto xs) (hq : q.CutInto ys) : (p ++ q).CutInto (xs ++ ys) where
  noted := hp.noted.append hq.noted
  blocks := by rw [fields_append, hp.blocks, hq.blocks, List.flatMap_append]

/-- An association with those beneath it, which are noted before it. -/
theorem note {path names : List String} {ix : Nat} {schema : String} (hp : p.CutInto xs)
    (hbeneath : ∀ b ∈ p.associations, path <+: b.path) :
    CutInto (⟨path, ix, schema, names⟩ :: xs)
      (.ofBinding ix names ++ p ++ ⟨[], [⟨path, ix, schema, names⟩]⟩) where
  noted := by
    have hnoted : ParentsFirst (⟨path, ix, schema, names⟩ :: xs ++ []) _ :=
      .cons hbeneath hp.noted .nil
    rwa [List.append_nil] at hnoted
  blocks := by
    rw [fields_append, fields_append, hp.blocks, List.append_nil, List.flatMap_cons]
    rfl

end Projected.CutInto

/-! ### Takes and left-over preloads -/

/-- A take that takes no associations within those that it names. -/
def Take.Shallow (take : List Take) : Prop :=
  ∀ name nested, .association name nested ∈ take → ∀ t ∈ nested, ∃ field, t = .field field

theorem Take.Shallow.tail {t : Take} {take : List Take} (h : Shallow (t :: take)) : Shallow take :=
  fun name nested hmem => h name nested (List.mem_cons_of_mem t hmem)

/-- The columns are those of the root and then the blocks of the noted associations, parents first;
the notes are in the order of their blocks unless the take nests associations. -/
structure Projected.Rows (root : List Expr) (take : List Take) (p : Projected) : Prop where
  cut : ∃ order, ParentsFirst order p.associations ∧
    p.fields = root ++ order.flatMap AssociationSelect.block
  inStep : Take.Shallow take → p.fields = root ++ p.associations.flatMap AssociationSelect.block

namespace Projected.Rows

variable {root : List Expr} {take : List Take} {p q : Projected}

/-- The columns of the root, before what a take names. -/
theorem ofBinding {ix : Nat} {names : List String} (hcut : ∃ order, p.CutInto order)
    (hshallow : Take.Shallow take → p.CutInto p.associations) :
    Rows (names.map (Expr.field ix)) take (.ofBinding ix names ++ p) where
  cut :=
    have ⟨order, hp⟩ := hcut
    ⟨order, hp.noted, congrArg (_ ++ ·) hp.blocks⟩
  inStep h := congrArg (_ ++ ·) (hshallow h).blocks

/-- The columns of the root alone. -/
theorem ofBinding_alone (ix : Nat) (names : List String) (take : List Take) :
    Rows (names.map (Expr.field ix)) take (.ofBinding ix names) := by
  have hrows : Rows (names.map (Expr.field ix)) take (.ofBinding ix names ++ {}) :=
    ofBinding ⟨[], .nil⟩ fun _ => .nil
  rwa [append_nil] at hrows

/-- Further associations that are noted in the order of their blocks. -/
theorem append (hp : p.Rows root take) (hq : q.CutInto q.associations) :
    (p ++ q).Rows root take where
  cut := by
    obtain ⟨order, hnoted, hfields⟩ := hp.cut
    refine ⟨order ++ q.associations, hnoted.append hq.noted, ?_⟩
    rw [fields_append, hfields, hq.blocks, List.flatMap_append, List.append_assoc]
  inStep h := by
    rw [fields_append, hp.inStep h, hq.blocks, associations_append, List.flatMap_append,
      List.append_assoc]

end Projected.Rows

namespace Projectable

variable (v : Projectable)

/-- What a take names is noted with paths that go on from that of the take, and it is projected in
blocks, parents first. -/
theorem cut_takenAssociations (preloads : List Preload) (path : List String) (take : List Take) :
    (∀ a ∈ (v.takenAssociations preloads path take).associations, path <+: a.path) ∧
      ∃ order, (v.takenAssociations preloads path take).CutInto order := by
  refine v.takenAssociations_induction
    (P := fun path p => (∀ a ∈ p.associations, path <+: a.path) ∧ ∃ order, p.CutInto order)
    (fun _ => ⟨List.forall_mem_nil _, [], .nil⟩) (fun path p q hp hq => ?append)
    (fun path name ix schema names p hp => ?note) preloads path take
  case append =>
    obtain ⟨hp, first, hfirst⟩ := hp
    obtain ⟨hq, rest, hrest⟩ := hq
    exact ⟨List.forall_mem_append.mpr ⟨hp, hq⟩, first ++ rest, hfirst.append hrest⟩
  case note =>
    obtain ⟨hp, within, hwithin⟩ := hp
    have hpath : path <+: path ++ [name] := List.prefix_append path [name]
    exact ⟨List.forall_mem_append.mpr
      ⟨fun a ha => hpath.trans (hp a ha), List.forall_mem_singleton.mpr hpath⟩, _, hwithin.note hp⟩

/-- Children within children stand behind them, but are noted before them. -/
example :
    let v : Projectable := ⟨fun _ => some (Schema.ofTable "Node" "nodes"), fun _ => [],
      [⟨"children", some 1, [⟨"children", some 2, []⟩]⟩]⟩
    let projected := v.takenAssociations v.preloads []
      [.association "children" [.association "children" []]]
    projected.fields = [.field 1 "id", .field 2 "id"] ∧
      projected.associations.map (·.binding) = [2, 1] := by
  constructor <;> cbv

/-- Fields name no associations. -/
theorem takenAssociations_fields (preloads : List Preload) (path : List String) :
    ∀ take : List Take, (∀ t ∈ take, ∃ field, t = .field field) →
      v.takenAssociations preloads path take = {}
  | [], _ => by rw [takenAssociations]
  | t :: take, h => by
    obtain ⟨⟨field, rfl⟩, hrest⟩ := List.forall_mem_cons.mp h
    rw [takenAssociations]
    exact takenAssociations_fields preloads path take hrest

/-- Where a take nests no associations, they are noted in the order of their blocks. -/
theorem cut_shallow (preloads : List Preload) (path : List String) :
    ∀ take : List Take, Take.Shallow take →
      (v.takenAssociations preloads path take).CutInto
        (v.takenAssociations preloads path take).associations
  | [], _ => by
    rw [takenAssociations]
    exact .nil
  | .field _ :: take, h => by
    rw [takenAssociations]
    exact cut_shallow preloads path take h.tail
  | .association name nested :: take, h => by
    have hrest := cut_shallow preloads path take h.tail
    have hfields := h name nested List.mem_cons_self
    simp only [takenAssociations]
    split
    · rename_i association ix children _
      cases v.schemaAt ix with
      | none => exact Projected.CutInto.nil.append hrest
      | some schema =>
        simp only [v.takenAssociations_fields children (path ++ [name]) nested hfields]
        exact (Projected.CutInto.nil.note (List.forall_mem_nil _)).append hrest
    · exact Projected.CutInto.nil.append hrest

/-- The preloads that are left over are noted in the order of their blocks. -/
theorem cut_joinedPreloads (noted : List AssociationSelect) (path : List String)
    (ps : List Preload) : (v.joinedPreloads noted path ps).CutInto
      (v.joinedPreloads noted path ps).associations := by
  refine v.joinedPreloads_induction (P := fun p => p.CutInto p.associations) .nil
    (fun _ _ => .append) (fun path ix schema names => ?_) noted path ps
  have hnote : Projected.CutInto [⟨path, ix, schema, names⟩]
      (.ofBinding ix names ++ {} ++ ⟨[], [⟨path, ix, schema, names⟩]⟩) :=
    Projected.CutInto.nil.note (List.forall_mem_nil _)
  rwa [Projected.append_nil] at hnote

end Projectable

/-! ### Selections of the root -/

/-- The take that narrows the root, if this is what an expression selects. -/
def Expr.rootTake? (e : Expr) : Option (List Take) :=
  match e.node with
  | .binding 0 => some []
  | .structOf 0 take | .mapOf 0 take => some take
  | _ => none

theorem Expr.rootTake?_cases {e : Expr} {take : List Take} (h : e.rootTake? = some take) :
    e = .binding 0 ∧ take = [] ∨ e = .structOf 0 take ∨ e = .mapOf 0 take := by
  obtain ⟨n⟩ := e
  unfold rootTake? at h
  split at h
  · exact .inl ⟨congrArg Expr.mk ‹_›, (Option.some.inj h).symm⟩
  · obtain rfl := Option.some.inj h
    exact .inr (.inl (congrArg Expr.mk ‹_›))
  · obtain rfl := Option.some.inj h
    exact .inr (.inr (congrArg Expr.mk ‹_›))
  · cases h

theorem Expr.isWhole_of_rootTake? {e : Expr} {take : List Take} (h : e.rootTake? = some take) :
    e.node.isWhole = true := by
  rcases rootTake?_cases h with ⟨rfl, -⟩ | rfl | rfl <;> rfl

theorem Expr.selectsRoot_of_rootTake? {e : Expr} {take : List Take}
    (h : e.rootTake? = some take) : e.selectsRoot = true := by
  rcases rootTake?_cases h with ⟨rfl, -⟩ | rfl | rfl <;> rfl

/-- The fields of the root, narrowed by a take. -/
def Projectable.rootNames (v : Projectable) (take : List Take) : List String :=
  match v.schemaAt 0 with
  | some schema => schema.taken take
  | none => if take.isEmpty then v.exposed 0 else take.filterMap Take.fieldName?

/-- The columns of the root itself. -/
def Projectable.rootColumns (v : Projectable) (take : List Take) : List Expr :=
  (v.rootNames take).map (Expr.field 0)

/-- A `struct` that is projected has a schema. -/
theorem Selection.needs_struct (s : Selection) (ix : Nat) (take : List Take) :
    Projector.Needs (s.flatten (.structOf ix take)) (∃ schema, s.schemaAt? ix = some schema) := by
  unfold flatten
  rw [Expr.fold_mk]
  simp only [Node.map, flattenNode]
  cases s.schemaAt? ix with
  | some schema => exact .of ⟨schema, rfl⟩
  | none => exact .throw _ _

/-- The columns of the root are its own and then those of the associations that the take names. -/
theorem Projectable.rows_root (v : Projectable) {e : Expr} {take : List Take}
    (h : e.rootTake? = some take)
    (hstruct : e = .structOf 0 take → ∃ schema, v.schemaAt 0 = some schema) :
    (v.columns e).Rows (v.rootColumns take) take := by
  have htaken : ∀ schema, v.schemaAt 0 = some schema →
      (v.taken 0 schema take).Rows (v.rootColumns take) take := by
    intro schema hschema
    rw [taken, rootColumns, rootNames, hschema]
    exact .ofBinding (v.cut_takenAssociations v.preloads [] take).2
      (v.cut_shallow v.preloads [] take)
  rcases Expr.rootTake?_cases h with ⟨rfl, rfl⟩ | rfl | rfl
  · have hnames : v.rootNames [] = v.names 0 := by
      unfold rootNames names
      cases v.schemaAt 0 <;> rfl
    rw [columns_mk, rootColumns, hnames]
    exact .ofBinding_alone 0 (v.names 0) []
  · obtain ⟨schema, hschema⟩ := hstruct rfl
    rw [columns_mk]
    simp only [Node.map, columnsNode, hschema]
    exact htaken schema hschema
  · rw [columns_mk]
    simp only [Node.map, columnsNode, mapped]
    cases hschema : v.schemaAt 0 with
    | some schema => exact htaken schema hschema
    | none =>
      rw [rootColumns, rootNames, hschema]
      exact .ofBinding_alone 0 _ take

/-! ### Levels -/

/-- A binding as a whole is read as it is. -/
theorem Scope.reads_whole {s : Scope} {e a : Expr} {expected : FieldType}
    {ps qs : List BoundParameter} (he : e.node.isWhole = true) (h : s.Reads e expected ps a qs) :
    a = e := by
  obtain ⟨n⟩ := e
  rcases reads_cases h with ⟨v, p, rfl, -⟩ | ⟨left, values, left', rs, added, rfl, -⟩ |
    ⟨-, cs, m, -, rfl, hshape, -⟩
  · cases he
  · cases he
  · cases n with
    | binding | structOf | mapOf =>
      cases m <;> cases hshape
      rfl
    | _ => cases he

namespace Clauses

variable {ctx : Context} {c : Clauses Query}

/-- **The columns of a level that selects its root** are those of the root and then the blocks of
the associations. -/
theorem rows_columns {take : List Take} (hoperation : ctx.operation = .all)
    (h : ∃ r, c.projectFor ctx = .ok r) (htake : c.selected.rootTake? = some take) :
    (c.columns ctx).Rows ((c.projectable ctx).rootColumns take) take := by
  simp only [projectFor, hoperation] at h
  obtain ⟨-, r, hr⟩ := (c.project_ok ctx).mp h
  -- without a schema a `struct` has no columns at all, but then it is not projected
  have hflatten : Projector.Needs
      (Selection.flatten ⟨ctx, c, c.selected.render⟩ c.selected)
      (c.selected = .structOf 0 take → ∃ schema, (c.projectable ctx).schemaAt 0 = some schema) := by
    by_cases hstruct : c.selected = .structOf 0 take
    · rw [hstruct]
      exact (Selection.needs_struct _ 0 take).imp fun hschema _ => hschema
    · exact .of fun h => absurd h hstruct
  have hroot := (c.projectable ctx).rows_root htake (hflatten.first {} r hr)
  unfold columns Projectable.expansion
  rw [if_pos (Expr.selectsRoot_of_rootTake? htake)]
  exact hroot.append ((c.projectable ctx).cut_joinedPreloads _ [] _)

end Clauses

namespace Query

/-- Planning keeps a selection of a binding as a whole. -/
theorem plan_selected {ctx : Context} {c : Clauses Query} {t : Query} {ps qs : List BoundParameter}
    (hoperation : ctx.operation = .all) (hwhole : c.selected.node.isWhole = true)
    (h : (plan ⟨c⟩ ctx).Yields ps t qs) : t.clauses.selected = c.selected := by
  obtain ⟨b, -, hframe, hitems⟩ := plan_items h
  have hselect : t.clauses.select.map (frame (X := Select)) =
      (c.prepared b).select.map (frame (X := Select)) :=
    congrArg (fun f : Clauses Unit => f.select) hframe
  have hprepared : (c.prepared b).select = c.select.map fun s => { expr := s.expr } := rfl
  cases hc : c.select with
  | none =>
    rw [hprepared, hc] at hselect
    have ht : t.clauses.select = none := by simpa using hselect
    rw [Clauses.selected, Clauses.selected, hc, ht]
  | some select =>
    rw [hprepared, hc] at hselect
    obtain ⟨planned, ht, -⟩ := Option.map_eq_some_iff.mp hselect
    have htasks : (c.prepared b).tasks (ctx.typeOf b.sources) .select =
        [Item.task .select .any (.expr select.expr)] := by
      simp [Clauses.tasks, Clauses.items, hprepared, hc, Item.ofExprs, exprs]
    have hreads := hitems .select (hoperation ▸ by decide)
    rw [htasks, Clauses.items, ht] at hreads
    obtain ⟨rs, ts, type, -, hread⟩ := (List.forall₂_cons.mp hreads).1
    have hexpr : select.expr.node.isWhole = true := by simpa [Clauses.selected, hc] using hwhole
    rw [Clauses.selected, Clauses.selected, hc, ht]
    exact Scope.reads_whole hexpr hread

end Query

/-- Normalization keeps a selection of a binding as a whole. -/
theorem Clauses.selected_dumped {ctx : Context} {c : Clauses Query}
    (hwhole : c.selected.node.isWhole = true) :
    ((c.nestedNormal ctx).dumped ctx).selected = c.selected := by
  have hpassed : ∀ e : Expr, e.node.isWhole = true → (c.nestedNormal ctx).passed ctx e = e := by
    rintro ⟨n⟩ hn
    rw [passed, Expr.settle_mk]
    cases n <;> first | rfl | cases hn
  unfold selected at hwhole ⊢
  cases hselect : c.select with
  | none => simp [dumped, nestedNormal, edit, rewrite, hselect]
  | some select =>
    rw [hselect] at hwhole
    simpa [dumped, nestedNormal, edit, rewrite, hselect] using hpassed select.expr hwhole

/-- What a query projects that is read. -/
theorem Query.projection_eq {ctx : Context} {t : Query} (hoperation : ctx.operation = .all) :
    t.projection ctx = ((t.clauses.nestedNormal ctx).dumped ctx).projection ctx := by
  rw [projection, Clauses.projectionFor, hoperation]

/-- What an accepted query that selects its root projects. -/
theorem Query.rows_projection {ctx : Context} {t : Query} {take : List Take}
    (hoperation : ctx.operation = .all) (h : t.clauses.Accepted ctx)
    (htake : t.clauses.selected.rootTake? = some take) :
    Projected.Rows (((t.normal ctx).clauses.projectable ctx).rootColumns take) take
      ⟨(t.projection ctx).fields, (t.projection ctx).associations⟩ := by
  obtain ⟨d⟩ := t
  have hselected : ((d.nestedNormal ctx).dumped ctx).selected = d.selected :=
    Clauses.selected_dumped (Expr.isWhole_of_rootTake? htake)
  have hcolumns := Clauses.rows_columns hoperation h.projects.2 (hselected ▸ htake)
  rw [projection_eq hoperation, normal_mk]
  exact hcolumns

/-- **How the rows of an accepted query are cut.**  Take a query that is prepared for reading and
selects its root: as a binding, as a `struct` or as a `map`.  It projects the fields of the root and
then, for each association, the fields of the association on its binding, with nothing in between
and nothing after.  The parents stand before the associations beneath them; the same associations
are noted, but with a parent after those that a take nests in it.  So the notes cut the rows in
their own order where no take nests associations in another. -/
theorem Planner.prepare_rows {p : Planner} {query : Query} {caps : Capabilities} {plan : Plan}
    {projection : Projection} {take : List Take}
    (h : p.prepare query .all caps = .ok (plan, projection))
    (htake : query.clauses.selected.rootTake? = some take) :
    (∃ order, order.Perm projection.associations ∧
      ParentsFirst order projection.associations ∧
      projection.fields =
        (plan.query.clauses.projectable (p.context .all caps)).rootColumns take ++
          order.flatMap AssociationSelect.block) ∧
    (Take.Shallow take → projection.fields =
      (plan.query.clauses.projectable (p.context .all caps)).rootColumns take ++
        projection.associations.flatMap AssociationSelect.block) := by
  obtain ⟨t, ps, hyields, -, haccepted, hquery, rfl⟩ := prepare_cases h
  obtain ⟨c⟩ := query
  have hplanned : t.clauses.selected = c.selected :=
    Query.plan_selected rfl (Expr.isWhole_of_rootTake? htake) hyields
  have hrows := Query.rows_projection rfl haccepted.level (hplanned ▸ htake)
  rw [hquery]
  obtain ⟨order, hnoted, hfields⟩ := hrows.cut
  exact ⟨⟨order, hnoted.perm, hnoted, hfields⟩, hrows.inStep⟩

/-- The rows of posts with their comments and the authors of these, cut into three parts. -/
theorem Planner.prepare_rows_commented :
    ∃ plan projection, (⟨.blog, .builtin, none, {}⟩ : Planner).prepare .commentedPosts .all
        Dialect.postgres.capabilities = .ok (plan, projection) ∧
      projection.associations =
        [⟨["comments"], 1, "Comment", ["id", "body", "post_id", "author_id"]⟩,
          ⟨["comments", "author"], 2, "Author", ["id", "name"]⟩] ∧
      Query.commentedPosts.clauses.selected.rootTake? = some [] ∧ Take.Shallow [] ∧
      projection.fields = (plan.query.clauses.projectable
          ((⟨.blog, .builtin, none, {}⟩ : Planner).context .all
            Dialect.postgres.capabilities)).rootColumns [] ++
        projection.associations.flatMap AssociationSelect.block := by
  have hprepared : ((⟨.blog, .builtin, none, {}⟩ : Planner).prepare .commentedPosts .all
      Dialect.postgres.capabilities).toOption.map (·.2.associations) =
        some [⟨["comments"], 1, "Comment", ["id", "body", "post_id", "author_id"]⟩,
          ⟨["comments", "author"], 2, "Author", ["id", "name"]⟩] := by
    decide +kernel
  obtain ⟨⟨plan, projection⟩, hprepare, hassociations⟩ := Option.map_eq_some_iff.mp hprepared
  have hok := Except.toOption_eq_some_iff.mp hprepare
  have htake : Query.commentedPosts.clauses.selected.rootTake? = some [] := rfl
  have hshallow : Take.Shallow [] := fun _ _ hmem => absurd hmem List.not_mem_nil
  exact ⟨plan, projection, hok, hassociations, htake, hshallow,
    (Planner.prepare_rows hok htake).2 hshallow⟩

/-! ### Takes within takes -/

/-- A take of an association and of one within it is projected with the fields of the outer one in
front, and noted with the outer one behind. -/
theorem Selection.run_expand_nested (s : Selection) {outer inner : String} {ix ix' : Nat}
    {root parent child : Schema}
    (hpreloads : s.clauses.preloads = [⟨outer, some ix, [⟨inner, some ix', []⟩]⟩])
    (hroot : s.schemaAt? 0 = some root) (hparent : s.schemaAt? ix = some parent)
    (hchild : s.schemaAt? ix' = some child) :
    (s.expand (.structOf 0 [.association outer [.association inner []]])).run {} =
      pure ((), ⟨root.loadNames.map (.field 0) ++ parent.loadNames.map (.field ix) ++
          child.loadNames.map (.field ix'),
        [⟨[outer, inner], ix', child.name, child.loadNames⟩,
          ⟨[outer], ix, parent.name, parent.loadNames⟩]⟩) := by
  have hselects : Expr.selectsRoot
      (.structOf 0 [.association outer [.association inner []]]) = true := rfl
  unfold expand flatten
  rw [Expr.fold_mk, hselects]
  simp [Node.map, flattenNode, hroot, hparent, hchild, take, takeFields, takenNames,
    takeAssociations, hpreloads, joinedPreloads, joinedPreload, addFields, addAssociation]

namespace Clauses

variable {ctx : Context} {c : Clauses Query}

/-- Such a level is projected. -/
theorem project_nested {outer inner : String} {ix ix' : Nat} {root parent child : Schema}
    (hselected : c.selected = .structOf 0 [.association outer [.association inner []]])
    (hpreloads : c.preloads = [⟨outer, some ix, [⟨inner, some ix', []⟩]⟩])
    (hroot : (c.projectable ctx).schemaAt 0 = some root)
    (hparent : (c.projectable ctx).schemaAt ix = some parent)
    (hchild : (c.projectable ctx).schemaAt ix' = some child) :
    (∃ r, c.project ctx = .ok r) ∧
      c.columns ctx = ⟨root.loadNames.map (.field 0) ++ parent.loadNames.map (.field ix) ++
          child.loadNames.map (.field ix'),
        [⟨[outer, inner], ix', child.name, child.loadNames⟩,
          ⟨[outer], ix, parent.name, parent.loadNames⟩]⟩ := by
  have hrun := Selection.run_expand_nested ⟨ctx, c, c.selected.render⟩ hpreloads hroot hparent
    hchild
  have hselectable : c.checkSelectable ctx = .ok () := by
    have hschema : Selection.schemaAt? ⟨ctx, c, "nil"⟩ 0 = some root := hroot
    simp [checkSelectable, hschema]
  rw [← hselected] at hrun
  refine ⟨(c.project_ok ctx).mpr ⟨⟨(), hselectable⟩, _, hrun⟩, ?_⟩
  rcases Selection.run_expand ⟨ctx, c, c.selected.render⟩ c.selected with ⟨_, _, herror⟩ | hok
  · cases hrun.symm.trans herror
  · exact (Prod.mk.inj (Except.ok.inj (hok.symm.trans hrun))).2

/-- Whether a level passes the checks of normalization, those of its projection aside. -/
def passes? (ctx : Context) (c : Clauses Query) : Bool :=
  !c.sources.isEmpty && (c.checkOperation ctx.operation).toOption.isSome &&
    c.checkCombinedOrder.toOption.isSome && (c.checkReferences ctx).toOption.isSome &&
    (c.checkPreloads ctx).toOption.isSome

theorem accepted_iff_passes? (hselect : ∀ s, c.select = some s → s.fields = []) :
    c.Accepted ctx ↔ c.passes? ctx = true ∧ ∃ r, c.projectFor ctx = .ok r := by
  have hrefers : (∃ d, c.checkReferences ctx = .ok d) ↔ c.Refers ctx := by
    simp [(c.guarded_checkReferences ctx hselect).eq_ok_iff]
  simp only [passes?, Bool.and_eq_true, Bool.not_eq_true', Option.isSome_iff_exists,
    Except.toOption_eq_some_iff, hrefers]
  constructor
  · rintro ⟨hbound, hoperation, horder, hreferences, hpreloads, hprojection⟩
    exact ⟨⟨⟨⟨⟨hbound, hoperation⟩, horder⟩, hreferences⟩, hpreloads⟩, hprojection⟩
  · rintro ⟨⟨⟨⟨⟨hbound, hoperation⟩, horder⟩, hreferences⟩, hpreloads⟩, hprojection⟩
    exact ⟨hbound, hoperation, horder, hreferences, hpreloads, hprojection⟩

end Clauses

/-- A planned query that nests no queries is accepted if its level passes the checks and is
projected. -/
theorem Query.Planned.everywhere_accepted {q : Query} {ctx : Context} (hq : q.Planned)
    (hnested : q.clauses.nested = []) (hpasses : q.clauses.passes? ctx = true)
    (hproject : ∃ r, q.clauses.projectFor ctx = .ok r) :
    q.Everywhere Clauses.Accepted ctx := by
  cases hq with
  | mk level =>
    refine .mk ((Clauses.accepted_iff_passes? level.select).mpr ⟨hpasses, hproject⟩) ?_
    rw [show (_ : Clauses Query).nested = [] from hnested]
    exact List.forall_mem_nil _

/-- Posts with their comments, and within these with their authors. -/
def Query.nestedComments : Query :=
  Query.commentedPosts.select
    (.structOf 0 [.association "comments" [.association "author" []]])

/-- The notes do not cut the rows of nested takes: whatever the fields of the posts are, those of
the authors, who are noted first, do not follow them. -/
theorem Planner.prepare_rows_nested :
    ∃ plan projection, (⟨.blog, .builtin, none, {}⟩ : Planner).prepare .nestedComments .all
        Dialect.postgres.capabilities = .ok (plan, projection) ∧
      ∀ names : List String, projection.fields ≠ names.map (.field 0) ++
        projection.associations.flatMap AssociationSelect.block := by
  generalize hp : (⟨.blog, .builtin, none, {}⟩ : Planner) = p
  generalize hctx : p.context .all Dialect.postgres.capabilities = ctx
  have hoperation : ctx.operation = .all := hctx ▸ rfl
  -- all but the projection is computed: the recursion over takes does not reduce
  have hchecks : (p.plan .nestedComments .all Dialect.postgres.capabilities).toOption.map
      (fun plan => (plan.query.clauses.passes? ctx, plan.query.clauses.nested.isEmpty,
        [0, 1, 2].map fun ix =>
          ((plan.query.clauses.projectable ctx).schemaAt ix).map (·.loadNames))) =
      some (true, true, [some ["id"], some ["id", "body", "post_id", "author_id"],
        some ["id", "name"]]) := by
    subst hctx hp
    decide +kernel
  obtain ⟨plan, hplan, hfacts⟩ := Option.map_eq_some_iff.mp hchecks
  simp only [List.map_cons, List.map_nil, Prod.mk.injEq, List.cons.injEq, and_true,
    Option.map_eq_some_iff] at hfacts
  obtain ⟨hpasses, hnested, ⟨root, hroot, -⟩, ⟨parent, hparent, hparents⟩, child, hchild,
    hchildren⟩ := hfacts
  have hok := Except.toOption_eq_some_iff.mp hplan
  have hyields : (Query.nestedComments.plan ctx).Yields [] plan.query plan.parameters :=
    hctx ▸ (plan_cases hok).1
  have hpreloads : plan.query.clauses.preloads =
      [⟨"comments", some 1, [⟨"author", some 2, []⟩]⟩] := by
    obtain ⟨b, -, hframe, -⟩ := Query.plan_cases hyields
    exact congrArg (fun f : Clauses Unit => f.preloads) hframe
  have hselected : plan.query.clauses.selected =
      .structOf 0 [.association "comments" [.association "author" []]] :=
    Query.plan_selected hoperation rfl hyields
  have haccepted : plan.query.Everywhere Clauses.Accepted ctx := by
    refine (Query.nestedComments.plan_planned _ _ _ _ hyields).everywhere_accepted
      (List.isEmpty_iff.mp hnested) hpasses ?_
    rw [Clauses.projectFor, hoperation]
    exact (Clauses.project_nested hselected hpreloads hroot hparent hchild).1
  have hdumped : ((plan.query.clauses.nestedNormal ctx).dumped ctx).selected = _ :=
    (Clauses.selected_dumped (hselected ▸ rfl)).trans hselected
  have hcolumns := (Clauses.project_nested hdumped hpreloads hroot hparent hchild).2
  refine ⟨_, _, prepare_of_accepted hok (hctx ▸ haccepted), fun names h => ?_⟩
  rw [hctx, Query.projection_eq hoperation, Clauses.projection, hcolumns] at h
  have hlast := congrArg List.getLast? h
  simp [AssociationSelect.block, hparents, hchildren] at hlast

end QueryPlanner
