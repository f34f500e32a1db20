import QueryPlanner.Proofs.Normal.Columns
import QueryPlanner.Proofs.Normal.Projection

/-!
# Expanding a selection

Where the selection of a level can be expanded, it is filled in with its columns.  Where it cannot,
it is malformed.

* `Projector.Emits` — a step that is malformed or appends what is known in advance
* `Selection.run_expand` — the expansion of an expression
* `Clauses.project_cases` — the projection of a level
-/

namespace QueryPlanner

variable {α β ι κ : Type}

/-! ### Steps that emit what is known -/

/-- A step that is malformed or yields `a` and appends what depends on the associations noted so
far only. -/
def Projector.Emits (m : Projector α) (a : α) (added : List AssociationSelect → Projected) : Prop :=
  ∀ p, (∃ site fault, m.run p = .error (.malformed site fault)) ∨
    m.run p = .ok (a, p ++ added p.associations)

namespace Projector.Emits

variable {m : Projector α} {k : α → Projector β} {a : α} {b : β}
  {f g : List AssociationSelect → Projected} {q r : Projected}

theorem pure (a : α) : Emits (Pure.pure a) a fun _ => {} :=
  fun p => .inr (congrArg (fun p => Except.ok (a, p)) (Projected.append_nil p).symm)

theorem throw (site : Site) (fault : Fault) :
    Emits (MonadExcept.throw (PlanError.malformed site fault)) a f :=
  fun _ => .inl ⟨site, fault, rfl⟩

theorem throw_bind (site : Site) (fault : Fault) :
    Emits (MonadExcept.throw (PlanError.malformed site fault) >>= k) b f :=
  fun _ => .inl ⟨site, fault, rfl⟩

theorem bind (hm : Emits m a f) (hk : Emits (k a) b g) :
    Emits (m >>= k) b fun noted => f noted ++ g (noted ++ (f noted).associations) := by
  intro p
  rw [StateT.run_bind]
  rcases hm p with ⟨site, fault, h⟩ | h
  · exact .inl ⟨site, fault, by rw [h]; rfl⟩
  · rw [h]
    refine (hk (p ++ f p.associations)).imp_right fun hb => ?_
    rw [← Projected.append_assoc]
    exact hb

/-- A step that appends the same wherever it stands, and what follows it. -/
theorem andThen (hm : Emits m a fun _ => q) (hk : Emits (k a) b fun _ => r) :
    Emits (m >>= k) b fun _ => q ++ r := hm.bind hk

theorem of_eq (h : Emits m a f) (hfg : ∀ noted, f noted = g noted) : Emits m a g :=
  (funext hfg : f = g) ▸ h

theorem addFields (ix : Nat) (names : List String) :
    Emits (Selection.addFields ix names) () fun _ => .ofBinding ix names :=
  fun p => .inr (congrArg (fun p => Except.ok ((), p))
    (Projected.ext_parts rfl (List.append_nil p.associations).symm))

theorem addExpr (e : Expr) : Emits (Selection.addExpr e) () fun _ => ⟨[e], []⟩ :=
  fun p => .inr (congrArg (fun p => Except.ok ((), p))
    (Projected.ext_parts rfl (List.append_nil p.associations).symm))

theorem addAssociation (a : AssociationSelect) :
    Emits (Selection.addAssociation a) () fun _ => ⟨[], [a]⟩ :=
  fun p => .inr (congrArg (fun p => Except.ok ((), p))
    (Projected.ext_parts (List.append_nil p.fields).symm rfl))

/-- Looking at what has been projected, for the associations noted. -/
theorem get {k : Projected → Projector β} {g : Projected → List AssociationSelect → Projected}
    (hk : ∀ p, Emits (k p) b (g p)) (hg : ∀ p, g p p.associations = f p.associations) :
    Emits (MonadState.get >>= k) b f := by
  intro p
  rw [← hg]
  exact hk p p

/-- A step for each element of a list. -/
theorem forM {h : κ → ι} {f : ι → Projector Unit} {q : κ → Projected} {xs : List κ}
    (hf : ∀ x ∈ xs, Emits (f (h x)) () fun _ => q x) :
    Emits ((xs.map h).forM f) () fun _ => .concat (xs.map q) := by
  induction xs with
  | nil => exact pure ()
  | cons x xs ih =>
    exact (hf x List.mem_cons_self).andThen (ih fun y hy => hf y (List.mem_cons_of_mem x hy))

end Projector.Emits

/-! ### The expansion -/

namespace Selection

open Projector

/-- What the columns of a selection depend on, apart from itself. -/
def projectable (s : Selection) : Projectable where
  schemaAt := s.schemaAt?
  exposed ix := (s.subqueryAt? ix).elim [] Query.exposedNames
  preloads := s.clauses.preloads

variable (s : Selection)

theorem schemaAt_projectable (ix : Nat) : s.projectable.schemaAt ix = s.schemaAt? ix := rfl

theorem emits_bindingNames (ix : Nat) :
    Emits (s.bindingNames ix) (s.projectable.names ix) fun _ => {} := by
  have hexposed : s.projectable.exposed ix = (s.subqueryAt? ix).elim [] Query.exposedNames := rfl
  unfold bindingNames Projectable.names
  rw [schemaAt_projectable, hexposed]
  cases s.schemaAt? ix with
  | some schema => exact .pure schema.loadNames
  | none =>
    cases s.subqueryAt? ix with
    | none => exact .throw _ _
    | some query => exact .pure query.exposedNames

theorem emits_takenNames (schema : Schema) : ∀ take : List Take,
    Emits (s.takenNames schema take) (take.filterMap Take.fieldName?) fun _ => {}
  | [] => .pure []
  | .association .. :: take => emits_takenNames schema take
  | .field name :: take => by
    have hrest : Emits (s.takenNames schema take >>= fun names => Pure.pure (name :: names))
        (name :: take.filterMap Take.fieldName?) fun _ => {} :=
      (emits_takenNames schema take).andThen (k := fun names => Pure.pure (name :: names)) (.pure _)
    simp only [takenNames]
    cases schema.field? name with
    | none => exact .throw_bind _ _
    | some field =>
      cases hvirtual : field.isVirtual with
      | true =>
        simp only [hvirtual, if_true]
        exact .throw_bind _ _
      | false =>
        simp only [hvirtual, Bool.false_eq_true, if_false]
        exact hrest

theorem emits_takeFields (ix : Nat) (schema : Schema) (take : List Take) :
    Emits (s.takeFields ix schema take) (schema.taken take)
      fun _ => .ofBinding ix (schema.taken take) := by
  let names (named : List String) := if named.isEmpty then schema.loadNames else named
  have hnames : Emits (addFields ix (schema.taken take) >>= fun _ => Pure.pure (schema.taken take))
      (schema.taken take) fun _ => .ofBinding ix (schema.taken take) ++ {} :=
    (Emits.addFields ix (schema.taken take)).andThen (k := fun _ => Pure.pure (schema.taken take))
      (.pure _)
  rw [Projected.append_nil] at hnames
  exact (s.emits_takenNames schema take).andThen
    (k := fun named => addFields ix (names named) >>= fun _ => Pure.pure (names named)) hnames

theorem emits_takeAssociations (preloads : List Preload) (path : List String) (take : List Take) :
    Emits (s.takeAssociations preloads path take) ()
      fun _ => s.projectable.takenAssociations preloads path take := by
  fun_induction Selection.takeAssociations s preloads path take with
  | case1 =>
    rw [Projectable.takenAssociations]
    exact .pure ()
  | case2 preloads path name take ih =>
    rw [Projectable.takenAssociations]
    exact ih
  | case3 preloads path name nested take joined rest association ix children hjoined hschema ih =>
    simp only [Projectable.takenAssociations, show preloads.find? _ = _ from hjoined,
      schemaAt_projectable, hschema]
    exact .throw_bind _ _
  | case4 preloads path name nested take joined rest association ix children hjoined schema hschema
      ih ihnested =>
    simp only [Projectable.takenAssociations, show preloads.find? _ = _ from hjoined,
      schemaAt_projectable, hschema]
    refine ((s.emits_takeFields ix schema nested).andThen (ihnested.andThen
      ((Emits.addAssociation _).andThen ih))).of_eq fun _ => ?_
    simp only [Projected.append_assoc]
  | case5 preloads path name nested take joined rest hjoined ih =>
    exact .throw_bind _ _

theorem emits_take (ix : Nat) (schema : Schema) (take : List Take) :
    Emits (s.take ix schema take) () fun _ => s.projectable.taken ix schema take :=
  (s.emits_takeFields ix schema take).andThen (s.emits_takeAssociations s.clauses.preloads [] take)

theorem emits_namesWithoutSchema (ix : Nat) : ∀ take : List Take,
    Emits (s.namesWithoutSchema ix take) (take.filterMap Take.fieldName?) fun _ => {}
  | [] => .pure []
  | .association .. :: _ => .throw _ _
  | .field name :: take =>
    have hrest : Emits (s.namesWithoutSchema ix take >>= fun names => Pure.pure (name :: names))
        (name :: take.filterMap Take.fieldName?) fun _ => {} :=
      (emits_namesWithoutSchema ix take).andThen (k := fun names => Pure.pure (name :: names))
        (.pure _)
    hrest

theorem emits_takeMap (ix : Nat) (take : List Take) :
    Emits (s.takeMap ix take) () fun _ => s.projectable.mapped ix take := by
  unfold takeMap Projectable.mapped
  rw [schemaAt_projectable]
  cases hschema : s.schemaAt? ix with
  | some schema => exact s.emits_take ix schema take
  | none =>
    cases take with
    | nil =>
      have hnames := s.emits_bindingNames ix
      rw [Projectable.names, schemaAt_projectable, hschema] at hnames
      exact hnames.andThen (.addFields _ _)
    | cons first rest => exact (s.emits_namesWithoutSchema ix _).andThen (.addFields _ _)

/-- The columns of an expression are projected. -/
theorem emits_flatten (e : Expr) :
    Emits (s.flatten e) () fun _ => s.projectable.columns e := by
  refine Expr.induction (P := fun e =>
    Emits (s.flatten e) () fun _ => s.projectable.columns e) ?_ e
  intro n ih
  unfold flatten
  rw [Expr.fold_mk, Projectable.columns_mk]
  have hnode : ∀ {γ : Type} (g : Expr → γ), (n.map fun e => (e, g e)).map (·.1) = n := fun g =>
    (Node.map_map _ _ n).trans (Node.map_id n)
  have hplain : s.flattenNode (n.map fun e => (e, s.flatten e)) = addExpr ⟨n⟩ →
      s.projectable.columnsNode (n.map fun e => (e, s.projectable.columns e)) = ⟨[⟨n⟩], []⟩ →
        Emits (s.flattenNode (n.map fun e => (e, s.flatten e))) () fun _ =>
          s.projectable.columnsNode (n.map fun e => (e, s.projectable.columns e)) := by
    intro hflatten hcolumns
    rw [hflatten, hcolumns]
    exact .addExpr _
  cases n with
  | binding ix => exact (s.emits_bindingNames ix).andThen (.addFields _ _)
  | structOf ix take =>
    simp only [Node.map, flattenNode, Projectable.columnsNode, schemaAt_projectable]
    cases s.schemaAt? ix with
    | some schema => exact s.emits_take ix schema take
    | none => exact .throw _ _
  | mapOf ix take => exact s.emits_takeMap ix take
  | tuple items | list items =>
    simp only [Node.map, flattenNode, Projectable.columnsNode, List.map_map]
    exact .forM ih
  | mapping entries =>
    simp only [Node.map, flattenNode, Projectable.columnsNode, List.map_map]
    exact .forM fun entry hentry => ih entry.2 (List.mem_map_of_mem hentry)
  | _ =>
    exact hplain (congrArg (fun n => addExpr ⟨n⟩) (hnode _))
      (congrArg (fun n => (⟨[⟨n⟩], []⟩ : Projected)) (hnode _))

mutual

theorem emits_joinedPreload (path : List String) : ∀ p : Preload,
    Emits (s.joinedPreload path p) () fun noted => s.projectable.joinedPreload noted path p
  | ⟨association, none, children⟩ => by
    simp only [joinedPreload, Projectable.joinedPreload, Projectable.joinedBinding]
    refine (emits_joinedPreloads _ children).of_eq fun noted => ?_
    simp
  | ⟨association, some ix, children⟩ => by
    have hchildren := emits_joinedPreloads (path ++ [association]) children
    simp only [joinedPreload, Projectable.joinedPreload]
    refine Emits.get (g := fun p noted =>
      let own := s.projectable.joinedBinding p.associations (path ++ [association]) (some ix)
      own ++ s.projectable.joinedPreloads (noted ++ own.associations) (path ++ [association])
        children) (fun p => ?_) fun p => rfl
    simp only [Projectable.joinedBinding, schemaAt_projectable]
    cases hnoted : p.associations.any (·.binding == ix) with
    | true =>
      simp only [Bool.not_true, Bool.false_eq_true, if_false, if_true]
      exact hchildren.of_eq fun noted => by simp
    | false =>
      simp only [Bool.not_false, Bool.false_eq_true, if_false, if_true]
      cases s.schemaAt? ix with
      | none => exact .throw_bind _ _
      | some schema =>
        refine ((Emits.addFields _ _).bind ((Emits.addAssociation _).bind hchildren)).of_eq
          fun noted => ?_
        simp [Projected.append_assoc, Projected.ofBinding]

theorem emits_joinedPreloads (path : List String) : ∀ ps : List Preload,
    Emits (s.joinedPreloads path ps) () fun noted => s.projectable.joinedPreloads noted path ps
  | [] => by
    simp only [joinedPreloads, Projectable.joinedPreloads]
    exact .pure ()
  | p :: ps => by
    simp only [joinedPreloads, Projectable.joinedPreloads]
    exact (emits_joinedPreload path p).bind (k := fun _ => s.joinedPreloads path ps)
      (emits_joinedPreloads path ps)

end

/-- **An expression is expanded** to its columns, or it is malformed. -/
theorem run_expand (e : Expr) :
    (∃ site fault, (s.expand e).run {} = .error (.malformed site fault)) ∨
      (s.expand e).run {} = .ok ((), s.projectable.expansion e) := by
  have hexpand : Emits (s.expand e) () fun noted => if e.selectsRoot then
      s.projectable.columns e ++ s.projectable.joinedPreloads
        (noted ++ (s.projectable.columns e).associations) [] s.clauses.preloads
      else s.projectable.columns e := by
    unfold expand
    cases e.selectsRoot with
    | true =>
      exact (s.emits_flatten e).bind (k := fun _ => s.joinedPreloads [] s.clauses.preloads)
        (s.emits_joinedPreloads [] s.clauses.preloads)
    | false =>
      exact ((s.emits_flatten e).andThen (k := fun _ => Pure.pure ()) (.pure ())).of_eq
        fun _ => Projected.append_nil _
  exact hexpand {}

end Selection

namespace Clauses

variable (ctx : Context) (c : Clauses Query)

/-- What the columns of a level depend on, apart from its selection. -/
def projectable : Projectable := Selection.projectable ⟨ctx, c, ""⟩

/-- The columns of a level. -/
def columns : Projected := (c.projectable ctx).expansion c.selected

/-- What a level projects. -/
def projection : Projection where
  fields := (c.columns ctx).fields
  shape := Selection.shape ⟨ctx, c, c.selected.render⟩ c.selected
  associations := (c.columns ctx).associations
  preloads := preloadPaths [] c.preloads

/-- A level with its selection filled in; a bulk write selects nothing. -/
def filled : Clauses Query :=
  match ctx.operation with
  | .all => { c with select := some ⟨c.selected, (c.columns ctx).fields⟩ }
  | .updateAll | .deleteAll => c

/-- What an operation projects of a level. -/
def projectionFor : Projection :=
  match ctx.operation with
  | .all => c.projection ctx
  | .updateAll | .deleteAll => {}

theorem checkSelectable_cases :
    (∃ site fault, c.checkSelectable ctx = .error (.malformed site fault)) ∨
      c.checkSelectable ctx = .ok () := by
  unfold checkSelectable
  simp only
  split
  · exact .inl ⟨_, _, rfl⟩
  · exact .inr rfl

theorem project_cases : (∃ site fault, c.project ctx = .error (.malformed site fault)) ∨
    c.project ctx = .ok ({ c with select := some ⟨c.selected, (c.columns ctx).fields⟩ },
      c.projection ctx) := by
  have hproject : c.project ctx = (do
      c.checkSelectable ctx
      let expanded ← (Selection.expand ⟨ctx, c, c.selected.render⟩ c.selected).run {}
      .ok ({ c with select := some { expr := c.selected, fields := expanded.2.fields } },
        { fields := expanded.2.fields
          shape := Selection.shape ⟨ctx, c, c.selected.render⟩ c.selected
          associations := expanded.2.associations
          preloads := preloadPaths [] c.preloads })) := rfl
  rw [hproject]
  rcases c.checkSelectable_cases ctx with ⟨site, fault, hselectable⟩ | hselectable
  · exact .inl ⟨site, fault, by rw [hselectable]; rfl⟩
  rw [hselectable]
  rcases Selection.run_expand ⟨ctx, c, c.selected.render⟩ c.selected with
    ⟨site, fault, hexpand⟩ | hexpand
  · exact .inl ⟨site, fault, by rw [hexpand]; rfl⟩
  · exact .inr (by rw [hexpand]; rfl)

/-- **The projection of a level** is that of its columns, or the selection is malformed. -/
theorem projectFor_cases :
    (∃ site fault, c.projectFor ctx = .error (.malformed site fault)) ∨
      c.projectFor ctx = .ok (c.filled ctx, c.projectionFor ctx) := by
  unfold projectFor filled projectionFor
  cases ctx.operation with
  | all => exact c.project_cases ctx
  | updateAll | deleteAll => exact .inr rfl

end Clauses

end QueryPlanner
