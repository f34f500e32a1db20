import QueryPlanner.Proofs.Expr.Inert
import QueryPlanner.Proofs.Normal.Outline

/-!
# The columns of a selection

What a selection projects can be told from the expression, the schemas and subqueries at the
bindings, and the preloads.  Bindings are projected by their fields, containers by what they hold,
and any other expression as it is: so the columns carry what the selection carries, in order.

* `Projectable` — what the columns of a level depend on, apart from its selection
* `Projectable.expansion` — the columns of an expression, with the associations noted on the way
* `Projectable.takenAssociations_induction`, `Projectable.joinedPreloads_induction` — what holds of
  the columns of associations
* `Projectable.details_expansion` — the columns carry the details of the expression
* `Projectable.expansion_without_annotations` — they commute with forgetting annotations
-/

namespace QueryPlanner

variable {α β δ : Type}

/-! ### Projections in a row -/

namespace Projected

/-- One projection after the other. -/
instance : Append Projected :=
  ⟨fun p q => ⟨p.fields ++ q.fields, p.associations ++ q.associations⟩⟩

variable (p q r : Projected)

@[simp]
theorem fields_append : (p ++ q).fields = p.fields ++ q.fields := rfl

@[simp]
theorem associations_append : (p ++ q).associations = p.associations ++ q.associations := rfl

theorem ext_parts {p q : Projected} (hfields : p.fields = q.fields)
    (hassociations : p.associations = q.associations) : p = q := by
  cases p
  cases q
  exact (Projected.mk.injEq ..).mpr ⟨hfields, hassociations⟩

@[simp]
theorem nil_append : ({} : Projected) ++ p = p := rfl

@[simp]
theorem append_nil : p ++ {} = p := ext_parts (List.append_nil _) (List.append_nil _)

theorem append_assoc : p ++ q ++ r = p ++ (q ++ r) :=
  ext_parts (List.append_assoc ..) (List.append_assoc ..)

/-- All of a list of projections. -/
def concat (ps : List Projected) : Projected := ps.foldr (· ++ ·) {}

@[simp]
theorem fields_concat (ps : List Projected) : (concat ps).fields = ps.flatMap (·.fields) := by
  induction ps with
  | nil => rfl
  | cons p ps ih => exact congrArg (p.fields ++ ·) ih

@[simp]
theorem associations_concat (ps : List Projected) :
    (concat ps).associations = ps.flatMap (·.associations) := by
  induction ps with
  | nil => rfl
  | cons p ps ih => exact congrArg (p.associations ++ ·) ih

/-- Fields of a binding. -/
def ofBinding (ix : Nat) (names : List String) : Projected := ⟨names.map (Expr.field ix), []⟩

end Projected

/-! ### What is projected -/

/-- The field that an entry of a take names. -/
def Take.fieldName? : Take → Option String
  | .field name => some name
  | .association .. => none

/-- The fields that a take leaves of a schema: those that it names, or all that are loaded. -/
def Schema.taken (schema : Schema) (take : List Take) : List String :=
  let named := take.filterMap Take.fieldName?
  if named.isEmpty then schema.loadNames else named

/-- What the columns of a level depend on, apart from its selection. -/
structure Projectable where
  /-- The schema of a binding, if it has one. -/
  schemaAt : Nat → Option Schema
  /-- The names that the subquery at a binding exposes. -/
  exposed : Nat → List String
  preloads : List Preload

namespace Projectable

variable (v : Projectable)

/-- The fields of a binding as a whole. -/
def names (ix : Nat) : List String :=
  match v.schemaAt ix with
  | some schema => schema.loadNames
  | none => v.exposed ix

/-- The columns of the associations that a take names, each followed by those nested in it; an
association is noted after those nested in it. -/
def takenAssociations (v : Projectable) (preloads : List Preload) (path : List String) :
    List Take → Projected
  | [] => {}
  | .field _ :: take => v.takenAssociations preloads path take
  | .association name nested :: take =>
    let joined := preloads.find? fun p => p.association == name && p.binding.isSome
    let own : Projected := match joined with
      | some ⟨_, some ix, children⟩ =>
        match v.schemaAt ix with
        | none => {}
        | some schema =>
          .ofBinding ix (schema.taken nested) ++
            v.takenAssociations children (path ++ [name]) nested
            ++ ⟨[], [⟨path ++ [name], ix, schema.name, schema.taken nested⟩]⟩
      | _ => {}
    own ++ v.takenAssociations preloads path take

/-- The columns of a binding with a schema, narrowed by a take. -/
def taken (ix : Nat) (schema : Schema) (take : List Take) : Projected :=
  .ofBinding ix (schema.taken take) ++ v.takenAssociations v.preloads [] take

/-- The columns of a binding as a map. -/
def mapped (ix : Nat) (take : List Take) : Projected :=
  match v.schemaAt ix with
  | some schema => v.taken ix schema take
  | none => .ofBinding ix (if take.isEmpty then v.exposed ix else take.filterMap Take.fieldName?)

/-- The columns of a node, given those of its children. -/
def columnsNode : Node (Expr × Projected) → Projected
  | .binding ix => .ofBinding ix (v.names ix)
  | .structOf ix take =>
    match v.schemaAt ix with
    | some schema => v.taken ix schema take
    | none => {}
  | .mapOf ix take => v.mapped ix take
  | .mapping entries => .concat (entries.map (·.2.2))
  | .tuple items => .concat (items.map (·.2))
  | .list items => .concat (items.map (·.2))
  | n => ⟨[⟨n.map (·.1)⟩], []⟩

/-- The columns of an expression. -/
def columns : Expr → Projected := Expr.fold v.columnsNode

/-- The columns of a binding that a preload is read from, unless it has been noted. -/
def joinedBinding (noted : List AssociationSelect) (path : List String) : Option Nat → Projected
  | none => {}
  | some ix =>
    if noted.any (·.binding == ix) then {}
    else
      match v.schemaAt ix with
      | none => {}
      | some schema =>
        .ofBinding ix schema.loadNames ++ ⟨[], [⟨path, ix, schema.name, schema.loadNames⟩]⟩

mutual

/-- The columns of a preload from a join, then those of its children. -/
def joinedPreload (v : Projectable) (noted : List AssociationSelect) (path : List String) :
    Preload → Projected
  | ⟨association, binding, children⟩ =>
    let path := path ++ [association]
    let own := v.joinedBinding noted path binding
    own ++ v.joinedPreloads (noted ++ own.associations) path children

/-- The columns of the preloads from joins whose bindings have not been noted. -/
def joinedPreloads (v : Projectable) (noted : List AssociationSelect) (path : List String) :
    List Preload → Projected
  | [] => {}
  | p :: ps =>
    let first := v.joinedPreload noted path p
    first ++ v.joinedPreloads (noted ++ first.associations) path ps

end

/-- The columns of an expression and, if it includes the root, of the preloads from joins. -/
def expansion (e : Expr) : Projected :=
  if e.selectsRoot then
    v.columns e ++ v.joinedPreloads (v.columns e).associations [] v.preloads
  else v.columns e

theorem columns_mk (n : Node Expr) :
    v.columns ⟨n⟩ = v.columnsNode (n.map fun e => (e, v.columns e)) := Expr.fold_mk _ n

end Projectable

/-! ### What the columns hold -/

/-- Every column is a field of a binding. -/
def Projected.Named (p : Projected) : Prop := ∀ e ∈ p.fields, ∃ ix name, e = .field ix name

namespace Projected.Named

variable {p q : Projected}

theorem nil : Named {} := fun _ h => nomatch h

theorem append (hp : p.Named) (hq : q.Named) : (p ++ q).Named := List.forall_mem_append.mpr ⟨hp, hq⟩

theorem ofBinding (ix : Nat) (names : List String) : (Projected.ofBinding ix names).Named :=
  List.forall_mem_map.mpr fun name _ => ⟨ix, name, rfl⟩

theorem noted (as : List AssociationSelect) : Named ⟨[], as⟩ := fun _ h => nomatch h

/-- Fields of bindings carry no detail of what is not inert. -/
theorem details {d : Detail δ} (hd : d.SparesInert) (hp : p.Named) :
    p.fields.flatMap (Expr.details d) = [] := by
  refine List.flatMap_eq_nil_iff.mpr fun e he => ?_
  obtain ⟨ix, name, rfl⟩ := hp e he
  exact Expr.details_of_inert hd _ (Expr.inert_field ix name)

end Projected.Named

namespace Projected

/-- A projection with every column replaced. -/
def map (f : Expr → Expr) (p : Projected) : Projected := ⟨p.fields.map f, p.associations⟩

theorem map_append (f : Expr → Expr) (p q : Projected) : (p ++ q).map f = p.map f ++ q.map f :=
  ext_parts List.map_append rfl

theorem map_concat (f : Expr → Expr) (ps : List Projected) :
    (concat ps).map f = concat (ps.map (map f)) := by
  induction ps with
  | nil => rfl
  | cons p ps ih => exact (map_append f p (concat ps)).trans (congrArg (p.map f ++ ·) ih)

/-- Fields of bindings stay as they are where the replacement keeps fields. -/
theorem Named.map_eq {f : Expr → Expr} (hf : ∀ ix name, f (.field ix name) = .field ix name)
    {p : Projected} (hp : p.Named) : p.map f = p := by
  refine ext_parts ((List.map_congr_left fun e he => ?_).trans (List.map_id p.fields)) rfl
  obtain ⟨ix, name, rfl⟩ := hp e he
  exact hf ix name

end Projected

/-- A binding as a whole. -/
def Node.isWhole : Node α → Bool
  | .binding _ | .structOf .. | .mapOf .. => true
  | _ => false

/-- A node whose children are projected in its place. -/
def Node.isContainer : Node α → Bool
  | .mapping _ | .tuple _ | .list _ => true
  | _ => false

theorem Node.inert_of_isWhole {n : Node α} (h : n.isWhole = true) :
    n.isInert = true ∧ n.children = [] := by
  cases n <;> first | exact ⟨rfl, rfl⟩ | cases h

theorem Node.inert_of_isContainer {n : Node α} (h : n.isContainer = true) : n.isInert = true := by
  cases n <;> first | rfl | cases h

namespace Projectable

open Projected

variable (v : Projectable)

/-- What a take names holds a property if nothing does, if projections in a row do, and if the
columns of an association do with those that are taken within it and with its note. -/
theorem takenAssociations_induction {P : List String → Projected → Prop} (nil : ∀ path, P path {})
    (append : ∀ path p q, P path p → P path q → P path (p ++ q))
    (note : ∀ path name ix schema names p, P (path ++ [name]) p →
      P path (.ofBinding ix names ++ p ++ ⟨[], [⟨path ++ [name], ix, schema, names⟩]⟩))
    (preloads : List Preload) (path : List String) (take : List Take) :
    P path (v.takenAssociations preloads path take) := by
  fun_induction Projectable.takenAssociations v preloads path take with
  | case1 => exact nil _
  | case2 preloads path name take ih => exact ih
  | case3 preloads path name nested take joined own ihnested ih =>
    refine append _ _ _ ?_ ih
    simp only [own]
    generalize joined = found
    match found with
    | none | some ⟨_, none, _⟩ => exact nil _
    | some ⟨_, some ix, children⟩ =>
      cases hschema : v.schemaAt ix with
      | none => simpa only [hschema] using nil _
      | some schema =>
        simp only [hschema]
        exact note _ _ _ _ _ _ (ihnested children)

theorem named_takenAssociations (preloads : List Preload) (path : List String)
    (take : List Take) : (v.takenAssociations preloads path take).Named :=
  v.takenAssociations_induction (P := fun _ p => p.Named) (fun _ => .nil) (fun _ _ _ => .append)
    (fun _ _ _ _ _ _ h => .append (.append (.ofBinding _ _) h) (.noted _)) preloads path take

theorem named_taken (ix : Nat) (schema : Schema) (take : List Take) :
    (v.taken ix schema take).Named :=
  .append (.ofBinding _ _) (v.named_takenAssociations _ _ _)

theorem named_mapped (ix : Nat) (take : List Take) : (v.mapped ix take).Named := by
  unfold mapped
  cases v.schemaAt ix with
  | none => exact .ofBinding _ _
  | some schema => exact v.named_taken ix schema take

mutual

/-- What the preloads that are left over are projected to holds a property if nothing does, if
projections in a row do, and if the columns of an association do with its note. -/
theorem joinedPreloads_induction {P : Projected → Prop} (nil : P {})
    (append : ∀ p q, P p → P q → P (p ++ q))
    (note : ∀ path ix schema names, P (.ofBinding ix names ++ ⟨[], [⟨path, ix, schema, names⟩]⟩))
    (noted : List AssociationSelect) (path : List String) :
    ∀ ps : List Preload, P (v.joinedPreloads noted path ps)
  | [] => by
    rw [joinedPreloads]
    exact nil
  | p :: ps => by
    rw [joinedPreloads]
    exact append _ _ (joinedPreload_induction nil append note noted path p)
      (joinedPreloads_induction nil append note _ path ps)

theorem joinedPreload_induction {P : Projected → Prop} (nil : P {})
    (append : ∀ p q, P p → P q → P (p ++ q))
    (note : ∀ path ix schema names, P (.ofBinding ix names ++ ⟨[], [⟨path, ix, schema, names⟩]⟩))
    (noted : List AssociationSelect) (path : List String) :
    ∀ p : Preload, P (v.joinedPreload noted path p)
  | ⟨association, binding, children⟩ => by
    rw [joinedPreload]
    refine append _ _ ?_ (joinedPreloads_induction nil append note _ _ children)
    cases binding with
    | none => exact nil
    | some ix =>
      rw [joinedBinding]
      cases noted.any (·.binding == ix) with
      | true => exact nil
      | false =>
        cases v.schemaAt ix with
        | none => exact nil
        | some schema => exact note _ _ _ _

end

theorem named_joinedPreloads (noted : List AssociationSelect) (path : List String)
    (ps : List Preload) : (v.joinedPreloads noted path ps).Named :=
  v.joinedPreloads_induction .nil (fun _ _ => .append)
    (fun _ _ _ _ => .append (.ofBinding _ _) (.noted _)) noted path ps

theorem named_columns {n : Node Expr} (hn : n.isWhole = true) : (v.columns ⟨n⟩).Named := by
  rw [columns_mk]
  cases n with
  | binding ix => exact .ofBinding ix (v.names ix)
  | structOf ix take =>
    simp only [Node.map, columnsNode]
    cases v.schemaAt ix with
    | none => exact .nil
    | some schema => exact v.named_taken ix schema take
  | mapOf ix take => exact v.named_mapped ix take
  | _ => cases hn

theorem columns_container {n : Node Expr} (hn : n.isContainer = true) :
    v.columns ⟨n⟩ = concat (n.children.map v.columns) := by
  rw [columns_mk]
  cases n with
  | mapping entries | tuple items | list items =>
    simp only [Node.map, columnsNode, Node.children, List.map_map]
    rfl
  | _ => cases hn

theorem columns_other {n : Node Expr} (hwhole : n.isWhole = false)
    (hcontainer : n.isContainer = false) : v.columns ⟨n⟩ = ⟨[⟨n⟩], []⟩ := by
  have hnode : (n.map fun e => (e, v.columns e)).map (·.1) = n :=
    (Node.map_map _ _ n).trans (Node.map_id n)
  have hother : v.columnsNode (n.map fun e => (e, v.columns e)) =
      ⟨[⟨(n.map fun e => (e, v.columns e)).map (·.1)⟩], []⟩ := by
    cases n with
    | binding | structOf | mapOf => cases hwhole
    | mapping | tuple | list => cases hcontainer
    | _ => rfl
  rw [columns_mk, hother, hnode]

/-- The columns of an expression carry what the expression carries, in order. -/
theorem details_columns {d : Detail δ} (hd : d.SparesInert) (e : Expr) :
    (v.columns e).fields.flatMap (Expr.details d) = e.details d := by
  refine Expr.induction (P := fun e =>
    (v.columns e).fields.flatMap (Expr.details d) = e.details d) ?_ e
  intro n ih
  cases hwhole : n.isWhole with
  | true =>
    obtain ⟨hinert, hchildren⟩ := Node.inert_of_isWhole hwhole
    rw [(v.named_columns hwhole).details hd, Expr.details_mk, hd n hinert, hchildren]
    rfl
  | false =>
    cases hcontainer : n.isContainer with
    | true =>
      rw [v.columns_container hcontainer, fields_concat, List.flatMap_map, List.flatMap_assoc,
        Expr.details_mk, hd n (Node.inert_of_isContainer hcontainer)]
      exact List.flatMap_congr ih
    | false =>
      rw [v.columns_other hwhole hcontainer]
      exact List.flatMap_singleton ..

theorem details_expansion {d : Detail δ} (hd : d.SparesInert) (e : Expr) :
    (v.expansion e).fields.flatMap (Expr.details d) = e.details d := by
  have hjoined : (v.joinedPreloads (v.columns e).associations [] v.preloads).fields.flatMap
      (Expr.details d) = [] :=
    (v.named_joinedPreloads _ [] v.preloads).details hd
  unfold expansion
  split
  · rw [fields_append, List.flatMap_append, v.details_columns hd, hjoined, List.append_nil]
  · exact v.details_columns hd e

/-- Forgetting annotations in an expression is forgetting them in its columns. -/
theorem columns_without_annotations (e : Expr) :
    v.columns (e.without .annotations) = (v.columns e).map (Expr.without .annotations) := by
  refine Expr.induction (P := fun e =>
    v.columns (e.without .annotations) = (v.columns e).map (Expr.without .annotations)) ?_ e
  intro n ih
  have hwholes : (Detail.annotations.forget (n.map (Expr.without .annotations))).isWhole =
      n.isWhole := by
    cases n <;> rfl
  have hcontainers : (Detail.annotations.forget (n.map (Expr.without .annotations))).isContainer =
      n.isContainer := by
    cases n <;> rfl
  cases hwhole : n.isWhole with
  | true =>
    have hsame : Expr.without .annotations ⟨n⟩ = ⟨n⟩ := by
      rw [Expr.without_mk]
      cases n <;> first | rfl | cases hwhole
    rw [hsame, (v.named_columns hwhole).map_eq fun ix name => Expr.without_mk _ (.field ix name)]
  | false =>
    rw [Expr.without_mk]
    cases hcontainer : n.isContainer with
    | true =>
      rw [v.columns_container hcontainer, v.columns_container (hcontainers.trans hcontainer),
        map_concat, Detail.children_forget, Node.children_map, List.map_map, List.map_map]
      exact congrArg concat (List.map_congr_left ih)
    | false =>
      rw [v.columns_other hwhole hcontainer, v.columns_other (hwholes.trans hwhole)
        (hcontainers.trans hcontainer), ← Expr.without_mk]
      rfl

theorem expansion_without_annotations (e : Expr) :
    v.expansion (e.without .annotations) = (v.expansion e).map (Expr.without .annotations) := by
  have hroot : (e.without .annotations).selectsRoot = e.selectsRoot := by
    have hblank : (e.without .annotations).blank = e.blank :=
      Expr.blank_without (fun n => by cases n <;> rfl) e
    rw [← Expr.selectsRoot_blank, hblank, Expr.selectsRoot_blank]
  have hjoined : ∀ noted, (v.joinedPreloads noted [] v.preloads).map (Expr.without .annotations) =
      v.joinedPreloads noted [] v.preloads := fun noted =>
    (v.named_joinedPreloads noted [] v.preloads).map_eq fun ix name =>
      Expr.without_mk _ (.field ix name)
  unfold expansion
  rw [hroot, v.columns_without_annotations]
  split
  · rw [map_append, hjoined]
    rfl
  · rfl

end Projectable

end QueryPlanner
