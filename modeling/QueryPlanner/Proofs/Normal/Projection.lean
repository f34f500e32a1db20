import QueryPlanner.Normal.Level
import QueryPlanner.Proofs.Normal.Outline

/-!
# What a projection depends on

Two levels that see the same schemas, preload the same associations and read the same bindings from
subqueries are projected alike: both or neither, with the same associations.  What fields a subquery
exposes, and what the expressions are that are projected as they are, is of no account.

* `Projector.Agrees` — steps that fail together, or go on with the same associations noted
* `Selection.Alike` — levels whose selections are projected alike
* `Clauses.project_outline` — whether a level can be projected is decided by its outline
-/

namespace QueryPlanner

open HasExprs

variable {α α' β β' : Type}

/-! ### Steps that agree -/

/-- Outcomes that are both faults, or both successes with related results and the same associations
noted. -/
inductive Projector.Outcomes (R : α → β → Prop) :
    Except PlanError (α × Projected) → Except PlanError (β × Projected) → Prop
  | faults (e e' : PlanError) : Outcomes R (.error e) (.error e')
  | results {a : α} {b : β} {p p' : Projected} (result : R a b)
    (associations : p.associations = p'.associations) : Outcomes R (.ok (a, p)) (.ok (b, p'))

/-- Steps with such outcomes wherever the same associations have been noted. -/
def Projector.Agrees (R : α → β → Prop) (m : Projector α) (m' : Projector β) : Prop :=
  ∀ p p' : Projected, p.associations = p'.associations → Outcomes R (m.run p) (m'.run p')

/-- Such steps whose results are of no account. -/
abbrev Projector.Concur (m : Projector α) (m' : Projector β) : Prop := Agrees (fun _ _ => True) m m'

namespace Projector

variable {R : α → β → Prop} {S : α' → β' → Prop}

theorem Outcomes.exists_ok {x : Except PlanError (α × Projected)}
    {y : Except PlanError (β × Projected)} (h : Outcomes R x y) :
    (∃ a, x = .ok a) ↔ ∃ b, y = .ok b := by
  cases h <;> simp

namespace Agrees

theorem pure {a : α} {b : β} (h : R a b) : Agrees R (Pure.pure a) (Pure.pure b) :=
  fun _ _ hp => .results h hp

theorem throw (e e' : PlanError) : Agrees R (MonadExcept.throw e) (MonadExcept.throw e') :=
  fun _ _ _ => .faults e e'

theorem bind {m : Projector α} {m' : Projector β} {f : α → Projector α'} {f' : β → Projector β'}
    (h : Agrees R m m') (hf : ∀ a b, R a b → Agrees S (f a) (f' b)) :
    Agrees S (m >>= f) (m' >>= f') := by
  intro p p' hp
  have hm := h p p' hp
  rw [StateT.run_bind, StateT.run_bind]
  generalize m.run p = x at hm
  generalize m'.run p' = y at hm
  cases hm with
  | faults e e' => exact .faults e e'
  | results hresult hassociations => exact hf _ _ hresult _ _ hassociations

/-- Steps whose results are of no account, and what follows them. -/
theorem andThen {m : Projector α} {m' : Projector β} {f : α → Projector α'} {f' : β → Projector β'}
    (h : Concur m m') (hf : ∀ a b, Agrees S (f a) (f' b)) :
    Agrees S (m >>= f) (m' >>= f') :=
  h.bind fun a b _ => hf a b

/-- Looking at what has been projected. -/
theorem get : Agrees (fun p p' => p.associations = p'.associations) (MonadState.get : Projector _)
    (MonadState.get : Projector _) := fun _ _ hp => .results hp hp

/-- A step that projects expressions, whichever they are. -/
theorem addFields (ix ix' : Nat) (names names' : List String) :
    Concur (Selection.addFields ix names) (Selection.addFields ix' names') :=
  fun _ _ hp => .results trivial hp

theorem addExpr (e e' : Expr) :
    Concur (Selection.addExpr e) (Selection.addExpr e') :=
  fun _ _ hp => .results trivial hp

theorem addAssociation (a : AssociationSelect) :
    Concur (Selection.addAssociation a) (Selection.addAssociation a) :=
  fun _ _ hp => .results trivial (congrArg (· ++ [a]) hp)

/-- A step for each element of a list. -/
theorem forM {ι ι' κ : Type} {g : κ → ι} {g' : κ → ι'} {f : ι → Projector Unit}
    {f' : ι' → Projector Unit} :
    ∀ {xs : List κ}, (∀ x ∈ xs, Concur (f (g x)) (f' (g' x))) →
      Concur ((xs.map g).forM f) ((xs.map g').forM f')
  | [], _ => pure trivial
  | x :: xs, h =>
    have hrest : Concur ((xs.map g).forM f) ((xs.map g').forM f') :=
      forM fun y hy => h y (List.mem_cons_of_mem x hy)
    (h x List.mem_cons_self).andThen fun _ _ => hrest

end Agrees

end Projector

/-! ### Selections that are alike -/

/-- Levels that see the same schemas, preload the same associations and read the same bindings from
subqueries. -/
structure Selection.Alike (s s' : Selection) : Prop where
  schemaAt : ∀ ix, s.schemaAt? ix = s'.schemaAt? ix
  subqueryAt : ∀ ix, (s.subqueryAt? ix).isSome = (s'.subqueryAt? ix).isSome
  preloads : s.clauses.preloads = s'.clauses.preloads

namespace Selection.Alike

open Projector

variable {s s' : Selection} (h : s.Alike s')
include h

theorem bindingNames (ix : Nat) :
    Concur (s.bindingNames ix) (s'.bindingNames ix) := by
  have hsubquery := h.subqueryAt ix
  unfold Selection.bindingNames
  rw [← h.schemaAt ix]
  cases s.schemaAt? ix with
  | some schema => exact .pure trivial
  | none =>
    cases hq : s.subqueryAt? ix with
    | none =>
      cases hq' : s'.subqueryAt? ix with
      | none => exact .throw _ _
      | some q' => simp [hq, hq'] at hsubquery
    | some q =>
      cases hq' : s'.subqueryAt? ix with
      | none => simp [hq, hq'] at hsubquery
      | some q' => exact .pure trivial

omit h in
theorem takenNames (s s' : Selection) (schema : Schema) :
    ∀ take, Agrees Eq (s.takenNames schema take) (s'.takenNames schema take)
  | [] => .pure rfl
  | .association .. :: take => takenNames s s' schema take
  | .field name :: take => by
    have hnames : Agrees Eq
        (s.takenNames schema take >>= fun names => Pure.pure (name :: names))
        (s'.takenNames schema take >>= fun names => Pure.pure (name :: names)) :=
      (takenNames s s' schema take).bind fun _ _ h => .pure (congrArg (name :: ·) h)
    simp only [Selection.takenNames]
    cases schema.field? name with
    | none => exact (Agrees.throw _ _).andThen fun _ _ => hnames
    | some field =>
      cases hvirtual : field.isVirtual with
      | true =>
        simp only [hvirtual, if_true]
        exact (Agrees.throw _ _).andThen fun _ _ => hnames
      | false =>
        simp only [hvirtual, Bool.false_eq_true, if_false]
        exact hnames

omit h in
theorem takeFields (s s' : Selection) (ix : Nat) (schema : Schema) (take : List Take) :
    Agrees Eq (s.takeFields ix schema take) (s'.takeFields ix schema take) :=
  (takenNames s s' schema take).bind fun named _ hnamed => by
    obtain rfl := hnamed
    exact (Agrees.addFields _ _ _ _).andThen fun _ _ => .pure rfl

theorem takeAssociations (preloads : List Preload) (path : List String) (take : List Take) :
    Concur (s.takeAssociations preloads path take)
      (s'.takeAssociations preloads path take) := by
  fun_induction Selection.takeAssociations s preloads path take with
  | case1 =>
    rw [Selection.takeAssociations]
    exact .pure trivial
  | case2 preloads path name take ih =>
    rw [Selection.takeAssociations]
    exact ih
  | case3 preloads path name nested take joined rest association ix children hjoined hschema ih =>
    simp only [Selection.takeAssociations, show preloads.find? _ = _ from hjoined,
      ← h.schemaAt, hschema]
    exact (Agrees.throw _ _).andThen fun _ _ => ih
  | case4 preloads path name nested take joined rest association ix children hjoined schema hschema
      ih ihnested =>
    simp only [Selection.takeAssociations, show preloads.find? _ = _ from hjoined,
      ← h.schemaAt, hschema]
    refine (takeFields s s' ix schema nested).bind fun fields _ hfields => ?_
    obtain rfl := hfields
    exact ihnested.andThen fun _ _ => (Agrees.addAssociation _).andThen fun _ _ => ih
  | case5 preloads path name nested take joined rest hjoined ih =>
    simp only [Selection.takeAssociations]
    split
    · exact (hjoined _ _ _ ‹_›).elim
    · exact (Agrees.throw _ _).andThen fun _ _ => ih

theorem take (ix : Nat) (schema : Schema) (take : List Take) :
    Concur (s.take ix schema take) (s'.take ix schema take) := by
  unfold Selection.take
  rw [← h.preloads]
  refine (takeFields s s' ix schema take).bind fun _ _ _ => ?_
  exact h.takeAssociations s.clauses.preloads [] take

omit h in
theorem namesWithoutSchema (s s' : Selection) (ix : Nat) : ∀ take,
    Concur (s.namesWithoutSchema ix take) (s'.namesWithoutSchema ix take)
  | [] => .pure trivial
  | .association .. :: _ => .throw _ _
  | .field _ :: take => (namesWithoutSchema s s' ix take).andThen fun _ _ => .pure trivial

theorem takeMap (ix : Nat) (take : List Take) :
    Concur (s.takeMap ix take) (s'.takeMap ix take) := by
  unfold Selection.takeMap
  rw [← h.schemaAt ix]
  cases s.schemaAt? ix with
  | some schema => exact h.take ix schema take
  | none =>
    cases take with
    | nil => exact (h.bindingNames ix).andThen fun _ _ => .addFields _ _ _ _
    | cons first rest =>
      exact (namesWithoutSchema s s' ix (first :: rest)).andThen fun _ _ => .addFields _ _ _ _

/-- An expression and its outline are projected alike. -/
theorem flatten (e : Expr) : Concur (s.flatten e) (s'.flatten e.blank) := by
  refine Expr.induction (P := fun e =>
    Concur (s.flatten e) (s'.flatten e.blank)) ?_ e
  intro n ih
  rw [Expr.blank_mk]
  unfold Selection.flatten
  rw [Expr.fold_mk, Expr.fold_mk]
  cases n with
  | binding ix => exact (h.bindingNames ix).andThen fun _ _ => .addFields _ _ _ _
  | structOf ix take =>
    simp only [Node.map, Node.blank, flattenNode]
    rw [← h.schemaAt ix]
    cases s.schemaAt? ix with
    | some schema => exact h.take ix schema take
    | none => exact .throw _ _
  | mapOf ix take => exact h.takeMap ix take
  | tuple items | list items =>
    simp only [Node.map, Node.blank, flattenNode, List.map_map]
    exact .forM ih
  | mapping entries =>
    simp only [Node.map, Node.blank, flattenNode, List.map_map]
    exact .forM fun entry hentry => ih entry.2 (List.mem_map_of_mem hentry)
  | windowed inner w => exact .addExpr _ _
  | _ => exact .addExpr _ _

omit h

mutual

theorem joinedPreload (h : s.Alike s') (path : List String) : ∀ p : Preload,
    Concur (s.joinedPreload path p) (s'.joinedPreload path p)
  | ⟨association, none, children⟩ => by
    simp only [Selection.joinedPreload]
    exact joinedPreloads h _ children
  | ⟨association, some ix, children⟩ => by
    have hchildren := joinedPreloads h (path ++ [association]) children
    simp only [Selection.joinedPreload, ← h.schemaAt ix]
    refine Agrees.get.bind fun p p' hp => ?_
    rw [hp]
    split
    · cases s.schemaAt? ix with
      | none => exact (Agrees.throw _ _).andThen fun _ _ => hchildren
      | some schema =>
        exact (Agrees.addFields _ _ _ _).andThen fun _ _ =>
          (Agrees.addAssociation _).andThen fun _ _ => hchildren
    · exact hchildren

theorem joinedPreloads (h : s.Alike s') (path : List String) : ∀ ps : List Preload,
    Concur (s.joinedPreloads path ps) (s'.joinedPreloads path ps)
  | [] => by
    simp only [Selection.joinedPreloads]
    exact .pure trivial
  | p :: ps => by
    simp only [Selection.joinedPreloads]
    exact (joinedPreload h path p).andThen fun _ _ => joinedPreloads h path ps

end

/-- An expression and its outline are expanded alike. -/
theorem expand (h : s.Alike s') (e : Expr) : Concur (s.expand e) (s'.expand e.blank) := by
  have hroot : e.blank.selectsRoot = e.selectsRoot := Expr.selectsRoot_blank e
  unfold Selection.expand
  rw [hroot, ← h.preloads]
  refine (h.flatten e).andThen fun _ _ => ?_
  split
  · exact h.joinedPreloads [] s.clauses.preloads
  · exact .pure trivial

end Selection.Alike

/-! ### Levels -/

namespace Clauses

variable (ctx : Context) (c : Clauses Query)

/-- What a level selects: the rows of `from` unless it says something else. -/
def selected (c : Clauses Query) : Expr := (c.select.map Select.expr).getD (.binding 0)

/-- A level and its outline have alike selections. -/
theorem alike_outline (text text' : String) :
    Selection.Alike ⟨ctx, c, text⟩ ⟨ctx, c.outline, text'⟩ where
  schemaAt _ := rfl
  preloads := rfl
  subqueryAt ix := by
    have hsource : (⟨ctx, c.outline, text'⟩ : Selection).sourceAt? ix =
        ((⟨ctx, c, text⟩ : Selection).sourceAt? ix).map
          (Source.edit Expr.blank fun _ => Query.empty) := by
      unfold Selection.sourceAt?
      split
      · simp only [outline, edit, plain, Option.map_map]
        rfl
      · simp only [outline, edit, plain, List.map_map, List.find?_map]
        change (Option.map _ (c.joins.find? (·.ix == some ix))).bind _ = _
        cases c.joins.find? (·.ix == some ix) <;> rfl
    unfold Selection.subqueryAt?
    rw [hsource]
    cases (⟨ctx, c, text⟩ : Selection).sourceAt? ix with
    | none => rfl
    | some source => cases source <;> rfl

theorem project_ok : (∃ r, c.project ctx = .ok r) ↔ (∃ u, c.checkSelectable ctx = .ok u) ∧
    ∃ r, (Selection.expand ⟨ctx, c, c.selected.render⟩ c.selected).run {} = .ok r := by
  unfold project
  simp only [Except.exists_bind_iff, exists_and_right]
  refine and_congr_right fun _ => exists_congr fun r => and_iff_left_of_imp fun _ => ?_
  exact ⟨_, rfl⟩

/-- Whether a level can be projected is decided by its outline. -/
theorem project_outline : (∃ r, c.outline.project ctx = .ok r) ↔ ∃ r, c.project ctx = .ok r := by
  have hselect : c.outline.select = c.select.map (rewrite Expr.blank) := rfl
  have hexpr : c.outline.selected = c.selected.blank := by
    rw [selected, selected, hselect]
    cases c.select <;> rfl
  have hselectable : c.outline.checkSelectable ctx = c.checkSelectable ctx := by
    simp only [checkSelectable, hselect, Option.isNone_map]
    rfl
  rw [project_ok, project_ok, hselectable, hexpr]
  refine and_congr_right fun _ => ?_
  exact (((c.alike_outline ctx _ _).expand _) {} {} rfl).exists_ok.symm

theorem projectFor_outline :
    (∃ r, c.outline.projectFor ctx = .ok r) ↔ ∃ r, c.projectFor ctx = .ok r := by
  unfold projectFor
  cases ctx.operation with
  | all => exact c.project_outline ctx
  | _ => simp

end Clauses

end QueryPlanner
