import Mathlib.Data.List.Forall2
import QueryPlanner.Plan.Parameters
import QueryPlanner.Proofs.Expr.Children

/-!
# Errors without their texts

A message shows the text of what it is about, and nothing else depends on this text.  So a step
without the texts of its errors is the same step in a place that shows no text.

* `PlanError.silent`, `Binder.silent` — an error without its text, and a step with such errors
* `Except.Alike` — checks that are one check apart from texts
* `Binder.silent_bind` and its like — one lemma for each way to make a step
* `Node.silent_mapM` — a traversal of a node
* `Scope.silent_infer`, `Scope.silent_bindExpr` — types and expressions in a place without text
-/

namespace QueryPlanner

variable {α β γ : Type}

/-- An error without the text that its message shows. -/
def PlanError.silent : PlanError → PlanError
  | malformed site fault => malformed ⟨site.clause, ""⟩ fault
  | cast site value type => cast ⟨site.clause, ""⟩ value type
  | dump site value type operation => dump ⟨site.clause, ""⟩ value type operation

theorem Except.mapError_bind {ε ε' : Type} (g : ε → ε') (x : Except ε α) (f : α → Except ε β) :
    (x >>= f).mapError g = x.mapError g >>= fun a => (f a).mapError g := by
  cases x <;> rfl

theorem Except.toOption_mapError {ε ε' : Type} (g : ε → ε') (x : Except ε α) :
    (x.mapError g).toOption = x.toOption := by
  cases x <;> rfl

/-! ### Checks -/

/-- Checks that fail with one error apart from its text, or succeed with related results. -/
inductive Except.Alike (R : α → β → Prop) : Except PlanError α → Except PlanError β → Prop
  | ok {a b} (h : R a b) : Alike R (.ok a) (.ok b)
  | error {e e'} (h : e.silent = e'.silent) : Alike R (.error e) (.error e')

namespace Except.Alike

variable {δ : Type} {R : α → β → Prop} {S : γ → δ → Prop} {x : Except PlanError α}
  {y : Except PlanError β}

theorem mono {T : α → β → Prop} (h : Alike R x y) (hRT : ∀ a b, R a b → T a b) : Alike T x y := by
  cases h with
  | ok h => exact .ok (hRT _ _ h)
  | error h => exact .error h

theorem bind {f : α → Except PlanError γ} {g : β → Except PlanError δ} (h : Alike R x y)
    (hfg : ∀ a b, R a b → Alike S (f a) (g b)) : Alike S (x >>= f) (y >>= g) := by
  cases h with
  | ok h => exact hfg _ _ h
  | error h => exact .error h

theorem foldlM {f : α → γ → Except PlanError α} {g : β → δ → Except PlanError β}
    (hstep : ∀ a b c d, R a b → S c d → Alike R (f a c) (g b d)) {cs : List γ} {ds : List δ}
    (h : List.Forall₂ S cs ds) : ∀ {a b}, R a b → Alike R (cs.foldlM f a) (ds.foldlM g b) := by
  induction h with
  | nil => exact fun hab => .ok hab
  | cons head _ ih =>
    intro a b hab
    rw [List.foldlM_cons, List.foldlM_cons]
    exact (hstep _ _ _ _ hab head).bind fun _ _ => ih

/-- Where the first check succeeds, the second one does, with a related result. -/
theorem exists_ok (h : Alike R x y) {a : α} (ha : x = .ok a) : ∃ b, y = .ok b ∧ R a b := by
  subst ha
  cases h with
  | ok h => exact ⟨_, rfl, h⟩

/-- If results are related just where they correspond to each other, so do the outcomes. -/
theorem toOption {f : α → β} (h : Alike (fun a b => b = f a) x y) :
    y.toOption = x.toOption.map f := by
  cases h with
  | ok h => exact congrArg some h
  | error => rfl

end Except.Alike

/-- A check is one with itself, whatever text it shows. -/
theorem Except.alike_of_silent {x y : Except PlanError α}
    (h : x.mapError PlanError.silent = y.mapError PlanError.silent) : Except.Alike Eq x y := by
  cases x <;> cases y <;> simp only [Except.mapError, reduceCtorEq, Except.error.injEq,
    Except.ok.injEq] at h
  · exact .error h
  · exact .ok h

/-! ### Steps -/

namespace Binder

/-- A step that fails without a text. -/
def silent (m : Binder α) : Binder α := fun ps => (m.run ps).mapError PlanError.silent

@[simp]
theorem silent_pure (a : α) : silent (pure a) = pure a := rfl

@[simp]
theorem silent_throw (e : PlanError) : silent (throw e : Binder α) = throw e.silent := rfl

@[simp]
theorem silent_get : silent get = get := rfl

@[simp]
theorem silent_set (ps : List BoundParameter) : silent (set ps) = set ps := rfl

@[simp]
theorem silent_bind (m : Binder α) (f : α → Binder β) :
    silent (m >>= f) = m.silent >>= fun a => (f a).silent := by
  funext ps
  exact Except.mapError_bind PlanError.silent (m.run ps) fun r => (f r.1).run r.2

@[simp]
theorem silent_map (m : Binder α) (f : α → β) : silent (f <$> m) = f <$> m.silent := by
  rw [← bind_pure_comp, ← bind_pure_comp, silent_bind]
  rfl

@[simp]
theorem silent_lift (x : Except PlanError α) :
    silent (liftM x) = liftM (x.mapError PlanError.silent) := by
  cases x <;> rfl

@[simp]
theorem silent_mapM (f : α → Binder β) (xs : List α) :
    silent (xs.mapM f) = xs.mapM fun x => (f x).silent := by
  induction xs with
  | nil => rfl
  | cons x xs ih => simp only [List.mapM_cons, silent_bind, ih, silent_pure]

@[simp]
theorem silent_foldlM (f : β → α → Binder β) (xs : List α) (b : β) :
    silent (xs.foldlM f b) = xs.foldlM (fun b x => (f b x).silent) b := by
  induction xs generalizing b with
  | nil => rfl
  | cons x xs ih => simp only [List.foldlM_cons, silent_bind, ih]

theorem silent_bind_congr {m m' : Binder α} (h : m.silent = m'.silent) (f : α → Binder β) :
    (m >>= f).silent = (m' >>= f).silent := by
  rw [silent_bind, silent_bind, h]

/-- What follows a failure is not reached. -/
theorem silent_throw_bind (e : PlanError) (f : α → Binder β) :
    silent (throw e >>= f) = throw e.silent := rfl

theorem silent_mapM_congr {f : α → Binder γ} {g : β → Binder γ} {xs : List α} {ys : List β}
    (h : List.Forall₂ (fun x y => (f x).silent = (g y).silent) xs ys) :
    silent (xs.mapM f) = silent (ys.mapM g) := by
  induction h with
  | nil => rfl
  | cons head _ ih =>
    rw [silent_mapM, silent_mapM] at ih ⊢
    rw [List.mapM_cons, List.mapM_cons, head, ih]

theorem silent_mapM_map {f g : β → Binder γ} {u v : α → β} {xs : List α}
    (h : ∀ x ∈ xs, (f (u x)).silent = (g (v x)).silent) :
    silent ((xs.map u).mapM f) = silent ((xs.map v).mapM g) := by
  refine silent_mapM_congr ?_
  rw [List.forall₂_map_left_iff, List.forall₂_map_right_iff]
  exact List.forall₂_same.mpr h

/-- Steps that go on alike after checks that are alike. -/
theorem silent_lift_congr {δ : Type} {R : α → β → Prop} {x : Except PlanError α}
    {y : Except PlanError β} {f : α → Binder δ} {g : β → Binder δ} (h : Except.Alike R x y)
    (hfg : ∀ a b, R a b → (f a).silent = (g b).silent) :
    silent (liftM x >>= f) = silent (liftM y >>= g) := by
  cases h with
  | ok h => exact hfg _ _ h
  | error h =>
    funext ps
    exact congrArg Except.error h

end Binder

open Binder

/-! ### Traversals -/

section

variable (f : α → Binder β)

theorem Part.silent_mapM (p : Part α) : (p.mapM f).silent = p.mapM fun c => (f c).silent := by
  cases p with
  | raw text => rfl
  | term e => exact silent_map _ _

theorem Ordered.silent_mapM (o : Ordered α) :
    (o.mapM f).silent = o.mapM fun c => (f c).silent := silent_bind _ _

theorem Window.silent_mapM (w : Window α) : (w.mapM f).silent = w.mapM fun c => (f c).silent := by
  obtain ⟨partition, order, frame⟩ := w
  cases frame <;>
    simp [Window.mapM, Ordered.silent_mapM, Part.silent_mapM]

theorem WindowRef.silent_mapM (w : WindowRef α) :
    (w.mapM f).silent = w.mapM fun c => (f c).silent := by
  cases w with
  | named name => rfl
  | inline window => simp only [WindowRef.mapM, silent_map, Window.silent_mapM]

/-- A traversal without texts is the traversal by steps without texts. -/
theorem Node.silent_mapM (n : Node α) : (n.mapM f).silent = n.mapM fun c => (f c).silent := by
  cases n <;> simp [Node.mapM, WindowRef.silent_mapM, Part.silent_mapM]

end

/-- Traversing a node with its children replaced is traversing the node. -/
theorem Node.mapM_map (k : α → β) (f : β → Binder γ) (n : Node α) :
    (n.map k).mapM f = n.mapM fun c => f (k c) := by
  have hparts : ∀ parts : List (Part α),
      (parts.map (Part.map k)).mapM (Part.mapM f) = parts.mapM (Part.mapM fun c => f (k c)) := by
    intro parts
    rw [List.mapM_map]
    congr 1
    funext p
    cases p <;> rfl
  cases n with
  | list items | tuple items | call name items | mapping entries =>
    simp only [map, mapM, List.mapM_map]
    rfl
  | fragment parts => simp only [map, mapM, hparts]
  | windowed inner window =>
    cases window with
    | named name => rfl
    | inline window =>
      obtain ⟨partition, order, frame⟩ := window
      simp only [map, mapM, WindowRef.map, WindowRef.mapM, Window.map, Window.mapM, List.mapM_map]
      cases frame with
      | none => rfl
      | some parts =>
        simp only [Option.map_some, hparts]
        rfl
  | _ => rfl

/-! ### Types -/

namespace Scope

variable {s : Scope}

/-- The scope with another text to show in messages. -/
def showing (s : Scope) (text : String) : Scope := { s with site := ⟨s.site.clause, text⟩ }

theorem infer_mk (n : Node Expr) : s.infer ⟨n⟩ = s.inferNode (n.map fun e => (e, s.infer e)) :=
  Expr.fold_mk _ n

theorem bindExpr_mk (n : Node Expr) (expected : FieldType) :
    s.bindExpr ⟨n⟩ expected = s.bindNode (n.map fun e => (e, s.bindExpr e)) expected := by
  rw [bindExpr, Expr.fold_mk]

theorem silent_fieldType (ix : Nat) (name : String) :
    (s.fieldType ix name).mapError PlanError.silent = (s.showing "").fieldType ix name := by
  have hsources : (s.showing "").sources = s.sources := rfl
  unfold fieldType
  rw [hsources]
  cases s.sources[ix]? with
  | none => rfl
  | some source =>
    simp only
    cases source.schema? with
    | none => rfl
    | some schemaName =>
      have hctx : (s.showing "").ctx = s.ctx := rfl
      simp only [hctx, Context.schema]
      cases s.ctx.registry.lookup? schemaName with
      | none => rfl
      | some schema =>
        simp only [bind, Except.bind]
        cases schema.field? name <;> rfl

theorem silent_infer (e : Expr) :
    (s.infer e).mapError PlanError.silent = (s.showing "").infer e := by
  refine Expr.induction (P := fun e =>
    (s.infer e).mapError PlanError.silent = (s.showing "").infer e) ?_ e
  intro n ih
  rw [infer_mk, infer_mk]
  cases n with
  | field ix name => exact silent_fieldType ix name
  | selectedAs inner name => exact ih inner (List.mem_singleton_self inner)
  | binary op left right =>
    have hleft := ih left List.mem_cons_self
    have hright := ih right (List.mem_cons_of_mem _ List.mem_cons_self)
    simp only [Node.map, inferNode]
    cases op.isArithmetic with
    | false => rfl
    | true =>
      simp only [if_true, Except.mapError_bind, hleft]
      congr 1
      funext type
      cases type.isAny with
      | false => rfl
      | true => exact hright
  | _ => rfl

theorem silent_operandType (side other : Expr) (fallback : FieldType) :
    (s.operandType side other fallback).mapError PlanError.silent =
      (s.showing "").operandType side other fallback := by
  unfold operandType
  cases side.hasPin with
  | false => rfl
  | true =>
    simp only [if_true, Except.mapError_bind, silent_infer]
    rfl

theorem silent_operandTypes (op : BinaryOp) (left right : Expr) (expected : FieldType) :
    (s.operandTypes op left right expected).mapError PlanError.silent =
      (s.showing "").operandTypes op left right expected := by
  unfold operandTypes
  cases op.isLogical with
  | true => rfl
  | false =>
    simp only [Bool.false_eq_true, if_false, Except.mapError_bind, silent_operandType]
    rfl

theorem silent_elementType (left right : Expr) :
    (s.elementType left right).mapError PlanError.silent =
      (s.showing "").elementType left right := by
  unfold elementType
  cases right.hasPin with
  | false => rfl
  | true => exact silent_infer left

theorem silent_memberType (left right : Expr) :
    (s.memberType left right).mapError PlanError.silent =
      (s.showing "").memberType left right := by
  unfold memberType
  cases left.hasPin with
  | false => rfl
  | true =>
    simp only [if_true, Except.mapError_bind, silent_infer]
    rfl

theorem silent_refuseNull (operand : Expr) (type : FieldType) :
    (s.refuseNull operand type).mapError PlanError.silent =
      (s.showing "").refuseNull operand type := by
  unfold refuseNull
  split <;> rfl

/-! ### Expressions -/

theorem silent_bindValue (v : Value) (type : FieldType) :
    (s.bindValue v type).silent = (s.showing "").bindValue v type := by
  have hconversions : (s.showing "").ctx.conversions = s.ctx.conversions := rfl
  unfold bindValue
  rw [hconversions]
  cases s.ctx.conversions.cast type v with
  | error e => rfl
  | ok logical =>
    simp only
    cases s.ctx.conversions.dump type logical <;> rfl

theorem silent_bindCollection (element : FieldType) (right : Expr × (FieldType → Binder Expr)) :
    (s.bindCollection element right).silent =
      (s.showing "").bindCollection element (right.1, fun type => (right.2 type).silent) := by
  unfold bindCollection
  simp only
  split
  · simp only [silent_bind, silent_get, silent_mapM, silent_bindValue, silent_pure]
  · rfl
  · rfl
  · rfl

/-- A node is read without texts where its children are. -/
theorem silent_bindNode (n : Node (Expr × (FieldType → Binder Expr))) (expected : FieldType) :
    (s.bindNode n expected).silent = (s.showing "").bindNode
      (n.map fun child => (child.1, fun type => (child.2 type).silent)) expected := by
  have hdefault : Binder.silent (do
      let m ← n.mapM fun child => child.2 .any
      pure (⟨m⟩ : Expr)) = (do
      let m ← (n.map fun child => (child.1, fun type => (child.2 type).silent)).mapM
        fun child => child.2 .any
      pure ⟨m⟩) := by
    rw [Node.mapM_map, silent_bind, Node.silent_mapM]
    rfl
  cases n with
  | pin v => exact silent_bindValue v expected
  | dynamic | keywords => rfl
  | binary op left right =>
    simp only [bindNode, Node.map, silent_bind, silent_lift, silent_operandTypes]
    cases op.isComparison <;>
      simp only [Bool.false_eq_true, if_false, if_true, silent_bind, silent_lift, silent_refuseNull,
        silent_pure]
  | isIn left right =>
    simp only [bindNode, Node.map, silent_bind, silent_lift, silent_elementType, silent_memberType,
      silent_bindCollection, silent_pure]
  | not inner | typed inner | selectedAs inner =>
    simp only [bindNode, Node.map, silent_bind, silent_pure]
  | list items =>
    simp only [bindNode, Node.map, silent_bind, silent_mapM, silent_pure, List.mapM_map]
    rfl
  | _ => exact hdefault

/-- **An expression is read without texts** in a place that shows none. -/
theorem silent_bindExpr (e : Expr) : ∀ expected : FieldType,
    (s.bindExpr e expected).silent = (s.showing "").bindExpr e expected := by
  refine Expr.induction (P := fun e => ∀ expected : FieldType,
    (s.bindExpr e expected).silent = (s.showing "").bindExpr e expected) ?_ e
  intro n ih expected
  rw [bindExpr_mk, bindExpr_mk, silent_bindNode, Node.map_map]
  congr 1
  exact Node.map_congr fun c hc => congrArg (Prod.mk c) (funext (ih c hc))

end Scope

end QueryPlanner
