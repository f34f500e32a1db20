import QueryPlanner.Plan.Parameters
import QueryPlanner.Proofs.Expr.Children

/-!
# Steps of planning that succeed

Planning is a chain of steps that add parameters or fail.  What is proved about a plan is proved
about its successful steps, so success is a judgement of its own: `m.Yields ps a qs` says that the
step `m`, begun with the parameters `ps`, yields `a` and leaves the parameters `qs`.

* `Binder.yields_bind` — a step and what follows it succeed in turn
* `Chain` — steps in a row
* `Binder.yields_mapM_flatMap` — a traversal of records is a chain of steps on what they hold
* `Node.yields_mapM` — a traversal of a node keeps its shape and reads its children in order
-/

namespace QueryPlanner

variable {α β γ : Type}

namespace Binder

/-- The step succeeds on the parameters `ps` with `a` and leaves the parameters `qs`. -/
def Yields (m : Binder α) (ps : List BoundParameter) (a : α) (qs : List BoundParameter) : Prop :=
  m.run ps = .ok (a, qs)

variable {ps qs rs : List BoundParameter} {a : α} {b : β}

@[simp]
theorem yields_pure {a' : α} : Yields (pure a') ps a qs ↔ a = a' ∧ qs = ps := by
  constructor
  · intro h
    cases h
    exact ⟨rfl, rfl⟩
  · rintro ⟨rfl, rfl⟩
    rfl

@[simp]
theorem yields_bind {m : Binder α} {f : α → Binder β} :
    Yields (m >>= f) ps b qs ↔ ∃ a rs, m.Yields ps a rs ∧ (f a).Yields rs b qs := by
  simp only [Yields, StateT.run_bind]
  cases h : m.run ps with
  | error e => simp [bind, Except.bind]
  | ok r =>
    obtain ⟨a, rs⟩ := r
    constructor
    · intro hb
      exact ⟨a, rs, rfl, hb⟩
    · rintro ⟨_, _, hr, hb⟩
      cases hr
      exact hb

@[simp]
theorem yields_map {m : Binder α} {f : α → β} :
    Yields (f <$> m) ps b qs ↔ ∃ a, m.Yields ps a qs ∧ b = f a := by
  rw [← bind_pure_comp]
  constructor
  · intro h
    obtain ⟨a, rs, hm, hb⟩ := yields_bind.mp h
    obtain ⟨rfl, rfl⟩ := yields_pure.mp hb
    exact ⟨a, hm, rfl⟩
  · rintro ⟨a, hm, rfl⟩
    exact yields_bind.mpr ⟨a, qs, hm, yields_pure.mpr ⟨rfl, rfl⟩⟩

@[simp]
theorem yields_throw {e : PlanError} : ¬ Yields (throw e) ps a qs := by
  intro h
  cases h

@[simp]
theorem yields_lift {x : Except PlanError α} :
    Yields (liftM x) ps a qs ↔ x = .ok a ∧ qs = ps := by
  cases x with
  | error e =>
    constructor
    · intro h
      cases h
    · rintro ⟨h, -⟩
      cases h
  | ok a' =>
    constructor
    · intro h
      cases h
      exact ⟨rfl, rfl⟩
    · rintro ⟨h, rfl⟩
      cases h
      rfl

/-- A check that fails or yields a value, and what follows it. -/
theorem yields_lift_bind {x : Except PlanError α} {f : α → Binder β} :
    Yields (liftM x >>= f) ps b qs ↔ ∃ a, x = .ok a ∧ (f a).Yields ps b qs := by
  rw [yields_bind]
  constructor
  · rintro ⟨a, rs, hx, hf⟩
    obtain ⟨ha, rfl⟩ := yields_lift.mp hx
    exact ⟨a, ha, hf⟩
  · rintro ⟨a, ha, hf⟩
    exact ⟨a, ps, yields_lift.mpr ⟨ha, rfl⟩, hf⟩

@[simp]
theorem yields_get {s : List BoundParameter} : Yields get ps s qs ↔ s = ps ∧ qs = ps := by
  constructor
  · intro h
    cases h
    exact ⟨rfl, rfl⟩
  · rintro ⟨rfl, rfl⟩
    rfl

@[simp]
theorem yields_set {s : List BoundParameter} {u : PUnit} :
    Yields (set s) ps u qs ↔ qs = s := by
  constructor
  · intro h
    cases h
    rfl
  · rintro rfl
    rfl

end Binder

/-- Steps in a row: each takes the parameters that the one before it leaves. -/
inductive Chain (R : α → List BoundParameter → β → List BoundParameter → Prop) :
    List α → List BoundParameter → List β → List BoundParameter → Prop
  | nil {ps} : Chain R [] ps [] ps
  | cons {x xs y ys ps qs rs} (head : R x ps y qs) (tail : Chain R xs qs ys rs) :
      Chain R (x :: xs) ps (y :: ys) rs

namespace Chain

variable {R S : α → List BoundParameter → β → List BoundParameter → Prop}
  {ps qs rs : List BoundParameter} {xs : List α} {ys : List β}

theorem single {x : α} {y : β} (h : R x ps y qs) : Chain R [x] ps [y] qs := .cons h .nil

theorem append {xs' : List α} {ys' : List β} (h : Chain R xs ps ys qs)
    (h' : Chain R xs' qs ys' rs) : Chain R (xs ++ xs') ps (ys ++ ys') rs := by
  induction h with
  | nil => exact h'
  | cons head _ ih => exact .cons head (ih h')

/-- Steps that are steps of another kind. -/
theorem mono (h : Chain R xs ps ys qs) (hRS : ∀ x ∈ xs, ∀ ps y qs, R x ps y qs → S x ps y qs) :
    Chain S xs ps ys qs := by
  induction h with
  | nil => exact .nil
  | cons head _ ih =>
    exact .cons (hRS _ List.mem_cons_self _ _ _ head)
      (ih fun x hx => hRS x (List.mem_cons_of_mem _ hx))

/-- Every step yields one result. -/
theorem length (h : Chain R xs ps ys qs) : ys.length = xs.length := by
  induction h with
  | nil => rfl
  | cons _ _ ih => rw [List.length_cons, List.length_cons, ih]

/-- What holds of the results of steps, wherever they start, holds of all results. -/
theorem forall_results {P : β → Prop} (h : Chain R xs ps ys qs)
    (hR : ∀ x ∈ xs, ∀ ps y qs, R x ps y qs → P y) : ∀ y ∈ ys, P y := by
  induction h with
  | nil => exact fun y hy => nomatch hy
  | cons head _ ih =>
    intro y hy
    rcases List.mem_cons.mp hy with rfl | hy
    · exact hR _ List.mem_cons_self _ _ _ head
    · exact ih (fun x hx => hR x (List.mem_cons_of_mem _ hx)) y hy

/-- Steps on mapped inputs, with mapped results. -/
theorem map {γ δ : Type} {T : γ → List BoundParameter → δ → List BoundParameter → Prop}
    {u : α → γ} {v : β → δ} (h : Chain R xs ps ys qs)
    (hRT : ∀ x ps y qs, R x ps y qs → T (u x) ps (v y) qs) :
    Chain T (xs.map u) ps (ys.map v) qs := by
  induction h with
  | nil => exact .nil
  | cons head _ ih => exact .cons (hRT _ _ _ _ head) ih

end Chain

namespace Binder

variable {ps qs rs : List BoundParameter} {a : α} {b : β}

/-- The steps of a traversal. -/
abbrev StepOf (f : α → Binder β) : α → List BoundParameter → β → List BoundParameter → Prop :=
  fun x ps y qs => (f x).Yields ps y qs

/-- A traversal is a chain of its steps. -/
theorem Yields.chain {f : α → Binder β} {xs : List α} {ys : List β}
    (h : Yields (xs.mapM f) ps ys qs) : Chain (StepOf f) xs ps ys qs := by
  induction xs generalizing ps ys with
  | nil =>
    rw [List.mapM_nil, yields_pure] at h
    obtain ⟨rfl, rfl⟩ := h
    exact .nil
  | cons x xs ih =>
    rw [List.mapM_cons] at h
    obtain ⟨y, rs, hy, h⟩ := yields_bind.mp h
    obtain ⟨zs, ts, hzs, h⟩ := yields_bind.mp h
    obtain ⟨rfl, rfl⟩ := yields_pure.mp h
    exact .cons hy (ih hzs)

/-- A traversal yields one result for each element. -/
theorem Yields.length_mapM {f : α → Binder β} {xs : List α} {ys : List β}
    (h : Yields (xs.mapM f) ps ys qs) : ys.length = xs.length := h.chain.length

/-- **Traversing records.**  If the step of every record keeps its frame and is a chain of steps on
what it holds, then so does the traversal of a list of records, and so is it. -/
theorem yields_mapM_flatMap {X Y S : Type} {F : X → Binder Y}
    {R : α → List BoundParameter → β → List BoundParameter → Prop}
    {u : X → S} {v : Y → S} {s : X → List α} {t : Y → List β} {xs : List X}
    (hF : ∀ x ∈ xs, ∀ ps y qs, (F x).Yields ps y qs →
      v y = u x ∧ Chain R (s x) ps (t y) qs)
    {ys : List Y} (h : Yields (xs.mapM F) ps ys qs) :
    ys.map v = xs.map u ∧ Chain R (xs.flatMap s) ps (ys.flatMap t) qs := by
  have hchain := h.chain
  clear h
  induction hchain with
  | nil => exact ⟨rfl, .nil⟩
  | cons head _ ih =>
    obtain ⟨hframe, hheld⟩ := hF _ List.mem_cons_self _ _ _ head
    obtain ⟨hframes, hrest⟩ := ih fun z hz => hF z (List.mem_cons_of_mem _ hz)
    exact ⟨by rw [List.map_cons, List.map_cons, hframe, hframes], hheld.append hrest⟩

end Binder

open Binder

variable {ps qs : List BoundParameter}

theorem Part.yields_mapM {f : α → Binder β} {p : Part α} {q : Part β}
    (h : Yields (p.mapM f) ps q qs) :
    (q.map fun _ => ()) = (p.map fun _ => ()) ∧ Chain (StepOf f) p.children ps q.children qs := by
  cases p with
  | raw text =>
    obtain ⟨rfl, rfl⟩ := yields_pure.mp h
    exact ⟨rfl, .nil⟩
  | term e =>
    obtain ⟨b, hb, rfl⟩ := yields_map.mp h
    exact ⟨rfl, .single hb⟩

theorem Ordered.yields_mapM {f : α → Binder β} {o : Ordered α} {u : Ordered β}
    (h : Yields (o.mapM f) ps u qs) :
    (u.map fun _ => ()) = (o.map fun _ => ()) ∧ Chain (StepOf f) [o.term] ps [u.term] qs := by
  obtain ⟨b, rs, hb, h⟩ := yields_bind.mp h
  obtain ⟨rfl, rfl⟩ := yields_pure.mp h
  exact ⟨rfl, .single hb⟩

/-- A list of children that is traversed keeps its length, which is all the shape of it. -/
theorem Binder.Yields.map_unit {f : α → Binder β} {xs : List α} {ys : List β}
    (h : Yields (xs.mapM f) ps ys qs) : ys.map (fun _ => ()) = xs.map fun _ => () := by
  simp [List.map_const', h.length_mapM]

theorem Window.yields_mapM {f : α → Binder β} {v : Window α} {w : Window β}
    (h : Yields (v.mapM f) ps w qs) :
    (w.map fun _ => ()) = (v.map fun _ => ()) ∧ Chain (StepOf f) v.children ps w.children qs := by
  obtain ⟨partition, order, frame⟩ := v
  obtain ⟨partition', rs, hp, h⟩ := yields_bind.mp h
  obtain ⟨order', ts, ho, h⟩ := yields_bind.mp h
  obtain ⟨hos, hoc⟩ := yields_mapM_flatMap (fun _ _ _ _ _ => Ordered.yields_mapM) ho
  have hps := hp.map_unit
  rw [← List.map_eq_flatMap, ← List.map_eq_flatMap] at hoc
  cases frame with
  | none =>
    obtain ⟨frame', us, hf, h⟩ := yields_bind.mp h
    obtain ⟨rfl, rfl⟩ := yields_pure.mp hf
    obtain ⟨rfl, rfl⟩ := yields_pure.mp h
    refine ⟨by simp [map, hps, hos], ?_⟩
    simp only [children, List.append_nil]
    exact hp.chain.append hoc
  | some parts =>
    obtain ⟨frame', us, hf, h⟩ := yields_bind.mp h
    obtain ⟨parts', hparts, rfl⟩ := yields_map.mp hf
    obtain ⟨rfl, rfl⟩ := yields_pure.mp h
    obtain ⟨hfs, hfc⟩ := yields_mapM_flatMap (fun _ _ _ _ _ => Part.yields_mapM) hparts
    refine ⟨by simp [map, hps, hos, hfs], ?_⟩
    simp only [children]
    exact (hp.chain.append hoc).append hfc

theorem WindowRef.yields_mapM {f : α → Binder β} {v : WindowRef α} {w : WindowRef β}
    (h : Yields (v.mapM f) ps w qs) :
    (w.map fun _ => ()) = (v.map fun _ => ()) ∧ Chain (StepOf f) v.children ps w.children qs := by
  cases v with
  | named name =>
    obtain ⟨rfl, rfl⟩ := yields_pure.mp h
    exact ⟨rfl, .nil⟩
  | inline window =>
    obtain ⟨window', hw, rfl⟩ := yields_map.mp h
    obtain ⟨hs, hc⟩ := Window.yields_mapM hw
    exact ⟨congrArg WindowRef.inline hs, hc⟩

/-- **Traversing a node.**  A step on every child keeps the shape of the node and takes the children
from left to right. -/
theorem Node.yields_mapM {f : α → Binder β} {n : Node α} {m : Node β}
    (h : Yields (n.mapM f) ps m qs) :
    m.shape = n.shape ∧ Chain (StepOf f) n.children ps m.children qs := by
  cases n with
  | dynamic inner | not inner | isNil inner =>
    obtain ⟨b, hb, rfl⟩ := yields_map.mp h
    exact ⟨rfl, .single hb⟩
  | typed inner type =>
    obtain ⟨b, rs, hb, h⟩ := yields_bind.mp h
    obtain ⟨rfl, rfl⟩ := yields_pure.mp h
    exact ⟨rfl, .single hb⟩
  | selectedAs inner name =>
    obtain ⟨b, rs, hb, h⟩ := yields_bind.mp h
    obtain ⟨rfl, rfl⟩ := yields_pure.mp h
    exact ⟨rfl, .single hb⟩
  | binary op left right =>
    obtain ⟨b, rs, hb, h⟩ := yields_bind.mp h
    obtain ⟨c, ts, hc, h⟩ := yields_bind.mp h
    obtain ⟨rfl, rfl⟩ := yields_pure.mp h
    exact ⟨rfl, .cons hb (.single hc)⟩
  | isIn left right =>
    obtain ⟨b, rs, hb, h⟩ := yields_bind.mp h
    obtain ⟨c, ts, hc, h⟩ := yields_bind.mp h
    obtain ⟨rfl, rfl⟩ := yields_pure.mp h
    exact ⟨rfl, .cons hb (.single hc)⟩
  | list items =>
    obtain ⟨bs, hbs, rfl⟩ := yields_map.mp h
    exact ⟨congrArg Node.list hbs.map_unit, hbs.chain⟩
  | tuple items =>
    obtain ⟨bs, hbs, rfl⟩ := yields_map.mp h
    exact ⟨congrArg Node.tuple hbs.map_unit, hbs.chain⟩
  | call name arguments =>
    obtain ⟨bs, hbs, rfl⟩ := yields_map.mp h
    exact ⟨congrArg (Node.call name) hbs.map_unit, hbs.chain⟩
  | mapping entries =>
    obtain ⟨bs, hbs, rfl⟩ := yields_map.mp h
    obtain ⟨hs, hc⟩ := yields_mapM_flatMap (R := StepOf f) (u := fun e => (e.1, ()))
      (v := fun e => (e.1, ())) (s := fun e => [e.2]) (t := fun e => [e.2])
      (fun e _ ps y qs hy => by
        obtain ⟨b, rs, hb, hy⟩ := yields_bind.mp hy
        obtain ⟨rfl, rfl⟩ := yields_pure.mp hy
        exact ⟨rfl, .single hb⟩) hbs
    rw [← List.map_eq_flatMap, ← List.map_eq_flatMap] at hc
    exact ⟨congrArg Node.mapping hs, hc⟩
  | windowed inner window =>
    obtain ⟨b, rs, hb, h⟩ := yields_bind.mp h
    obtain ⟨w, ts, hw, h⟩ := yields_bind.mp h
    obtain ⟨rfl, rfl⟩ := yields_pure.mp h
    obtain ⟨hs, hc⟩ := WindowRef.yields_mapM hw
    exact ⟨congrArg (Node.windowed ()) hs, .cons hb hc⟩
  | fragment parts =>
    obtain ⟨parts', hparts, rfl⟩ := yields_map.mp h
    obtain ⟨hs, hc⟩ := yields_mapM_flatMap (fun _ _ _ _ _ => Part.yields_mapM) hparts
    exact ⟨congrArg Node.fragment hs, hc⟩
  | field | binding | literal | pin | keywords | param | paramRange | structOf | mapOf
  | selectedRef =>
    obtain ⟨rfl, rfl⟩ := yields_pure.mp h
    exact ⟨rfl, .nil⟩

end QueryPlanner
