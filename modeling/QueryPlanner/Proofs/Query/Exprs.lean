import QueryPlanner.Proofs.Expr.Detail
import QueryPlanner.Query.Basic

/-!
# Syntax that holds expressions

The entries of clauses hold expressions in fixed places.  Like a node, such an entry is its frame,
which is what remains when the expressions are forgotten, and the list of its expressions in
reading order.

* `HasExprs` — the class of such syntax, with its laws
* `HasExprs.ext` — frame and expressions determine the whole
* instances for every kind of clause entry that nests no query
-/

namespace QueryPlanner

/-- What stands in the place of a forgotten expression. -/
def Expr.hole : Expr := .literal .null

/-- Syntax with expressions in fixed places. -/
class HasExprs (X : Type) where
  /-- The expressions, in reading order. -/
  exprs : X → List Expr
  /-- The syntax with every expression replaced. -/
  rewrite : (Expr → Expr) → X → X
  exprs_rewrite : ∀ (f : Expr → Expr) (x : X), exprs (rewrite f x) = (exprs x).map f
  rewrite_rewrite : ∀ (g f : Expr → Expr) (x : X), rewrite g (rewrite f x) = rewrite (g ∘ f) x
  ext : ∀ {x y : X}, rewrite (fun _ => Expr.hole) x = rewrite (fun _ => Expr.hole) y →
    exprs x = exprs y → x = y

namespace HasExprs

variable {X : Type} [HasExprs X] {f g : Expr → Expr} {x y : X}

/-- What remains when the expressions are forgotten. -/
def frame (x : X) : X := rewrite (fun _ => Expr.hole) x

/-- Replacing expressions keeps the frame. -/
@[simp]
theorem frame_rewrite (f : Expr → Expr) (x : X) : frame (rewrite f x) = frame x :=
  rewrite_rewrite _ f x

/-- One frame holds one number of expressions. -/
theorem length_exprs (h : frame x = frame y) : (exprs x).length = (exprs y).length := by
  have hlen := congrArg (fun z => (exprs z).length) h
  simpa only [frame, exprs_rewrite, List.length_map] using hlen

theorem rewrite_id (x : X) : rewrite id x = x := by
  apply ext
  · exact frame_rewrite id x
  · rw [exprs_rewrite, List.map_id]

end HasExprs

open HasExprs

instance : HasExprs Expr where
  exprs e := [e]
  rewrite f e := f e
  exprs_rewrite _ _ := rfl
  rewrite_rewrite _ _ _ := rfl
  ext _ h := List.singleton_inj.mp h

instance : HasExprs (Part Expr) where
  exprs := Part.children
  rewrite := Part.map
  exprs_rewrite := Part.children_map
  rewrite_rewrite := Part.map_map
  ext {p q} hs hc := by
    cases p <;> cases q <;> simp_all [Part.map, Part.children]

instance : HasExprs (Ordered Expr) where
  exprs o := [o.term]
  rewrite := Ordered.map
  exprs_rewrite _ _ := rfl
  rewrite_rewrite := Ordered.map_map
  ext {o u} hs hc := by
    cases o
    cases u
    simp_all [Ordered.map]

section

variable {X : Type} [HasExprs X]

instance : HasExprs (List X) where
  exprs xs := xs.flatMap exprs
  rewrite f xs := xs.map (rewrite f)
  exprs_rewrite f xs := by
    simp only [List.flatMap_map, List.map_flatMap, exprs_rewrite]
  rewrite_rewrite g f xs := by
    simp only [List.map_map, Function.comp_def, rewrite_rewrite]
  ext hs hc := List.eq_of_map_eq_of_flatMap_eq (fun _ _ => length_exprs) hs hc fun _ _ _ => ext

instance : HasExprs (Option X) where
  exprs o := o.toList.flatMap exprs
  rewrite f o := o.map (rewrite f)
  exprs_rewrite f o := by
    cases o <;> simp [exprs_rewrite]
  rewrite_rewrite g f o := by
    cases o <;> simp [rewrite_rewrite]
  ext {o u} hs hc := by
    cases o <;> cases u <;> simp only [Option.map_none, Option.map_some, reduceCtorEq,
      Option.some.injEq] at hs ⊢
    exact ext hs (by simpa using hc)

instance : HasExprs (String × X) where
  exprs entry := exprs entry.2
  rewrite f entry := (entry.1, rewrite f entry.2)
  exprs_rewrite f entry := exprs_rewrite f entry.2
  rewrite_rewrite g f entry := by rw [rewrite_rewrite]
  ext {x y} hs hc := by
    obtain ⟨hname, hrest⟩ := Prod.mk.injEq .. ▸ hs
    exact Prod.ext hname (ext hrest hc)

end

instance : HasExprs (Window Expr) where
  exprs := Window.children
  rewrite := Window.map
  exprs_rewrite := Window.children_map
  rewrite_rewrite := Window.map_map
  ext {v w} hs hc := by
    refine Window.ext_children ?_ hc
    have h := congrArg (Window.map fun _ => ()) hs
    rwa [Window.map_map, Window.map_map] at h

instance : HasExprs Condition where
  exprs c := [c.expr]
  rewrite f c := ⟨c.connective, f c.expr⟩
  exprs_rewrite _ _ := rfl
  rewrite_rewrite _ _ _ := rfl
  ext {c d} hs hc := by
    cases c
    cases d
    simp_all

instance : HasExprs GroupBy where
  exprs
    | .exprs es => es
    | .pinned _ => []
  rewrite f
    | .exprs es => .exprs (es.map f)
    | .pinned names => .pinned names
  exprs_rewrite f c := by cases c <;> rfl
  rewrite_rewrite g f c := by cases c <;> simp
  ext {c d} hs hc := by cases c <;> cases d <;> simp_all

instance : HasExprs OrderBy where
  exprs
    | .items items => exprs items
    | .pinned _ => []
  rewrite f
    | .items items => .items (rewrite f items)
    | .pinned names => .pinned names
  exprs_rewrite f c := by cases c <;> simp [exprs_rewrite]
  rewrite_rewrite g f c := by cases c <;> simp [rewrite_rewrite]
  ext {c d} hs hc := by
    cases c <;> cases d <;> simp only [reduceCtorEq, OrderBy.items.injEq,
      OrderBy.pinned.injEq] at hs ⊢
    · exact ext hs hc
    · exact hs

instance : HasExprs Select where
  exprs s := s.expr :: s.fields
  rewrite f s := ⟨f s.expr, s.fields.map f⟩
  exprs_rewrite _ _ := rfl
  rewrite_rewrite g f s := by simp
  ext {s t} hs hc := by
    cases s
    cases t
    simp_all

instance : HasExprs Distinct where
  exprs
    | .all => []
    | .on items => exprs items
  rewrite f
    | .all => .all
    | .on items => .on (rewrite f items)
  exprs_rewrite f d := by cases d <;> simp [exprs_rewrite]
  rewrite_rewrite g f d := by cases d <;> simp [rewrite_rewrite]
  ext {c d} hs hc := by
    cases c <;> cases d <;> simp only [reduceCtorEq, Distinct.on.injEq] at hs ⊢
    exact ext hs hc

instance : HasExprs Update where
  exprs u := exprs u.fields
  rewrite f u := ⟨u.op, rewrite f u.fields⟩
  exprs_rewrite f u := exprs_rewrite f u.fields
  rewrite_rewrite g f u := by rw [rewrite_rewrite]
  ext {u v} hs hc := by
    obtain ⟨uop, ufields⟩ := u
    obtain ⟨vop, vfields⟩ := v
    simp only [Update.mk.injEq] at hs ⊢
    exact ⟨hs.1, ext hs.2 hc⟩

instance : HasExprs Lock where
  exprs
    | .literal _ => []
    | .fragment parts => exprs parts
  rewrite f
    | .literal text => .literal text
    | .fragment parts => .fragment (rewrite f parts)
  exprs_rewrite f l := by cases l <;> simp [exprs_rewrite]
  rewrite_rewrite g f l := by cases l <;> simp [rewrite_rewrite]
  ext {l m} hs hc := by
    cases l <;> cases m <;> simp only [reduceCtorEq, Lock.literal.injEq,
      Lock.fragment.injEq] at hs ⊢
    · exact hs
    · exact ext hs hc

end QueryPlanner
