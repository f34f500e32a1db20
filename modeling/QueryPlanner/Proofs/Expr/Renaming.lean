import QueryPlanner.Plan.Bindings
import QueryPlanner.Proofs.Query.Items

/-!
# Renaming bindings

A binding is a number that a level gives to one of its sources.  An expression that names bindings
can be moved to a level that numbers the same sources otherwise.

* `Expr.rename`, `Join.rename` — an expression and a join with other numbers for their bindings
* `Hop.rename_join` — the join that a hop makes is the same in all numberings
-/

namespace QueryPlanner

variable {α : Type} {ρ : Nat → Nat}

/-- The node with its binding renamed. -/
def Node.rename (ρ : Nat → Nat) : Node α → Node α
  | field ix name => field (ρ ix) name
  | binding ix => binding (ρ ix)
  | structOf ix take => structOf (ρ ix) take
  | mapOf ix take => mapOf (ρ ix) take
  | n => n

namespace Expr

/-- The expression with every binding renamed. -/
def rename (ρ : Nat → Nat) : Expr → Expr := relabel (Node.rename ρ)

theorem rename_mk (n : Node Expr) : rename ρ ⟨n⟩ = ⟨(n.map (rename ρ)).rename ρ⟩ :=
  relabel_mk _ n

theorem rename_field (ix : Nat) (name : String) :
    rename ρ (.field ix name) = .field (ρ ix) name := rename_mk _

theorem rename_literal (value : Value) : rename ρ (.literal value) = .literal value := rename_mk _

theorem rename_binary (op : BinaryOp) (left right : Expr) :
    rename ρ (.binary op left right) = .binary op (left.rename ρ) (right.rename ρ) := rename_mk _

theorem rename_isNil (inner : Expr) : rename ρ (.isNil inner) = .isNil (inner.rename ρ) :=
  rename_mk _

theorem rename_not (inner : Expr) : rename ρ (.not inner) = .not (inner.rename ρ) := rename_mk _

theorem rename_isIn (left right : Expr) :
    rename ρ (.isIn left right) = .isIn (left.rename ρ) (right.rename ρ) := rename_mk _

theorem rename_list (items : List Expr) :
    rename ρ (.list items) = .list (items.map (rename ρ)) := rename_mk _

/-- A conjunction is renamed part by part. -/
theorem rename_conjunction {ι : Type} {part part' : ι → Expr}
    (hpart : ∀ i, (part i).rename ρ = part' i) : ∀ (is : List ι) (first : Expr),
      (is.foldl (fun e i => e.and (part i)) first).rename ρ =
        is.foldl (fun e i => e.and (part' i)) (first.rename ρ)
  | [], _ => rfl
  | i :: is, first => by
    rw [List.foldl_cons, List.foldl_cons, rename_conjunction hpart is, Expr.and, Expr.and,
      rename_binary, hpart]

end Expr

/-! ### Fragments from a text -/

/-- The parts of a text do not depend on what stands for its marks. -/
theorem Part.ofText_map {ε ζ : Type} (f : ε → ζ) (text : String) (arguments : List ε) :
    (ofText text arguments).map (Part.map f) = ofText text (arguments.map f) := by
  have hpiece : ∀ piece : List Char, (ofPiece piece).map (Part.map f) = ofPiece piece := by
    intro piece
    unfold ofPiece
    split <;> rfl
  have hinterleave : ∀ (pieces : List (List Char)) (arguments : List ε),
      (interleave pieces arguments).map (Part.map f) = interleave pieces (arguments.map f) := by
    intro pieces
    induction pieces with
    | nil => exact fun _ => by simp [interleave]
    | cons piece rest ih =>
      intro arguments
      cases arguments with
      | nil =>
        have hrest := ih []
        rw [List.map_nil] at hrest ⊢
        rw [interleave, List.map_append, hpiece, hrest, interleave]
      | cons argument arguments =>
        rw [List.map_cons, interleave, interleave, List.map_cons, List.map_append, hpiece, ih]
        rfl
  unfold ofText
  rw [List.map_append, hpiece, hinterleave]

theorem Expr.rename_fragmentOf (text : String) (arguments : List Expr) :
    rename ρ (fragmentOf text arguments) = fragmentOf text (arguments.map (rename ρ)) := by
  rw [fragmentOf, fragmentOf, ← Part.ofText_map]
  exact rename_mk _

/-! ### The joins of hops -/

theorem AssociationFilter.rename_expr (ix : Nat) (f : AssociationFilter) :
    (f.expr ix).rename ρ = f.expr (ρ ix) := by
  unfold expr
  cases f.condition with
  | eq value => simp only [Expr.eq, Expr.rename_binary, Expr.rename_field, Expr.rename_literal]
  | isNil => simp only [Expr.rename_isNil, Expr.rename_field]
  | notNil => simp only [Expr.rename_not, Expr.rename_isNil, Expr.rename_field]
  | oneOf values =>
    simp only [Expr.rename_isIn, Expr.rename_field, Expr.rename_list, List.map_map,
      Function.comp_def, Expr.rename_literal]
  | fragment text => simp only [Expr.rename_fragmentOf, List.map_replicate, Expr.rename_field]

theorem Hop.rename_condition (hop : Hop) (parent ix : Nat) :
    (hop.condition parent ix).rename ρ = hop.condition (ρ parent) (ρ ix) := by
  unfold condition
  rw [Expr.rename_conjunction fun f => f.rename_expr ix]
  simp only [Expr.eq, Expr.rename_binary, Expr.rename_field]

/-- The join with every binding of its own level renamed.  A query that it nests has bindings of its
own. -/
def Join.rename {σ : Type} (ρ : Nat → Nat) (j : Join σ) : Join σ :=
  { j.edit (Expr.rename ρ) id with
    association := j.association.map fun ref => ⟨ρ ref.parent, ref.name⟩
    ix := j.ix.map ρ }

/-- The join that a hop makes is the same in all numberings. -/
theorem Hop.rename_join {σ : Type} (hop : Hop) (ctx : Context) (queryPrefix : Option String)
    (declared : Join σ) (parent ix : Nat) :
    (hop.join ctx queryPrefix declared parent ix).rename ρ =
      hop.join ctx queryPrefix declared (ρ parent) (ρ ix) := by
  have hsource : (hop.source : Source σ).edit (Expr.rename ρ) id = hop.source := by
    unfold Hop.source
    cases hop.target.schema <;> rfl
  cases hassociation : hop.association <;>
    simp [Join.rename, Join.edit, Hop.join, HasExprs.rewrite, hsource, hop.rename_condition,
      hassociation]

end QueryPlanner
