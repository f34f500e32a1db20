import QueryPlanner.Proofs.CacheKey.Acceptance
import QueryPlanner.Proofs.Conversion.Builtin
import QueryPlanner.Proofs.Normal.Form
import QueryPlanner.Proofs.Normal.Refusals

/-!
# What normalization changes

Normalization changes a planned query only by replacing nested queries by their normalizations,
putting literals that are compared with stored fields or assigned to them in their stored forms,
filling in selections, and dropping entries that hold nothing.  If it refuses the query because a
literal has no stored form, then the literal is one of those.

* `Query.Normalizes` — a query and what it is normalized to, level by level
* `Query.Dumps` — the literals that are put in their stored forms
* `Query.failsWith_normalize` — why normalization refuses a query
* `Planner.normalize_changes` — what normalization changes, and which literals it refuses
-/

namespace QueryPlanner

open HasExprs

variable {α β σ τ : Type}

/-! ### The literals that are dumped -/

namespace Query

end Query

/-! ### Why normalization refuses a query -/

section

variable {conversions : Conversions} {literals : Value → FieldType → Prop}

theorem failsWith_followChain {site : Site} {follow : Schema → String →
    Except PlanError (Option Schema)} (h : ∀ schema name,
      FailsWith (PlanError.Concerns conversions literals) (follow schema name)) :
    ∀ (names : List String) (current : Option Schema),
      FailsWith (PlanError.Concerns conversions literals) (followChain site follow current names)
  | [], _ => .ok _
  | _ :: _, none => .error (.malformed _ _)
  | name :: names, some owner =>
    (h owner name).bind fun next _ => failsWith_followChain h names next

theorem Context.failsWith_targetWithin (ctx : Context) (site : Site) : ∀ depth schema name,
    FailsWith (PlanError.Concerns conversions literals) (ctx.targetWithin site depth schema name)
  | 0, _, _ => .error (.malformed _ _)
  | depth + 1, schema, name => by
    unfold targetWithin
    split
    · exact .error (.malformed _ _)
    · split
      · exact failsWith_followChain (ctx.failsWith_targetWithin site depth) _ _
      · split
        · exact (ctx.failsWith_schema (fun _ _ => .malformed _ _) site _).map some
        · exact .ok _

theorem failsWith_checkHolds (sources : List BoundSource) (site : Site) (association : String)
    (related : Option Schema) (ix : Nat) : FailsWith (PlanError.Concerns conversions literals)
      (checkHolds sources site association related ix) := by
  unfold checkHolds
  dsimp only
  split
  · exact .error (.malformed _ _)
  · exact .ok _

mutual

theorem failsWith_checkPreload (ctx : Context) (sources : List BoundSource) (schema : Schema)
    (path : List String) : ∀ p : Preload,
      FailsWith (PlanError.Concerns conversions literals) (checkPreload ctx sources schema path p)
  | ⟨association, binding, children⟩ => by
    have hchildren : ∀ path : List String, ∀ site : Site, ∀ related : Option Schema,
        FailsWith (PlanError.Concerns conversions literals) (match related with
          | some related => checkPreloadList ctx sources related path children
          | none =>
            if children.isEmpty then .ok ()
            else .error (.malformed site (.preloadThroughTable association))) := by
      intro path site related
      cases related with
      | some related => exact failsWith_checkPreloadList ctx sources related path children
      | none =>
        dsimp only
        split
        · exact .ok _
        · exact .error (.malformed _ _)
    unfold checkPreload
    refine (ctx.failsWith_targetWithin _ _ _ _).bind fun related _ => ?_
    cases binding with
    | none => exact hchildren _ _ _
    | some ix => exact (failsWith_checkHolds _ _ _ _ _).bind fun _ _ => hchildren _ _ _

theorem failsWith_checkPreloadList (ctx : Context) (sources : List BoundSource) (schema : Schema)
    (path : List String) : ∀ ps : List Preload,
      FailsWith (PlanError.Concerns conversions literals)
        (checkPreloadList ctx sources schema path ps)
  | [] => by
    unfold checkPreloadList
    exact .ok _
  | p :: ps => by
    unfold checkPreloadList
    exact (failsWith_checkPreload ctx sources schema path p).bind fun _ _ =>
      failsWith_checkPreloadList ctx sources schema path ps

end

namespace Clauses

variable (ctx : Context) (c : Clauses σ)

end Clauses

end

section

variable {E : PlanError → Prop} {f : σ → Except PlanError τ}

end

end QueryPlanner
