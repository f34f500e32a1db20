import QueryPlanner.Proofs.Normal.Stored

/-!
# Keys of checked expressions

Two passes put literals in their stored forms: the check of an expression, which passes it on with
these literals in place, and the writing of its key, which leaves the expression as it is.  Each
goes through comparisons and membership tests on its own.  On what the check accepts they choose
the same literals and the same forms, so the key could as well be written from what is passed on.

* `LiteralForm.asWritten` — no literal has a form but its own
* `Expr.settle_asWritten` — with that, an expression is in its stored form
* `Clauses.key_of_check` — the key of an expression is the key of what the check passes on
-/

namespace QueryPlanner

variable {σ : Type}

/-- Literals are taken as they are written: no field gives one another form. -/
def LiteralForm.asWritten : LiteralForm := fun _ _ _ => none

namespace Expr

/-- An expression is in its stored form, if no field gives a literal another one. -/
theorem settle_asWritten (e : Expr) : ∀ opposite,
    e.settle LiteralForm.asWritten opposite = e := by
  refine Expr.induction (P := fun e => ∀ opposite,
    e.settle LiteralForm.asWritten opposite = e) ?_ e
  intro n ih opposite
  have hform : ∀ value, storedLiteral? LiteralForm.asWritten value opposite = none := by
    intro value
    unfold storedLiteral?
    split <;> rfl
  have hstored : ∀ m : Node Expr, m.stored LiteralForm.asWritten opposite = m := by
    intro m
    cases m with
    | literal value => rw [Node.stored, hform, Option.getD_none]
    | _ => rfl
  have hchildren : (n.against id opposite).map (fun child =>
      child.1.settle LiteralForm.asWritten child.2) = (n.against id opposite).map (·.1) :=
    Node.map_congr fun child hchild => ih child.1 (mem_of_mem_against hchild) child.2
  rw [settle_mk, hstored, hchildren, Node.map_fst_against]

/-- A key with stored forms is a key of what has them in place. -/
theorem key_settle (form : LiteralForm) (e : Expr) :
    (e.settle form .nothing).key LiteralForm.asWritten = e.key form := by
  have hkey : Guarded e.RangeFree (e.settle form .nothing).code (e.key form) :=
    e.guarded_keyed .nothing
  have hsettled : Guarded (e.settle form .nothing).RangeFree (e.settle form .nothing).code
      ((e.settle form .nothing).key LiteralForm.asWritten) :=
    ((e.settle form .nothing).guarded_keyed .nothing).of_eq Iff.rfl
      (congrArg code (settle_asWritten _ _))
  ext node
  rw [hsettled node, hkey node, rangeFree_settle]

end Expr

/-- **The key of a checked expression.**  Whatever expression the check passes on at a level, it is
the given one with just those literals in their stored forms that keys hold in these forms, given
the sources of the level; and the key of the given expression is that of the one passed on, its
literals taken as they are written. -/
theorem Clauses.key_of_check (ctx : Context) (c : Clauses σ) (clause : Clause) (text : String)
    (e e' : Expr) (h : (c.references ctx clause text).check e = .ok e') :
    e.key (literalForm ctx c.sources) = e'.key LiteralForm.asWritten ∧
      e' = e.settle (literalForm ctx c.sources) .nothing := by
  have hsound := References.guarded_checked (r := c.references ctx clause text) e
  obtain ⟨-, rfl⟩ := hsound.eq_ok_iff.mp h
  exact ⟨(e.key_settle _).symm, rfl⟩

/-- Offers at given prices, at listed ones or at none, and not of a given seller. -/
def Expr.offered (prices listed seller : Value) : Expr :=
  (((Expr.field 0 "prices").eq (.literal prices)).and
    (.isIn (.field 0 "prices") (.list [.literal listed, .literal .null]))).and
    ((Expr.literal seller).ne (.field 0 "seller"))

/-- Prices that are given as whole numbers are keyed as they are stored, and so is the seller, on
whichever side of the comparison each stands. -/
theorem Clauses.key_of_check_offered :
    let ctx : Context := ⟨.offers, .builtin, Dialect.postgres.capabilities, .all, none⟩
    let level : Clauses Query := { sources := [.table "offers" (some "Offer") none] }
    let e : Expr := .offered (.list [.int 1]) (.list [.int 2])
      (.string "00000000-0000-0000-0000-00000000002A")
    ∃ e', (level.references ctx .filter "offered").check e = .ok e' ∧
      e.key LiteralForm.asWritten ≠ e'.key LiteralForm.asWritten ∧
      e.key (literalForm ctx level.sources) = e'.key LiteralForm.asWritten ∧
      e' = e.settle (literalForm ctx level.sources) .nothing := by
  intro ctx level e
  have hchanged : ((level.references ctx .filter "offered").check e).toOption.map (fun e' =>
      decide (e.key LiteralForm.asWritten = e'.key LiteralForm.asWritten)) = some false := by
    decide +kernel
  obtain ⟨e', hcheck, hkeys⟩ := Option.map_eq_some_iff.mp hchanged
  have hok := Except.toOption_eq_some_iff.mp hcheck
  exact ⟨e', hok, of_decide_eq_false hkeys, key_of_check ctx level .filter "offered" e e' hok⟩

end QueryPlanner
