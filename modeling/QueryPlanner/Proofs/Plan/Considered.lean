import QueryPlanner.Proofs.Expr.Inert
import QueryPlanner.Proofs.Plan.Blocks
import QueryPlanner.Proofs.Plan.Prepared

/-!
# What planning considers of a level

Most of what a level holds is planned.  The exceptions are the source of an association join, since
its sources come from the registry, and the fields of a selection, since they are chosen later.
What is gathered in reading order from what is considered, is gathered in the same order from the
level that is planned in its place: writing conditions out moves nothing, and what the registry adds
holds nothing that came from outside.

* `Clauses.considered` — the level without what is passed over
* `Clauses.lookup_conditions` — where the condition of an association join is found
* `Clauses.gather_prepared` — gathering from what is considered and from what is planned
-/

namespace QueryPlanner

open HasExprs

variable {σ τ δ : Type} {ctx : Context} {queryPrefix : Option String}

/-- A join as planning considers it: an association join has no source of its own. -/
def Join.considered (j : Join σ) : Join σ :=
  { j with source := if j.association.isSome then none else j.source }

/-- A level as planning considers it. -/
def Clauses.considered (c : Clauses σ) : Clauses σ :=
  { c with
    joins := c.joins.map Join.considered
    select := c.select.map fun s => { expr := s.expr } }

/-! ### The conditions of association joins -/

/-- The condition that is declared beside an association. -/
def Join.besideAssociation (j : Join σ) : Option Expr :=
  if j.association.isSome then j.on else none

/-- The condition that is declared beside the association of a binding. -/
def Clauses.besideAssociation (c : Clauses σ) : Nat → Option Expr
  | 0 => none
  | i + 1 => c.joins[i]?.bind Join.besideAssociation

/-- A condition that is declared beside an association is found at the binding of its join. -/
theorem Clauses.lookup_conditions {c : Clauses σ} {b : Bindings σ} (h : c.resolve ctx = .ok b)
    (ix : Nat) : b.conditions.lookup ix = c.besideAssociation ix := by
  obtain ⟨root, source, a, -, -, ha, -, -, -, hconditions⟩ := resolve_cases h
  have hfound : a.conditions.lookup ix =
      if ix ≤ c.joins.length then c.besideAssociation ix else none := by
    refine Arena.foldlM_declared (fun k a => a.conditions.lookup ix =
      if ix ≤ k then c.besideAssociation ix else none) ?_ ?_ ha
    · intro k j a a' hj hinv hstep
      rcases Arena.bindJoin_cases hstep with
        ⟨s, b, hown, -, -, rfl⟩ | ⟨ref, owner, association, hops, href, -, -, -, -, rfl⟩
      · have hlast : c.besideAssociation (k + 1) = none := by
          simp [besideAssociation, hj, Join.besideAssociation, hown]
        simp only [hinv]
        rcases Nat.lt_trichotomy ix (k + 1) with hix | rfl | hix
        · rw [if_pos (by omega), if_pos (by omega)]
        · rw [if_neg (by omega), if_pos (by omega), hlast]
        · rw [if_neg (by omega), if_neg (by omega)]
      · have hlast : c.besideAssociation (k + 1) = j.on := by
          simp [besideAssociation, hj, Join.besideAssociation, href]
        have hother : ix ≠ k + 1 → (j.on.toList.map fun on => (k + 1, on)).lookup ix = none := by
          intro hne
          cases j.on <;> simp [List.lookup_cons, beq_false_of_ne hne]
        simp only [Arena.addHops, List.lookup_append, hinv]
        rcases Nat.lt_trichotomy ix (k + 1) with hix | rfl | hix
        · rw [if_pos (by omega), if_pos (by omega), hother (by omega), Option.or_none]
        · rw [if_neg (by omega), if_pos (by omega), hlast]
          cases j.on <;> simp
        · rw [if_neg (by omega), if_neg (by omega), hother (by omega), Option.or_none]
    · cases ix <;> simp [besideAssociation]
  rw [hconditions, hfound]
  split
  · rfl
  · obtain ⟨i, rfl⟩ := Nat.exists_eq_succ_of_ne_zero (n := ix) (by omega)
    have habsent : c.joins[i]? = none := List.getElem?_eq_none (by omega)
    simp [besideAssociation, habsent]

/-- The joins of a block before its last one have bindings beyond those of the declared joins, so no
condition is declared for them. -/
theorem Clauses.lookup_conditions_fresh {c : Clauses σ} {b : Bindings σ} (h : c.resolve ctx = .ok b)
    {blocks : List (List (Join σ))} {count : Nat}
    (hfresh : (blocks.flatMap List.dropLast).map Join.ix =
      (List.range' (c.joins.length + 1) count).map some) {block : List (Join σ)}
    (hblock : block ∈ blocks) {hop : Join σ} (hhop : hop ∈ block.dropLast) :
    b.conditions.lookup (hop.ix.getD 0) = none := by
  have hmem : hop.ix ∈ (blocks.flatMap List.dropLast).map Join.ix :=
    List.mem_map_of_mem (List.mem_flatMap.mpr ⟨block, hblock, hhop⟩)
  rw [hfresh] at hmem
  obtain ⟨ix, hix, heq⟩ := List.mem_map.mp hmem
  have hlt : c.joins.length < ix := by
    have := List.mem_range'_1.mp hix
    omega
  obtain ⟨k, rfl⟩ := Nat.exists_eq_succ_of_ne_zero (n := ix) (by omega)
  have habsent : c.joins[k]? = none := List.getElem?_eq_none (by omega)
  rw [← heq, Option.getD_some, lookup_conditions h, besideAssociation, habsent]
  rfl

/-! ### Gathering -/

/-- What is gathered from an item, given what is gathered from expressions and nested queries. -/
def Item.gather (ρ : Expr → List δ) (κ : σ → List δ) : Item σ → List δ
  | expr e => ρ e
  | nested q => κ q

/-- What is gathered from expressions in reading order, and not found in what the registry makes. -/
structure Expr.Gathers (ρ : Expr → List δ) : Prop where
  opened : ∀ ix e, ρ (e.opened ix) = ρ e
  and : ∀ left right, ρ (left.and right) = ρ left ++ ρ right
  inert : ∀ e, e.Inert → ρ e = []

theorem Item.gather_ofExprs {X : Type} [HasExprs X] (ρ : Expr → List δ) (κ : σ → List δ) (x : X) :
    (ofExprs x).flatMap (gather ρ κ) = (exprs x).flatMap ρ := by
  rw [ofExprs, List.flatMap_map]
  rfl

section

variable {ρ : Expr → List δ} {κ : σ → List δ} (hρ : Expr.Gathers ρ)

include hρ

theorem Expr.gather_conjunction? (left right : Option Expr) :
    (exprs (conjunction? left right)).flatMap ρ =
      (exprs left).flatMap ρ ++ (exprs right).flatMap ρ := by
  cases left <;> cases right <;> simp [conjunction?, exprs, hρ.and]

theorem Expr.gather_opened (ix : Nat) (e : Option Expr) :
    (exprs (e.map (opened ix))).flatMap ρ = (exprs e).flatMap ρ := by
  cases e <;> simp [exprs, hρ.opened]

/-- A join that is planned holds what it declares, and the condition of its association. -/
theorem Join.gather_prepared (conditions : List (Nat × Expr)) (j : Join σ) :
    (j.prepared conditions).items.flatMap (Item.gather ρ κ) =
      j.items.flatMap (Item.gather ρ κ) ++
        (exprs (conditions.lookup (j.ix.getD 0))).flatMap ρ := by
  simp only [items, prepared, condition, List.flatMap_append, Item.gather_ofExprs,
    Expr.gather_conjunction? hρ, Expr.gather_opened hρ, List.append_assoc]

/-- Of an association, nothing is gathered but the condition declared beside it. -/
theorem Hop.gather_prepared (conditions : List (Nat × Expr)) (hop : Hop) (j : Join σ)
    (parent ix : Nat) :
    ((hop.join ctx queryPrefix j parent ix).prepared conditions).items.flatMap
        (Item.gather ρ κ) = (exprs (conditions.lookup ix)).flatMap ρ := by
  have hcondition : ρ (hop.condition parent ix) = [] :=
    hρ.inert _ (hop.inert_condition parent ix)
  rw [Join.gather_prepared hρ, hop.items_join]
  simp [Item.gather, hcondition, Hop.join]

/-- From the block of a join is gathered what is gathered from the join as it is considered. -/
theorem Join.Becomes.gather {bound : Nat → Option BoundSource} {conditions : List (Nat × Expr)}
    {ix : Nat} {j : Join σ} {block : List (Join σ)} (h : j.Becomes ctx queryPrefix bound ix block)
    (hlookup : conditions.lookup ix = j.besideAssociation)
    (hfresh : ∀ hop ∈ block.dropLast, conditions.lookup (hop.ix.getD 0) = none) :
    block.flatMap (fun hop => (hop.prepared conditions).items.flatMap (Item.gather ρ κ)) =
      j.considered.items.flatMap (Item.gather ρ κ) := by
  obtain ⟨last, hlast, hix, -⟩ := h.last
  cases h with
  | explicit own =>
    have hnone : conditions.lookup ix = none := by simp [hlookup, besideAssociation, own]
    have hitems : ({ j with ix := some ix } : Join σ).items = j.considered.items := by
      simp [items, considered, own]
    simp [Join.gather_prepared hρ, hnone, hitems, exprs]
  | @along ref steps target hops fresh declared earlier leads makes =>
    have hblock : ∀ hop ∈ (placeHops ref.parent fresh ix hops).map (fun p =>
        p.2.2.join ctx queryPrefix j p.1 p.2.1),
        (hop.prepared conditions).items.flatMap (Item.gather ρ κ) =
          (exprs (conditions.lookup (hop.ix.getD 0))).flatMap ρ := by
      intro hop hhop
      obtain ⟨p, -, rfl⟩ := List.mem_map.mp hhop
      exact Hop.gather_prepared hρ conditions p.2.2 j p.1 p.2.1
    have hitems : j.considered.items = (Item.ofExprs j.on : List (Item σ)) := by
      simp [items, considered, declared]
    have hdeclared : conditions.lookup ix = j.on := by
      simp [hlookup, besideAssociation, declared]
    -- only the last hop of the block has a condition beside that of its association
    obtain ⟨others, hothers⟩ := List.getLast?_eq_some_iff.mp hlast
    rw [hothers, List.dropLast_concat] at hfresh
    rw [List.flatMap_def, List.map_congr_left hblock, ← List.flatMap_def, hothers,
      List.flatMap_append, List.flatMap_singleton, hix, Option.getD_some, hdeclared, hitems,
      Item.gather_ofExprs, List.flatMap_eq_nil_iff.mpr, List.nil_append]
    intro hop hhop
    rw [hfresh hop hhop]
    rfl

end

/-- What is gathered from the entries of a list, each written out, is what is gathered from them. -/
theorem Item.gather_ofExprs_map {X : Type} [HasExprs X] {ρ : Expr → List δ} {κ : σ → List δ}
    {f : X → X} (hf : ∀ x, (exprs (f x)).flatMap ρ = (exprs x).flatMap ρ) (xs : List X) :
    (ofExprs (xs.map f)).flatMap (gather ρ κ) = (ofExprs xs).flatMap (gather ρ κ) := by
  have hlist : ∀ xs : List X, exprs xs = xs.flatMap exprs := fun _ => rfl
  rw [gather_ofExprs, gather_ofExprs, hlist, hlist, List.flatMap_map, List.flatMap_assoc,
    List.flatMap_assoc]
  simp only [hf]

section

variable {ρ : Expr → List δ} {κ : σ → List δ} (hρ : Expr.Gathers ρ)

include hρ

theorem GroupBy.gather_written (x : GroupBy) :
    (HasExprs.exprs x.written).flatMap ρ = (HasExprs.exprs x).flatMap ρ := by
  cases x with
  | exprs es => rfl
  | pinned names =>
    refine List.flatMap_eq_nil_iff.mpr fun e he => ?_
    obtain ⟨name, -, rfl⟩ := List.mem_map.mp he
    exact hρ.inert _ (Expr.inert_field 0 name)

theorem OrderBy.gather_written (x : OrderBy) :
    (exprs x.written).flatMap ρ = (exprs x).flatMap ρ := by
  cases x with
  | items ordered => rfl
  | pinned names =>
    refine List.flatMap_eq_nil_iff.mpr fun e he => ?_
    obtain ⟨o, ho, he⟩ := List.mem_flatMap.mp he
    obtain ⟨name, -, rfl⟩ := List.mem_map.mp ho
    rw [List.mem_singleton.mp he]
    exact hρ.inert _ (Expr.inert_field 0 name.2)

/-- From the joins of a level is gathered what is gathered from the declared ones. -/
theorem Clauses.gather_joins {c : Clauses σ} {b : Bindings σ} (h : c.resolve ctx = .ok b) :
    b.joins.flatMap (fun j => (j.prepared b.conditions).items.flatMap (Item.gather ρ κ)) =
      c.joins.flatMap fun j => j.considered.items.flatMap (Item.gather ρ κ) := by
  obtain ⟨-, -, blocks, hflatten, hlength, hfresh, hbecomes⟩ := resolve_blocks h
  rw [hflatten, ← List.flatMap_id, List.flatMap_assoc]
  refine congrArg List.flatten (List.ext_getElem? fun i => ?_)
  rw [List.getElem?_map, List.getElem?_map]
  cases hj : c.joins[i]? with
  | none =>
    have hnone : blocks[i]? = none := by
      rw [List.getElem?_eq_none_iff] at hj ⊢
      omega
    rw [hnone]
    rfl
  | some j =>
    obtain ⟨block, hblock, hblock'⟩ := hbecomes i j hj
    have hlookup : b.conditions.lookup (i + 1) = j.besideAssociation := by
      rw [lookup_conditions h, besideAssociation, hj, Option.bind_some]
    rw [hblock, Option.map_some, Option.map_some, id, hblock'.gather hρ hlookup]
    exact fun hop hhop => lookup_conditions_fresh h hfresh (List.mem_of_getElem? hblock) hhop

/-- **Gathering from a planned level.**  In every clause of the level that is planned, one gathers
what is to be gathered from the given level, as far as it is considered. -/
theorem Clauses.gather_prepared {c : Clauses σ} {b : Bindings σ} (h : c.resolve ctx = .ok b)
    (clause : Clause) :
    ((c.prepared b).items clause).flatMap (Item.gather ρ κ) =
      (c.considered.items clause).flatMap (Item.gather ρ κ) := by
  cases clause with
  | filter | having =>
    refine Item.gather_ofExprs_map (fun x => ?_) _
    rw [exprs_rewrite, List.flatMap_map]
    simp only [hρ.opened]
  | groupBy => exact Item.gather_ofExprs_map (GroupBy.gather_written hρ) _
  | orderBy => exact Item.gather_ofExprs_map (OrderBy.gather_written hρ) _
  | join =>
    have hjoins : b.joins.flatMap (fun j =>
        (j.prepared b.conditions).items.flatMap (Item.gather ρ κ)) = _ := gather_joins hρ h
    simp only [items, prepared, considered, List.flatMap_map, List.flatMap_assoc]
    exact hjoins
  | _ => rfl

end

end QueryPlanner
