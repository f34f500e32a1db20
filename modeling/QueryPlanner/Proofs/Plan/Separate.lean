import QueryPlanner.Proofs.Plan.Agreement
import QueryPlanner.Proofs.Plan.Standalone

/-!
# Clauses are read separately

In a level without placeholders a clause is read as it is by itself: into its own place, with the
parameters of its own, and with its placeholders moved up by the number of parameters before it.  So
clauses read in a row succeed if each of them does, and in any order they add the same parameters,
clause by clause.

* `Clauses.taking` — one clause put into its place
* `Level.Separable`, `Clauses.separable_level` — a level whose clauses are read so
* `Level.yields_bindClause_iff` — one clause
* `Level.exists_alone`, `Level.foldlM_alone` — clauses in a row
* `Clauses.tiles_alone` — the placeholders of a clause number its own parameters
-/

namespace QueryPlanner

open HasExprs Binder

variable {σ : Type}

/-- The item with every placeholder moved up by `n`. -/
abbrev Item.shift (n : Nat) : Item Query → Item Query := map (Expr.shift n) (Query.shift n)

/-! ### Putting a clause into its place -/

/-- A level with one clause of another level in the place of its own. -/
def Clauses.taking (c d : Clauses σ) : Clause → Clauses σ
  | .withCte => { c with ctes := d.ctes }
  | .distinct => { c with distinct := d.distinct }
  | .select => { c with select := d.select }
  | .fromSource => { c with root := d.root }
  | .join => { c with joins := d.joins }
  | .filter => { c with wheres := d.wheres }
  | .groupBy => { c with groupBys := d.groupBys }
  | .having => { c with havings := d.havings }
  | .windows => { c with windows := d.windows }
  | .combination => { c with combinations := d.combinations }
  | .orderBy => { c with orderBys := d.orderBys }
  | .limit => { c with limit := d.limit }
  | .offset => { c with offset := d.offset }
  | .update => { c with updates := d.updates }
  | .preload => { c with preloads := d.preloads }
  | .lock => { c with lock := d.lock }

theorem Clauses.items_taking_self (c d : Clauses σ) (clause : Clause) :
    (c.taking d clause).items clause = d.items clause := by
  cases clause <;> rfl

theorem Clauses.items_taking_other (c d : Clauses σ) {clause other : Clause} (h : other ≠ clause) :
    (c.taking d clause).items other = c.items other := by
  cases clause <;> cases other <;> first | exact absurd rfl h | rfl

namespace Level

/-- Reading a clause puts what it is read as into its place. -/
theorem bindClause_taking (l : Level) (out : Clauses Query) {clause : Clause}
    (hclause : clause ≠ .preload) :
    l.bindClause out clause = (out.taking · clause) <$> l.bindClause {} clause := by
  cases clause
  case preload => exact absurd rfl hclause
  all_goals
    simp only [bindClause, map_bind, map_pure]
    rfl

/-! ### Separable levels -/

/-- A level whose clauses are read alike behind any parameters. -/
def Separable (l : Level) : Prop := ∀ front (out : Clauses Query) clause,
  Carries front (Clauses.edit (Expr.shift front.length) (Query.shift front.length))
    (l.bindClause out clause)
    (l.bindClause (out.edit (Expr.shift front.length) (Query.shift front.length)) clause)

/-- What a clause is read as by itself, with the parameters of its own. -/
abbrev ReadsAlone (l : Level) (clause : Clause) (alone : Clauses Query)
    (own : List BoundParameter) : Prop :=
  (l.bindClause {} clause).Yields [] alone own

variable {l : Level} {front qs : List BoundParameter} {out out' : Clauses Query}

/-- **A clause is read** as it is by itself, behind what was read before it. -/
theorem yields_bindClause_iff (h : l.Separable) {clause : Clause} (hclause : clause ≠ .preload) :
    (l.bindClause out clause).Yields front out' qs ↔ ∃ alone own, l.ReadsAlone clause alone own ∧
      out' = out.taking (alone.edit (Expr.shift front.length) (Query.shift front.length)) clause ∧
      qs = front ++ own := by
  have hempty : ({} : Clauses Query).edit (Expr.shift front.length) (Query.shift front.length) =
      {} := rfl
  have hcarries := h front {} clause
  rw [hempty] at hcarries
  rw [bindClause_taking l out hclause, yields_map]
  constructor
  · rintro ⟨d, hd, rfl⟩
    obtain ⟨alone, own, halone, rfl, rfl⟩ := hcarries.alone hd
    exact ⟨alone, own, halone, rfl, rfl⟩
  · rintro ⟨alone, own, halone, rfl, rfl⟩
    exact ⟨_, hcarries.behind halone, rfl⟩

/-- Clauses that are read in a row are each read by themselves. -/
theorem exists_alone (h : l.Separable) {clauses : List Clause} (hpreload : .preload ∉ clauses)
    (hyields : (clauses.foldlM l.bindClause out).Yields front out' qs) :
    ∀ clause ∈ clauses, ∃ alone own, l.ReadsAlone clause alone own := by
  induction clauses generalizing out front with
  | nil => exact fun _ hc => nomatch hc
  | cons clause clauses ih =>
    rw [List.foldlM_cons] at hyields
    rw [List.mem_cons, not_or] at hpreload
    obtain ⟨mid, rs, hfirst, hrest⟩ := yields_bind.mp hyields
    obtain ⟨alone, own, halone, -⟩ := (yields_bindClause_iff h (Ne.symm hpreload.1)).mp hfirst
    intro c hc
    rcases List.mem_cons.mp hc with rfl | hc
    · exact ⟨alone, own, halone⟩
    · exact ih hpreload.2 hrest c hc

/-- **Clauses in a row.**  If each of them is read by itself, they are read in a row, with the
parameters of each in turn; and a clause holds what it is read as by itself, moved up by the number
of parameters before it. -/
theorem foldlM_alone (h : l.Separable) {alone : Clause → Clauses Query}
    {own : Clause → List BoundParameter} {clauses : List Clause} (hnodup : clauses.Nodup)
    (hpreload : .preload ∉ clauses)
    (halone : ∀ clause ∈ clauses, l.ReadsAlone clause (alone clause) (own clause))
    (out : Clauses Query) (front : List BoundParameter) :
    ∃ out', (clauses.foldlM l.bindClause out).Yields front out' (front ++ clauses.flatMap own) ∧
      (∀ before clause after, clauses = before ++ clause :: after →
        out'.items clause = ((alone clause).items clause).map
          (Item.shift (front.length + (before.flatMap own).length))) ∧
      ∀ clause, clause ∉ clauses → out'.items clause = out.items clause := by
  induction clauses generalizing out front with
  | nil => exact ⟨out, yields_pure.mpr (by simp), fun before => by simp, fun _ _ => rfl⟩
  | cons clause clauses ih =>
    obtain ⟨hfresh, hnodup⟩ := List.nodup_cons.mp hnodup
    rw [List.mem_cons, not_or] at hpreload
    obtain ⟨hfirst, hrest⟩ := List.forall_mem_cons.mp halone
    obtain ⟨out', hyields, hitems, hothers⟩ := ih hnodup hpreload.2 hrest
      (out.taking ((alone clause).edit (Expr.shift front.length) (Query.shift front.length)) clause)
      (front ++ own clause)
    refine ⟨out', ?_, ?_, fun other hother => ?_⟩
    · rw [List.foldlM_cons, List.flatMap_cons, ← List.append_assoc]
      refine yields_bind.mpr ⟨_, _, ?_, hyields⟩
      exact (yields_bindClause_iff h (Ne.symm hpreload.1)).mpr ⟨_, _, hfirst, rfl, rfl⟩
    · intro before c after hsplit
      cases before with
      | nil =>
        obtain ⟨rfl, rfl⟩ := List.cons.inj hsplit
        rw [hothers clause hfresh, Clauses.items_taking_self, Clauses.items_edit]
        rfl
      | cons first before =>
        obtain ⟨rfl, rfl⟩ := List.cons.inj hsplit
        rw [hitems before c after rfl, List.flatMap_cons, List.length_append, List.length_append,
          Nat.add_assoc]
    · rw [List.mem_cons, not_or] at hother
      rw [hothers other hother.2, Clauses.items_taking_other _ _ hother.1]

end Level

/-! ### Levels without placeholders -/

/-- **The clauses of a level without placeholders** are read alike behind any parameters. -/
theorem Clauses.separable_level {c : Clauses Query} {ctx : Context} {b : Bindings Query}
    (hb : c.resolve ctx = .ok b) (hnone : Query.slots .all ⟨c⟩ = []) :
    (c.level ctx b).Separable := by
  intro front out clause
  obtain ⟨hitems, hjoins, hconditions⟩ := Clauses.movable_level hb hnone
    fun _ q _ hunplaced => q.carries_plan hunplaced front
  exact Level.carries_bindClause hitems hjoins hconditions out clause

/-- Reading a clause by itself puts the placeholders of the parameters that it adds in their places,
in order. -/
theorem Clauses.tiles_alone {c : Clauses Query} {ctx : Context} {b : Bindings Query}
    (hb : c.resolve ctx = .ok b) (hnone : Query.slots .all ⟨c⟩ = []) {clause : Clause}
    (hclause : clause ≠ .preload) {alone : Clauses Query} {own : List BoundParameter}
    (h : (c.level ctx b).ReadsAlone clause alone own) :
    Slot.Tiles ((alone.items clause).flatMap (Item.details .numbers)) 0 own.length := by
  obtain ⟨-, hchain⟩ := Level.bindClause_read hclause h
  have hknown : ∀ clause, ∀ i ∈ (c.level ctx b).prepared.items clause,
      i.Holds (fun e => e.details .numbers = []) fun plan : NestedPlan => ∀ ctx ps t qs,
        (plan ctx).Yields ps t qs → Slot.Tiles (t.slots ctx.operation) ps.length qs.length := by
    intro clause i hi
    rw [prepared_level, items_edit] at hi
    obtain ⟨declared, hdeclared, rfl⟩ := List.mem_map.mp hi
    have hitem := Query.prepared_unplaced (R := fun q => q.slots .all = []) hb hnone
      (fun _ _ _ h => h) clause declared hdeclared
    cases declared with
    | expr e => exact hitem
    | nested q => exact fun ctx ps t qs hyields => (q.plan_tiles hitem ctx ps t qs hyields).1
  refine hchain.tiles fun task htask ps i qs hperforms => ?_
  refine Task.performs_cases (S := fun i => Slot.Tiles (i.details .numbers) ps.length qs.length)
    hperforms (Clauses.forall_tasks hknown [clause] task (by simpa using htask))
    (fun e type a he _ hread => ?_) fun plan t hplan hyields => hplan _ ps t qs hyields
  rw [Item.details_expr]
  exact Scope.reads_tiles e he type ps a qs hread

end QueryPlanner
