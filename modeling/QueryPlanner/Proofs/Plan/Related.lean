import Mathlib.Data.List.Forall2
import QueryPlanner.Proofs.Plan.Prepared

/-!
# Levels that differ in their items only

Two levels of one frame hold equally many items in every clause, and a relation between them may be
asked for item by item.  Binding their sources takes the same steps, so the bound joins are related
as the declared ones are, and so are the levels that are planned in place of the two.

* `Clauses.Related` — levels of one frame with related items
* `Expr.Compatible` — a relation that is kept where conditions are written out and joined
* `Clauses.Related.bindsAlike` — related levels have the same bound sources
* `Clauses.Related.prepared` — and are prepared alike
* `Clauses.Related.tasks` — and read related items for the same
-/

namespace QueryPlanner

open HasExprs

variable {α β γ δ ε σ τ : Type}

/-! ### Lists -/

/-- Related lists are related part by part. -/
theorem List.forall₂_of_append {R : α → β → Prop} {as as' : List α} {bs bs' : List β}
    (hlen : as.length = bs.length) (h : List.Forall₂ R (as ++ as') (bs ++ bs')) :
    List.Forall₂ R as bs ∧ List.Forall₂ R as' bs' := by
  have hhead := List.forall₂_take_append _ _ _ h
  have htail := List.forall₂_drop_append _ _ _ h
  rw [← hlen, List.take_left] at hhead
  rw [← hlen, List.drop_left] at htail
  exact ⟨hhead, htail⟩

/-- Lists whose elements agree in what determines how much they hold, and hold related things, have
elements that hold related things. -/
theorem List.forall₂_of_map_eq {R : α → β → Prop} {u : γ → ε} {v : δ → ε} {s : γ → List α}
    {t : δ → List β} (hlen : ∀ x y, u x = v y → (s x).length = (t y).length) :
    ∀ {xs : List γ} {ys : List δ}, xs.map u = ys.map v →
      List.Forall₂ R (xs.flatMap s) (ys.flatMap t) →
      List.Forall₂ (fun x y => u x = v y ∧ List.Forall₂ R (s x) (t y)) xs ys
  | [], [], _, _ => .nil
  | x :: xs, y :: ys, huv, h => by
    simp only [List.map_cons, List.cons.injEq] at huv
    rw [List.flatMap_cons, List.flatMap_cons] at h
    obtain ⟨hhead, htail⟩ := List.forall₂_of_append (hlen x y huv.1) h
    exact .cons ⟨huv.1, hhead⟩ (List.forall₂_of_map_eq hlen huv.2 htail)

theorem List.map_eq_of_forall₂ {u : γ → ε} {v : δ → ε} {xs : List γ} {ys : List δ}
    (h : List.Forall₂ (fun x y => u x = v y) xs ys) : xs.map u = ys.map v := by
  rw [← List.forall₂_eq_eq_eq, List.forall₂_map_left_iff, List.forall₂_map_right_iff]
  exact h

theorem List.forall₂_zipIdx {R : α → β → Prop} {xs : List α} {ys : List β}
    (h : List.Forall₂ R xs ys) : ∀ k,
      List.Forall₂ (fun p q => R p.1 q.1 ∧ p.2 = q.2) (xs.zipIdx k) (ys.zipIdx k) := by
  induction h with
  | nil => exact fun _ => .nil
  | cons head _ ih => exact fun k => .cons ⟨head, rfl⟩ (ih (k + 1))

/-- Entries of one key are found in related tables alike. -/
theorem List.rel_lookup {R : Nat → α → β → Prop} {as : List (Nat × α)} {bs : List (Nat × β)}
    (h : List.Forall₂ (fun p q => p.1 = q.1 ∧ R p.1 p.2 q.2) as bs) (key : Nat) :
    Option.Rel (R key) (as.lookup key) (bs.lookup key) := by
  induction h with
  | nil => exact .none
  | @cons p q as bs head _ ih =>
    obtain ⟨k, a⟩ := p
    obtain ⟨k', b⟩ := q
    obtain ⟨rfl, hab⟩ := head
    simp only [List.lookup_cons]
    cases hkey : key == k with
    | true =>
      obtain rfl := eq_of_beq hkey
      exact .some hab
    | false => exact ih

/-! ### Related syntax -/

/-- A relation between expressions that conditions keep when they are written out and joined. -/
structure Expr.Compatible (Q : Expr → Expr → Prop) : Prop where
  refl : ∀ e, Q e e
  opened : ∀ ix e e', Q e e' → Q (e.opened ix) (e'.opened ix)
  and : ∀ left left' right right', Q left left' → Q right right' →
    Q (left.and right) (left'.and right')

/-- Syntax of one frame with related expressions. -/
structure HasExprs.Related {X : Type} [HasExprs X] (Q : Expr → Expr → Prop) (x y : X) : Prop where
  frame : frame x = frame y
  exprs : List.Forall₂ Q (exprs x) (exprs y)

section

variable {X : Type} [HasExprs X] {Q : Expr → Expr → Prop}

theorem HasExprs.Related.rewrite {f : Expr → Expr} (hf : ∀ e e', Q e e' → Q (f e) (f e')) {x y : X}
    (h : Related Q x y) : Related Q (rewrite f x) (rewrite f y) := by
  refine ⟨?_, ?_⟩
  · rw [frame_rewrite, frame_rewrite, h.frame]
  · rw [exprs_rewrite, exprs_rewrite, List.forall₂_map_left_iff, List.forall₂_map_right_iff]
    exact h.exprs.imp hf

theorem HasExprs.related_list {xs ys : List X} :
    Related Q xs ys ↔ List.Forall₂ (Related Q) xs ys := by
  constructor
  · intro h
    refine (List.forall₂_of_map_eq (fun _ _ => length_exprs) h.frame h.exprs).imp ?_
    exact fun x y hxy => ⟨hxy.1, hxy.2⟩
  · intro h
    refine ⟨List.map_eq_of_forall₂ (h.imp fun x y hxy => hxy.frame), ?_⟩
    exact List.rel_flatMap h fun x y hxy => hxy.exprs

/-- Lists with related entries stay so where every entry is replaced alike. -/
theorem HasExprs.Related.map {Y : Type} [HasExprs Y] {f : X → Y}
    (hf : ∀ x y, Related Q x y → Related Q (f x) (f y)) {xs ys : List X} (h : Related Q xs ys) :
    Related Q (xs.map f) (ys.map f) := by
  rw [related_list, List.forall₂_map_left_iff, List.forall₂_map_right_iff]
  exact (related_list.mp h).imp hf

theorem HasExprs.related_option {x y : Option X} :
    Related Q x y ↔ Option.Rel (Related Q) x y := by
  constructor
  · rintro ⟨hframe, hexprs⟩
    cases x <;> cases y <;> simp only [HasExprs.frame, HasExprs.rewrite, Option.map_none,
      Option.map_some, reduceCtorEq, Option.some.injEq] at hframe
    · exact .none
    · exact .some ⟨hframe, by simpa [HasExprs.exprs] using hexprs⟩
  · intro h
    cases h with
    | none => exact ⟨rfl, .nil⟩
    | some h => exact ⟨congrArg some h.frame, by simpa [HasExprs.exprs] using h.exprs⟩

/-- What may be there stays related where it is replaced alike. -/
theorem HasExprs.Related.mapOption {Y : Type} [HasExprs Y] {f : X → Y}
    (hf : ∀ x y, Related Q x y → Related Q (f x) (f y)) {x y : Option X} (h : Related Q x y) :
    Related Q (x.map f) (y.map f) := by
  cases related_option.mp h with
  | none => exact ⟨rfl, .nil⟩
  | some hxy => exact related_option.mpr (.some (hf _ _ hxy))

theorem HasExprs.related_expr {e e' : Expr} : Related Q e e' ↔ Q e e' := by
  constructor
  · rintro ⟨-, hexprs⟩
    cases hexprs with
    | cons h _ => exact h
  · exact fun h => ⟨rfl, .cons h .nil⟩

theorem HasExprs.related_refl (hQ : ∀ e, Q e e) (x : X) : Related Q x x :=
  ⟨rfl, List.forall₂_same.mpr fun e _ => hQ e⟩

/-- Groupings stay related when they are written out. -/
theorem GroupBy.related_written (hQ : ∀ e, Q e e) {x y : GroupBy}
    (h : HasExprs.Related Q x y) : HasExprs.Related Q x.written y.written := by
  cases x <;> cases y
  case pinned.pinned =>
    obtain rfl := GroupBy.pinned.inj h.frame
    exact related_refl hQ _
  case exprs.exprs => exact h
  all_goals cases h.frame

/-- Orderings stay related when they are written out. -/
theorem OrderBy.related_written (hQ : ∀ e, Q e e) {x y : OrderBy}
    (h : HasExprs.Related Q x y) : HasExprs.Related Q x.written y.written := by
  cases x <;> cases y
  case pinned.pinned =>
    obtain rfl := OrderBy.pinned.inj h.frame
    exact related_refl hQ _
  case items.items => exact h
  all_goals cases h.frame

/-- Selections stay related when they lose their columns. -/
theorem Select.related_expr {s t : Select} (h : HasExprs.Related Q s t) :
    HasExprs.Related Q ({ expr := s.expr } : Select) { expr := t.expr } := by
  cases h.exprs with
  | cons head _ => exact ⟨rfl, .cons head .nil⟩

/-- Related conditions make related ones, whether one of two is there or both are. -/
theorem Expr.related_conjunction? (hQ : Compatible Q) {left left' right right' : Option Expr}
    (hleft : HasExprs.Related Q left left') (hright : HasExprs.Related Q right right') :
    HasExprs.Related Q (conjunction? left right) (conjunction? left' right') := by
  cases related_option.mp hleft with
  | none => cases related_option.mp hright with
    | none => exact hright
    | some _ => exact hright
  | some hl => cases related_option.mp hright with
    | none => exact hleft
    | some hr =>
      exact related_option.mpr (.some (related_expr.mpr
        (hQ.and _ _ _ _ (related_expr.mp hl) (related_expr.mp hr))))

end

/-! ### Related levels -/

/-- Two expressions or two queries that are related. -/
def Item.Related (Q : Expr → Expr → Prop) (R : σ → τ → Prop) : Item σ → Item τ → Prop
  | expr e, expr e' => Q e e'
  | nested q, nested q' => R q q'
  | _, _ => False

/-- Levels of one frame, with items that are related one by one. -/
structure Clauses.Related (Q : Clause → Expr → Expr → Prop) (R : σ → τ → Prop) (c : Clauses σ)
    (d : Clauses τ) : Prop where
  frame : c.frame = d.frame
  items : ∀ clause, List.Forall₂ (Item.Related (Q clause) R) (c.items clause) (d.items clause)

theorem Item.forall₂_ofExprs {X : Type} [HasExprs X] {Q : Expr → Expr → Prop} {R : σ → τ → Prop}
    {x y : X} : List.Forall₂ (Item.Related Q R) (Item.ofExprs x) (Item.ofExprs y) ↔
      List.Forall₂ Q (exprs x) (exprs y) := by
  rw [ofExprs, ofExprs, List.forall₂_map_left_iff, List.forall₂_map_right_iff]
  rfl

/-! ### Joins -/

/-- A join without its items. -/
def Join.frame (j : Join σ) : Join Unit := j.edit (fun _ => Expr.hole) fun _ => ()

/-- Joins of one frame, with sources and conditions that are related. -/
structure Join.Related (Q : Expr → Expr → Prop) (R : σ → τ → Prop) (j : Join σ) (j' : Join τ) :
    Prop where
  frame : j.frame = j'.frame
  source : List.Forall₂ (Item.Related Q R) (j.source.toList.flatMap Source.items)
    (j'.source.toList.flatMap Source.items)
  on : HasExprs.Related Q j.on j'.on

section

variable {Q : Expr → Expr → Prop} {R : σ → τ → Prop} {j : Join σ} {j' : Join τ}

theorem Join.source_frame (h : j.frame = j'.frame) :
    j.source.map Source.frame = j'.source.map Source.frame := congrArg Join.source h

/-- The items of joins of one frame are those of their sources and of their conditions. -/
theorem Join.Related.of_items (hframe : j.frame = j'.frame)
    (hitems : List.Forall₂ (Item.Related Q R) j.items j'.items) : j.Related Q R j' := by
  have hlength : (j.source.toList.flatMap Source.items).length =
      (j'.source.toList.flatMap Source.items).length := by
    have hsource := Join.source_frame hframe
    cases hj : j.source <;> cases hj' : j'.source <;>
      simp only [hj, hj', Option.map_none, Option.map_some, reduceCtorEq, Option.some.injEq]
        at hsource
    · rfl
    · simpa using Source.length_items hsource
  obtain ⟨hsource, hon⟩ := List.forall₂_of_append hlength hitems
  exact ⟨hframe, hsource, congrArg Join.on hframe, Item.forall₂_ofExprs.mp hon⟩

theorem Join.Related.items (h : j.Related Q R j') :
    List.Forall₂ (Item.Related Q R) j.items j'.items :=
  List.rel_append h.source (Item.forall₂_ofExprs.mpr h.on.exprs)

/-- A join that the registry makes is related to itself. -/
theorem Hop.related_join {ctx : Context} {queryPrefix : Option String} (hQ : ∀ e, Q e e)
    (hframe : j.frame = j'.frame) (hop : Hop) (parent ix : Nat) :
    (hop.join ctx queryPrefix j parent ix).Related Q R (hop.join ctx queryPrefix j' parent ix) := by
  have hqualifier : j.qualifier = j'.qualifier := congrArg Join.qualifier hframe
  have hqueryPrefix : j.tablePrefix = j'.tablePrefix := congrArg Join.tablePrefix hframe
  refine ⟨?_, ?_, related_refl hQ _⟩
  · simp only [Join.frame, Join.edit, Hop.join, hqualifier, hqueryPrefix, Hop.source]
    cases hop.target.schema <;> rfl
  · simp only [Hop.join, Hop.source]
    cases hop.target.schema <;> exact .nil

/-- Related joins stay so when their conditions are written out. -/
theorem Join.Related.prepared (hQ : Expr.Compatible Q) {conditions conditions' : List (Nat × Expr)}
    (hconditions : List.Forall₂ (fun p q => p.1 = q.1 ∧ HasExprs.Related Q p.2 q.2) conditions
      conditions') (h : j.Related Q R j') :
    (j.prepared conditions).Related Q R (j'.prepared conditions') := by
  have hix : j.ix = j'.ix := congrArg Join.ix h.frame
  have hon : HasExprs.Related Q (j.condition conditions) (j'.condition conditions') := by
    have hlookup := related_option.mpr
      (List.rel_lookup (R := fun _ => HasExprs.Related Q) hconditions (j.ix.getD 0))
    rw [Join.condition, Join.condition, ← hix]
    exact Expr.related_conjunction? hQ (h.on.rewrite (hQ.opened _)) (hlookup.rewrite (hQ.opened _))
  refine ⟨?_, h.source, hon⟩
  have hrest := h.frame
  simp only [Join.frame, Join.edit, Join.prepared, Join.mk.injEq] at hrest ⊢
  exact ⟨hrest.1, hrest.2.1, hon.frame, hrest.2.2.2⟩

end

/-! ### Sources -/

/-- Sources of one frame are bound alike. -/
theorem Source.bind_eq_of_frame {ctx : Context} {queryPrefix : Option String} {s : Source σ}
    {s' : Source τ} (h : s.frame = s'.frame) (clausePrefix : Option String) (clause : Clause) :
    s.bind ctx queryPrefix clausePrefix clause = s'.bind ctx queryPrefix clausePrefix clause := by
  rw [← Source.bind_edit (f := fun _ => Expr.hole) (g := fun _ => ()) (s := s),
    ← Source.bind_edit (f := fun _ => Expr.hole) (g := fun _ => ()) (s := s')]
  exact congrArg (Source.bind ctx queryPrefix clausePrefix clause) h

/-- Related joins are bound alike. -/
theorem Join.Related.bindsAlike {ctx : Context} {queryPrefix : Option String}
    {Q : Expr → Expr → Prop} {R : σ → τ → Prop} (hQ : ∀ e, Q e e) {j : Join σ} {j' : Join τ}
    (h : j.Related Q R j') (ix : Nat) :
    j.BindsAlike ctx queryPrefix (Join.Related Q R) (fun _ => HasExprs.Related Q) ix j' where
  association := congrArg Join.association h.frame
  tablePrefix := congrArg Join.tablePrefix h.frame
  source := by
    have htablePrefix : j.tablePrefix = j'.tablePrefix := congrArg Join.tablePrefix h.frame
    have hframe := Join.source_frame h.frame
    rw [htablePrefix]
    cases hs : j.source <;> cases hs' : j'.source <;>
      simp only [hs, hs', Option.map_none, Option.map_some, reduceCtorEq, Option.some.injEq]
        at hframe
    · exact .none
    · exact .some (Source.bind_eq_of_frame hframe _ _)
  own := ⟨congrArg (fun f : Join Unit => { f with ix := some ix }) h.frame, h.source, h.on⟩
  hop hop parent ix := hop.related_join hQ h.frame parent ix
  on := related_option.mp h.on

namespace Clauses

variable {ctx : Context} {Q : Clause → Expr → Expr → Prop} {R : σ → τ → Prop} {c : Clauses σ}
  {d : Clauses τ}

/-- The declared joins of related levels are related. -/
theorem Related.declaredJoins (h : c.Related Q R d) :
    List.Forall₂ (fun p q => p.1 = q.1 ∧ p.2.Related (Q .join) R q.2) c.declaredJoins
      d.declaredJoins := by
  have hframes : c.joins.map Join.frame = d.joins.map Join.frame := congrArg Clauses.joins h.frame
  have hjoins : List.Forall₂ (Join.Related (Q .join) R) c.joins d.joins :=
    (List.forall₂_of_map_eq (fun _ _ => fun h => by
      have hlength := congrArg (fun j : Join Unit => j.items.length) h
      simpa only [Join.frame, Join.items_edit, List.length_map] using hlength) hframes
      (h.items .join)).imp fun j j' hj => .of_items hj.1 hj.2
  rw [Clauses.declaredJoins, Clauses.declaredJoins, List.forall₂_map_left_iff,
    List.forall₂_map_right_iff]
  exact (List.forall₂_zipIdx hjoins 0).imp fun p q hpq => ⟨congrArg (· + 1) hpq.2, hpq.1⟩

/-- **The sources of related levels are bound alike.** -/
theorem Related.bindsAlike (hQ : ∀ e, Q .join e e) (h : c.Related Q R d) :
    c.BindsAlike ctx (Join.Related (Q .join) R) (fun _ => HasExprs.Related (Q .join)) d where
  queryPrefix := congrArg Clauses.queryPrefix h.frame
  root := by
    have hqueryPrefix : c.queryPrefix = d.queryPrefix := congrArg Clauses.queryPrefix h.frame
    have hroot : c.root.map (FromClause.edit (fun _ => Expr.hole) fun _ => ()) =
        d.root.map (FromClause.edit (fun _ => Expr.hole) fun _ => ()) :=
      congrArg Clauses.root h.frame
    rw [hqueryPrefix]
    cases hc : c.root <;> cases hd : d.root <;>
      simp only [hc, hd, Option.map_none, Option.map_some, reduceCtorEq, Option.some.injEq] at hroot
    · exact .none
    · rename_i root root'
      have htablePrefix : root.tablePrefix = root'.tablePrefix :=
        congrArg FromClause.tablePrefix hroot
      refine .some ?_
      rw [htablePrefix]
      exact Source.bind_eq_of_frame (congrArg FromClause.source hroot) _ _
  joins := h.declaredJoins.imp fun _ _ hpq => ⟨hpq.1, hpq.2.bindsAlike hQ _⟩
  preloads := congrArg Clauses.preloads h.frame
  kept _ _ hj := ⟨congrArg Join.ix hj.frame, congrArg Join.qualifier hj.frame⟩

/-- **Related levels are prepared alike.** -/
theorem Related.prepared (hQ : ∀ clause, Expr.Compatible (Q clause)) (h : c.Related Q R d)
    {b : Bindings σ} {b' : Bindings τ} (hsources : b'.sources = b.sources)
    (hjoins : List.Forall₂ (Join.Related (Q .join) R) b.joins b'.joins)
    (hconditions : List.Forall₂ (fun p q => p.1 = q.1 ∧ HasExprs.Related (Q .join) p.2 q.2)
      b.conditions b'.conditions) : (c.prepared b).Related Q R (d.prepared b') := by
  have hframe := h.frame
  simp only [Clauses.frame, Clauses.edit, Clauses.mk.injEq] at hframe
  obtain ⟨hroot, -, hwheres, hgroupBys, hhavings, horderBys, hselect, hdistinct, hlimit, hoffset,
    hupdates, hwindows, hcombinations, hctes, hpreloads, hlock, hqueryPrefix, -⟩ := hframe
  have hjoined : List.Forall₂ (Join.Related (Q .join) R) (b.joins.map (Join.prepared b.conditions))
      (b'.joins.map (Join.prepared b'.conditions)) := by
    rw [List.forall₂_map_left_iff, List.forall₂_map_right_iff]
    exact hjoins.imp fun j j' hj => hj.prepared (hQ .join) hconditions
  have hfilters : HasExprs.Related (Q .filter) (c.prepared b).wheres (d.prepared b').wheres :=
    HasExprs.Related.rewrite ((hQ .filter).opened 0)
      ⟨hwheres, Item.forall₂_ofExprs.mp (h.items .filter)⟩
  have hhaving : HasExprs.Related (Q .having) (c.prepared b).havings (d.prepared b').havings :=
    HasExprs.Related.rewrite ((hQ .having).opened 0)
      ⟨hhavings, Item.forall₂_ofExprs.mp (h.items .having)⟩
  have hgrouped : HasExprs.Related (Q .groupBy) (c.prepared b).groupBys (d.prepared b').groupBys :=
    HasExprs.Related.map (fun _ _ => GroupBy.related_written (hQ .groupBy).refl)
      ⟨hgroupBys, Item.forall₂_ofExprs.mp (h.items .groupBy)⟩
  have hordered : HasExprs.Related (Q .orderBy) (c.prepared b).orderBys (d.prepared b').orderBys :=
    HasExprs.Related.map (fun _ _ => OrderBy.related_written (hQ .orderBy).refl)
      ⟨horderBys, Item.forall₂_ofExprs.mp (h.items .orderBy)⟩
  have hselected : HasExprs.Related (Q .select) (c.prepared b).select (d.prepared b').select :=
    HasExprs.Related.mapOption (fun _ _ => Select.related_expr)
      ⟨hselect, Item.forall₂_ofExprs.mp (h.items .select)⟩
  refine ⟨?_, fun clause => ?_⟩
  · have hjoinFrames := List.map_eq_of_forall₂ (hjoined.imp fun _ _ hj => hj.frame)
    simp only [Clauses.frame, Clauses.edit, Clauses.mk.injEq]
    exact ⟨hroot, hjoinFrames, hfilters.frame, hgrouped.frame, hhaving.frame, hordered.frame,
      hselected.frame, hdistinct, hlimit, hoffset, hupdates, hwindows, hcombinations, hctes,
      hpreloads, hlock, hqueryPrefix, hsources.symm⟩
  · cases clause with
    | join => exact List.rel_flatMap hjoined fun _ _ hj => hj.items
    | filter => exact Item.forall₂_ofExprs.mpr hfilters.exprs
    | having => exact Item.forall₂_ofExprs.mpr hhaving.exprs
    | groupBy => exact Item.forall₂_ofExprs.mpr hgrouped.exprs
    | orderBy => exact Item.forall₂_ofExprs.mpr hordered.exprs
    | select => exact Item.forall₂_ofExprs.mpr hselected.exprs
    | withCte => exact h.items .withCte
    | distinct => exact h.items .distinct
    | fromSource => exact h.items .fromSource
    | windows => exact h.items .windows
    | combination => exact h.items .combination
    | limit => exact h.items .limit
    | offset => exact h.items .offset
    | update => exact h.items .update
    | preload => exact h.items .preload
    | lock => exact h.items .lock

/-- **Related levels are prepared as related levels.**  Where the sources of one are bound, those of
the other are. -/
theorem Related.exists_prepared (hQ : ∀ clause, Expr.Compatible (Q clause)) (h : c.Related Q R d)
    {b : Bindings σ} (hb : c.resolve ctx = .ok b) :
    ∃ b', d.resolve ctx = .ok b' ∧ b'.sources = b.sources ∧
      (c.prepared b).Related Q R (d.prepared b') := by
  obtain ⟨b', hb', halike⟩ := (h.bindsAlike (hQ .join).refl).resolve.exists_ok hb
  exact ⟨b', hb', halike.sources.symm,
    h.prepared hQ halike.sources.symm halike.joins halike.conditions⟩

/-- Levels of one frame are related if the expressions in the same places are, and the nested
queries. -/
theorem Related.of_getElem? (frame : c.frame = d.frame)
    (exprs : ∀ clause (i : Nat) e e', (c.items clause)[i]? = some (.expr e) →
      (d.items clause)[i]? = some (.expr e') → Q clause e e')
    (nested : ∀ clause (i : Nat) q q', (c.items clause)[i]? = some (.nested q) →
      (d.items clause)[i]? = some (.nested q') → R q q') : c.Related Q R d := by
  refine ⟨frame, fun clause => List.forall₂_iff_get.mpr ⟨length_items frame clause, ?_⟩⟩
  intro i hi hi'
  have hkinds := congrArg (fun f : Clauses Unit => (f.items clause)[i]?) frame
  simp only [Clauses.frame, items_edit, List.getElem?_map, List.getElem?_eq_getElem hi,
    List.getElem?_eq_getElem hi', Option.map_some, Option.some.injEq] at hkinds
  have hexprs := exprs clause i
  have hnested := nested clause i
  rw [List.getElem?_eq_getElem hi, List.getElem?_eq_getElem hi'] at hexprs hnested
  simp only [List.get_eq_getElem]
  generalize (c.items clause)[i] = x at hkinds hexprs hnested
  generalize (d.items clause)[i] = y at hkinds hexprs hnested
  cases x with
  | expr e =>
    cases y with
    | expr e' => exact hexprs e e' rfl rfl
    | nested q' => cases hkinds
  | nested q =>
    cases y with
    | expr e' => cases hkinds
    | nested q' => exact hnested q q' rfl rfl

/-- The tasks of related levels read related items for the same. -/
theorem Related.tasks (h : c.Related Q R d) (typeOf : String → Option FieldType)
    (clause : Clause) :
    List.Forall₂ (fun t t' => t.head = t'.head ∧ Item.Related (Q clause) R t.item t'.item)
      (c.tasks typeOf clause) (d.tasks typeOf clause) := by
  have hitems := h.items clause
  rw [← map_item_tasks typeOf, ← map_item_tasks typeOf, List.forall₂_map_left_iff,
    List.forall₂_map_right_iff] at hitems
  have hheads := map_head_tasks typeOf h.frame clause
  rw [← List.forall₂_eq_eq_eq, List.forall₂_map_left_iff, List.forall₂_map_right_iff] at hheads
  refine List.forall₂_iff_get.mpr ⟨hheads.length_eq, fun i hi hi' => ?_⟩
  exact ⟨hheads.get hi hi', hitems.get hi hi'⟩

end Clauses

end QueryPlanner
