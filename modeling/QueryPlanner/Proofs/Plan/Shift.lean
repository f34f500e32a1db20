import QueryPlanner.Proofs.Plan.Placeholders

/-!
# Binding behind other parameters

Planning adds to the end of the list of parameters and looks at nothing in it but its length.  So a
step that is begun behind parameters already bound does what it does with none bound: it fails in
the same way, or it adds the same parameters and yields the same syntax with every placeholder moved
up.

* `Expr.shift`, `Query.shift` — placeholders moved up
* `Binder.Carries` — a step behind other parameters, with one lemma for each way to make a step
* `Node.carries_mapM` — a traversal of a node
* `Scope.carries_bindExpr`, `Scope.carries_bindCondition` — expressions and whole conditions
-/

namespace QueryPlanner

/-- A placeholder moved up by `n`; any other node stays as it is. -/
def Node.shift {α : Type} (n : Nat) : Node α → Node α
  | .param ix => .param (ix + n)
  | .paramRange start length => .paramRange (start + n) length
  | m => m

/-- The expression with every placeholder moved up by `n`. -/
def Expr.shift (n : Nat) : Expr → Expr := relabel (Node.shift n)

theorem Expr.shift_mk (n : Nat) (m : Node Expr) : shift n ⟨m⟩ = ⟨(m.map (shift n)).shift n⟩ :=
  relabel_mk _ m

/-- The query with every placeholder moved up by `n`, at any depth of nesting. -/
def Query.shift (n : Nat) : Query → Query := edit (Expr.shift n)

/-- An expression without placeholders. -/
def Expr.Unplaced (e : Expr) : Prop := e.details .numbers = []

theorem Expr.unplaced_mk {n : Node Expr} :
    Unplaced ⟨n⟩ ↔ Detail.numbers.data n = [] ∧ ∀ c ∈ n.children, c.Unplaced :=
  details_eq_nil_mk

variable {α β γ δ : Type} {front : List BoundParameter}

namespace Binder

/-- Behind the parameters `front`, the step `m'` does what `m` does without them: it fails alike, or
yields the image under `r` of what `m` yields and leaves the same parameters, behind `front`. -/
def Carries (front : List BoundParameter) (r : α → β) (m : Binder α) (m' : Binder β) : Prop :=
  ∀ ps, m'.run (front ++ ps) = (m.run ps).map fun result => (r result.1, front ++ result.2)

namespace Carries

variable {r : α → β} {r' : γ → δ} {m : Binder α} {m' : Binder β}

theorem pure {a : α} {b : β} (h : r a = b) : Carries front r (pure a) (pure b) := by
  subst h
  exact fun _ => rfl

theorem throw (e : PlanError) : Carries front r (throw e) (throw e) := fun _ => rfl

theorem get : Carries front (front ++ ·) get get := fun _ => rfl

theorem set (ps : List BoundParameter) : Carries front id (set ps) (set (front ++ ps)) :=
  fun _ => rfl

theorem bind {f : α → Binder γ} {f' : β → Binder δ} (hm : Carries front r m m')
    (hf : ∀ a, Carries front r' (f a) (f' (r a))) : Carries front r' (m >>= f) (m' >>= f') := by
  intro ps
  rw [StateT.run_bind, StateT.run_bind, hm ps]
  cases m.run ps with
  | error e => rfl
  | ok result => exact hf result.1 result.2

theorem map {g : α → γ} {g' : β → δ} (hm : Carries front r m m')
    (hg : ∀ a, r' (g a) = g' (r a)) : Carries front r' (g <$> m) (g' <$> m') := by
  rw [← bind_pure_comp, ← bind_pure_comp]
  exact hm.bind fun a => pure (hg a)

/-- A step that may be refused before it is begun. -/
theorem refusing (b : Bool) (e : PlanError) (h : Carries front r m m') :
    Carries front r (if b then MonadExcept.throw e >>= fun _ : PUnit => m else m)
      (if b then MonadExcept.throw e >>= fun _ : PUnit => m' else m') := by
  cases b with
  | false => simpa only [Bool.false_eq_true, if_false] using h
  | true =>
    simp only [if_true]
    exact (throw (r := id) e).bind fun _ => h

/-- A check that fails or yields a value, and what follows it. -/
theorem lift_bind {ε : Type} {x : Except PlanError ε} {f : ε → Binder α} {f' : ε → Binder β}
    (hf : ∀ a, x = .ok a → Carries front r (f a) (f' a)) :
    Carries front r (liftM x >>= f) (liftM x >>= f') := by
  cases x with
  | error e => exact fun _ => rfl
  | ok a => exact hf a rfl

theorem mapM {ι : Type} {f : ι → Binder α} {f' : ι → Binder β} {xs : List ι}
    (h : ∀ x ∈ xs, Carries front r (f x) (f' x)) :
    Carries front (List.map r) (xs.mapM f) (xs.mapM f') := by
  induction xs with
  | nil => exact pure rfl
  | cons x xs ih =>
    rw [List.mapM_cons, List.mapM_cons]
    refine (h x List.mem_cons_self).bind fun y => ?_
    refine (ih fun z hz => h z (List.mem_cons_of_mem x hz)).bind fun ys => ?_
    exact pure rfl

theorem foldlM {ι : Type} {f : α → ι → Binder α} {f' : β → ι → Binder β} {xs : List ι}
    (h : ∀ a, ∀ x ∈ xs, Carries front r (f a x) (f' (r a) x)) (a : α) :
    Carries front r (xs.foldlM f a) (xs.foldlM f' (r a)) := by
  induction xs generalizing a with
  | nil => exact pure rfl
  | cons x xs ih =>
    rw [List.foldlM_cons, List.foldlM_cons]
    exact (h a x List.mem_cons_self).bind fun a' =>
      ih (fun b z hz => h b z (List.mem_cons_of_mem x hz)) a'

/-- What succeeds behind `front` succeeds without it, and adds the same parameters. -/
theorem alone (h : Carries front r m m') {b : β} {qs : List BoundParameter}
    (hb : m'.Yields front b qs) :
    ∃ a own, m.Yields [] a own ∧ b = r a ∧ qs = front ++ own := by
  have hrun := h []
  rw [List.append_nil, hb] at hrun
  cases hm : m.run [] with
  | error e => simp [hm, Except.map] at hrun
  | ok result =>
    simp only [hm, Except.map, Except.ok.injEq, Prod.mk.injEq] at hrun
    exact ⟨result.1, result.2, hm, hrun⟩

/-- What succeeds without parameters succeeds behind `front`. -/
theorem behind (h : Carries front r m m') {a : α} {own : List BoundParameter}
    (ha : m.Yields [] a own) : m'.Yields front (r a) (front ++ own) := by
  have hrun := h []
  rwa [List.append_nil, ha] at hrun

end Carries

end Binder

open Binder

/-! ### Traversals -/

section

variable {ι : Type} {f : ι → Binder α} {r : α → α}

theorem Part.carries_mapM {p : Part ι} (h : ∀ c ∈ p.children, Carries front r (f c) (f c)) :
    Carries front (Part.map r) (p.mapM f) (p.mapM f) := by
  cases p with
  | raw text => exact .pure rfl
  | term e => exact (h e (List.mem_singleton_self e)).map fun _ => rfl

theorem Part.carries_mapM_list {ps : List (Part ι)}
    (h : ∀ c ∈ ps.flatMap Part.children, Carries front r (f c) (f c)) :
    Carries front (List.map (Part.map r)) (ps.mapM (Part.mapM f)) (ps.mapM (Part.mapM f)) :=
  .mapM fun p hp => Part.carries_mapM fun c hc => h c (List.mem_flatMap.mpr ⟨p, hp, hc⟩)

theorem Ordered.carries_mapM {o : Ordered ι} (h : Carries front r (f o.term) (f o.term)) :
    Carries front (Ordered.map r) (o.mapM f) (o.mapM f) := h.bind fun _ => .pure rfl

theorem Window.carries_mapM {w : Window ι} (h : ∀ c ∈ w.children, Carries front r (f c) (f c)) :
    Carries front (Window.map r) (w.mapM f) (w.mapM f) := by
  obtain ⟨partition, order, frame⟩ := w
  simp only [children, List.forall_mem_append, List.forall_mem_map] at h
  refine (Carries.mapM h.1.1).bind fun partition' => ?_
  refine (Carries.mapM fun o ho => Ordered.carries_mapM (h.1.2 o ho)).bind fun order' => ?_
  cases frame with
  | none =>
    refine Carries.bind (r := Option.map (List.map (Part.map r))) (.pure rfl) fun frame' => ?_
    exact .pure rfl
  | some parts =>
    have hparts := Part.carries_mapM_list h.2
    refine Carries.bind (r := Option.map (List.map (Part.map r))) (hparts.map fun _ => rfl)
      fun frame' => ?_
    exact .pure rfl

theorem WindowRef.carries_mapM {w : WindowRef ι}
    (h : ∀ c ∈ w.children, Carries front r (f c) (f c)) :
    Carries front (WindowRef.map r) (w.mapM f) (w.mapM f) := by
  cases w with
  | named name => exact .pure rfl
  | inline window => exact (Window.carries_mapM h).map fun _ => rfl

/-- A traversal of a node that is no placeholder moves the placeholders that come into it. -/
theorem Node.carries_mapM {n : Node ι} (hn : Detail.numbers.data n = [])
    (h : ∀ c ∈ n.children, Carries front r (f c) (f c)) (k : Nat) :
    Carries front (fun m => (m.map r).shift k) (n.mapM f) (n.mapM f) := by
  cases n with
  | param | paramRange => cases hn
  | dynamic inner | not inner | isNil inner =>
    exact (h inner (List.mem_singleton_self inner)).map fun _ => rfl
  | typed inner | selectedAs inner =>
    exact (h inner (List.mem_singleton_self inner)).bind fun _ => .pure rfl
  | binary op left right | isIn left right =>
    refine (h left List.mem_cons_self).bind fun left' => ?_
    exact (h right (List.mem_cons_of_mem _ List.mem_cons_self)).bind fun _ => .pure rfl
  | list items | tuple items | call name items => exact (Carries.mapM h).map fun _ => rfl
  | mapping entries =>
    have hentry : ∀ entry ∈ entries, Carries front (fun e : String × α => (e.1, r e.2))
        (do let inner ← f entry.2; pure (entry.1, inner))
        (do let inner ← f entry.2; pure (entry.1, inner)) :=
      fun entry hmem => (h entry.2 (List.mem_map_of_mem hmem)).bind fun _ => .pure rfl
    exact (Carries.mapM hentry).map fun _ => rfl
  | windowed inner window =>
    refine (h inner List.mem_cons_self).bind fun inner' => ?_
    have hwindow := WindowRef.carries_mapM fun c hc => h c (List.mem_cons_of_mem _ hc)
    exact hwindow.bind fun _ => .pure rfl
  | fragment parts => exact (Part.carries_mapM_list h).map fun _ => rfl
  | field | binding | literal | pin | keywords | structOf | mapOf | selectedRef =>
    exact .pure rfl

end

/-! ### Expressions -/

namespace Scope

variable {s : Scope}

/-- A step that yields expressions, moved up behind the parameters `front`. -/
abbrev Moves (front : List BoundParameter) (m : Binder Expr) : Prop :=
  Carries front (Expr.shift front.length) m m

theorem carries_bindValue (v : Value) (type : FieldType) : Moves front (s.bindValue v type) := by
  unfold bindValue
  cases s.ctx.conversions.cast type v with
  | error e => exact .throw _
  | ok logical =>
    simp only
    cases s.ctx.conversions.dump type logical with
    | error e => exact .throw _
    | ok stored =>
      refine Carries.get.bind fun bound => ?_
      rw [List.append_assoc]
      refine (Carries.set _).bind fun _ => .pure ?_
      rw [Expr.shift_mk, List.length_append, Nat.add_comm]
      rfl

/-- The elements of an interpolated collection, or the right side as it is. -/
theorem carries_bindCollection {element : FieldType} {right : Expr × (FieldType → Binder Expr)}
    (h : ∀ type, Moves front (right.2 type)) : Moves front (s.bindCollection element right) := by
  unfold bindCollection
  split
  · refine Carries.get.bind fun bound => ?_
    refine (Carries.mapM fun v _ => carries_bindValue v element).bind fun _ => .pure ?_
    rw [Expr.shift_mk, List.length_append, Nat.add_comm]
    rfl
  · exact .throw _
  · exact h _
  · exact h _

/-- A node reads its children, and nothing else depends on the parameters bound before. -/
theorem carries_bindNode {n : Node (Expr × (FieldType → Binder Expr))}
    (hn : Detail.numbers.data n = []) (h : ∀ c ∈ n.children, ∀ type, Moves front (c.2 type))
    (expected : FieldType) : Moves front (s.bindNode n expected) := by
  have hshape : ∀ m : Node Expr, Expr.shift front.length ⟨m⟩ =
      ⟨(m.map (Expr.shift front.length)).shift front.length⟩ := Expr.shift_mk front.length
  have hdefault : Moves front (do
      let m ← n.mapM fun child => child.2 .any
      pure ⟨m⟩) :=
    (Node.carries_mapM hn (fun c hc => h c hc .any) front.length).bind fun m => .pure (hshape m)
  cases n with
  | param | paramRange => cases hn
  | pin v => exact carries_bindValue v expected
  | dynamic | keywords => exact .throw _
  | binary op left right =>
    refine Carries.lift_bind fun types _ => ?_
    have hoperands : Moves front (do
        let left' ← left.2 types.1
        let right' ← right.2 types.2
        pure (.binary op left' right')) := by
      refine (h left List.mem_cons_self types.1).bind fun left' => ?_
      refine (h right (List.mem_cons_of_mem _ List.mem_cons_self) types.2).bind fun right' => ?_
      exact .pure (hshape _)
    cases hop : op.isComparison with
    | false => simpa only [hop, Bool.false_eq_true, if_false] using hoperands
    | true =>
      simp only [if_true]
      exact Carries.lift_bind fun _ _ => Carries.lift_bind fun _ _ => hoperands
  | isIn left right =>
    refine Carries.lift_bind fun element _ => Carries.lift_bind fun leftType _ => ?_
    refine (h left List.mem_cons_self leftType).bind fun left' => ?_
    have hright := h right (List.mem_cons_of_mem _ List.mem_cons_self)
    exact (carries_bindCollection hright).bind fun right' => .pure (hshape _)
  | not inner =>
    exact (h inner (List.mem_singleton_self inner) _).bind fun _ => .pure (hshape _)
  | typed inner type =>
    exact (h inner (List.mem_singleton_self inner) _).bind fun _ => .pure (hshape _)
  | selectedAs inner name =>
    exact (h inner (List.mem_singleton_self inner) _).bind fun _ => .pure (hshape _)
  | list items =>
    exact (Carries.mapM fun c hc => h c hc _).bind fun _ => .pure (hshape _)
  | _ => exact hdefault

/-- **An expression without placeholders** is read alike behind any parameters. -/
theorem carries_bindExpr (e : Expr) (he : e.Unplaced) :
    ∀ expected, Moves front (s.bindExpr e expected) := by
  revert he
  refine Expr.induction (P := fun e => e.Unplaced →
    ∀ expected, Moves front (s.bindExpr e expected)) ?_ e
  intro n ih he expected
  obtain ⟨hn, hchildren⟩ := Expr.unplaced_mk.mp he
  rw [bindExpr_mk]
  refine carries_bindNode (by rwa [Detail.data_map]) (fun c hc type => ?_) expected
  rw [Node.children_map] at hc
  obtain ⟨child, hchild, rfl⟩ := List.mem_map.mp hc
  exact ih child hchild (hchildren child hchild) type

/-- Reading an expression adds parameters to those bound before. -/
theorem Reads.adds {e a : Expr} {expected : FieldType} {ps qs : List BoundParameter}
    (h : s.Reads e expected ps a qs) (he : e.Unplaced) : ∃ own, qs = ps ++ own := by
  induction h with
  | bound text h =>
    obtain ⟨-, own, -, -, hqs⟩ := (carries_bindExpr _ he _).alone h
    exact ⟨own, hqs⟩
  | both hleft hright ihleft ihright =>
    obtain ⟨-, hsides⟩ := Expr.unplaced_mk.mp he
    obtain ⟨own, rfl⟩ := ihleft (hsides _ List.mem_cons_self)
    obtain ⟨own', rfl⟩ := ihright (hsides _ (List.mem_cons_of_mem _ List.mem_cons_self))
    exact ⟨own ++ own', List.append_assoc ..⟩

end Scope

/-! ### Whole conditions -/

theorem Expr.shift_and (n : Nat) (left right : Expr) :
    (left.and right).shift n = (left.shift n).and (right.shift n) := shift_mk n _

/-- **A whole condition without placeholders** is read alike behind any parameters. -/
theorem Scope.carries_bindCondition {s : Scope} {ix : Nat} (e : Expr)
    (he : e.Unplaced) : Moves front (s.bindCondition ix e) := by
  rw [bindCondition_eq]
  exact carries_bindExpr _ (Expr.details_opened ix e he) .boolean

end QueryPlanner
