import QueryPlanner.Proofs.Expr.Inert

/-!
# Replacing children one after the other

The children of a node are replaced by a function that may keep a state and may fail.  It is handed
the children from left to right, each of them once, and nothing else; so all that it does it does
over the list of children, in whatever monad.

* `Node.children_mapM` — replacing the children of a node is running over their list
* `Node.handed` — what a replacement hands to its function, as the function sees it
* `Expr.walk_handed` — a walk goes on with what a replacement hands out
-/

namespace QueryPlanner

/-! ### In any monad -/

section

variable {α β : Type} {m : Type → Type} [Monad m] [LawfulMonad m] (f : α → m β)

/-- Steps that each run over a list run, one after the other, over the lists in a row. -/
theorem List.flatMap_mapM {γ δ : Type} {step : γ → m δ} {held : γ → List α} {made : δ → List β}
    (h : ∀ c, made <$> step c = (held c).mapM f) (cs : List γ) :
    List.flatMap made <$> cs.mapM step = (cs.flatMap held).mapM f := by
  induction cs with
  | nil => simp
  | cons c cs ih =>
    rw [List.flatMap_cons, List.mapM_append, List.mapM_cons, ← h, ← ih]
    simp [List.flatMap_cons]

/-- Steps that each run on one element run, one after the other, on the list of these. -/
theorem List.map_mapM {γ δ : Type} {step : γ → m δ} {held : γ → α} {made : δ → β}
    (h : ∀ c, made <$> step c = f (held c)) (cs : List γ) :
    List.map made <$> cs.mapM step = (cs.map held).mapM f := by
  induction cs with
  | nil => simp
  | cons c cs ih =>
    rw [List.map_cons, List.mapM_cons, List.mapM_cons, ← h, ← ih]
    simp

theorem Part.children_mapM (p : Part α) : Part.children <$> p.mapM f = p.children.mapM f := by
  cases p with
  | raw text => simp [Part.mapM, Part.children]
  | term e => simp [Part.mapM, Part.children]

theorem Part.flatMap_children_mapM (ps : List (Part α)) :
    List.flatMap Part.children <$> ps.mapM (Part.mapM f) = (ps.flatMap Part.children).mapM f :=
  List.flatMap_mapM f (Part.children_mapM f) ps

theorem Ordered.terms_mapM (os : List (Ordered α)) :
    List.map Ordered.term <$> os.mapM (Ordered.mapM f) = (os.map Ordered.term).mapM f := by
  refine List.map_mapM f (fun o => ?_) os
  simp [mapM]

theorem Window.children_mapM (w : Window α) :
    Window.children <$> w.mapM f = w.children.mapM f := by
  obtain ⟨partition, order, frame⟩ := w
  cases frame with
  | none =>
    rw [children, List.append_nil, List.mapM_append, ← Ordered.terms_mapM]
    simp [mapM, children]
  | some parts =>
    rw [children, List.mapM_append, List.mapM_append, ← Ordered.terms_mapM,
      ← Part.flatMap_children_mapM]
    simp [mapM, children]

theorem WindowRef.children_mapM (w : WindowRef α) :
    WindowRef.children <$> w.mapM f = w.children.mapM f := by
  cases w with
  | named name => simp [WindowRef.mapM, WindowRef.children]
  | inline window =>
    simp only [WindowRef.mapM, WindowRef.children, ← Window.children_mapM, Functor.map_map]

/-- Replacing the children of a node is running over their list: the children of what comes out are
what the function yields for them, in their order. -/
theorem Node.children_mapM (n : Node α) : Node.children <$> n.mapM f = n.children.mapM f := by
  cases n with
  | mapping entries =>
    simp only [mapM, children, Functor.map_map]
    refine List.map_mapM f (fun entry => ?_) entries
    simp
  | windowed inner window =>
    rw [children, List.mapM_cons, ← WindowRef.children_mapM]
    simp [mapM, children]
  | fragment parts =>
    simpa only [mapM, children, Functor.map_map] using Part.flatMap_children_mapM f parts
  | _ => simp [mapM, children]

theorem Part.mapM_pure (f : α → β) :
    Part.mapM (fun a => pure (f a) : α → m β) = fun p => pure (p.map f) := by
  funext p
  cases p <;> simp [mapM, map]

theorem Ordered.mapM_pure (f : α → β) :
    Ordered.mapM (fun a => pure (f a) : α → m β) = fun o => pure (o.map f) := by
  funext o
  simp [mapM, map]

theorem Window.mapM_pure (f : α → β) (w : Window α) :
    w.mapM (fun a => pure (f a) : α → m β) = pure (w.map f) := by
  obtain ⟨partition, order, frame⟩ := w
  cases frame <;> simp [mapM, map, Ordered.mapM_pure, Part.mapM_pure]

/-- A function without effect makes a replacement without effect. -/
theorem Node.mapM_pure (f : α → β) (n : Node α) :
    n.mapM (fun a => pure (f a) : α → m β) = pure (n.map f) := by
  cases n with
  | windowed inner window =>
    cases window <;> simp [mapM, map, WindowRef.mapM, WindowRef.map, Window.mapM_pure]
  | _ => simp [mapM, map, Part.mapM_pure]

end

/-! ### What the function is handed -/

section

variable {α : Type}

/-- An element that is written down where it is handed over. -/
def record (a : α) : StateM (List α) α := do
  modify (· ++ [a])
  pure a

theorem List.run_mapM_record (xs log : List α) :
    (xs.mapM record).run log = (xs, log ++ xs) := by
  induction xs generalizing log with
  | nil =>
    rw [List.append_nil]
    rfl
  | cons x xs ih =>
    have hrest := ih (log ++ [x])
    rw [List.append_assoc, List.singleton_append] at hrest
    rw [List.mapM_cons]
    simp only [record, StateT.run_bind, StateT.run_modify, StateT.run_pure, pure_bind, hrest]
    rfl

/-- What a replacement of the children hands to its function, from the first to the last. -/
def Node.handed (n : Node α) : List α := ((n.mapM record).run []).2

/-- A replacement hands over the children in reading order. -/
theorem Node.handed_eq_children (n : Node α) : n.handed = n.children := by
  have hrun := congrArg (fun x => (x.run []).2) (children_mapM record n)
  simp only [StateT.run_map, List.run_mapM_record] at hrun
  exact hrun

end

/-! ### Where the function fails -/

section

variable {α β σ ε : Type}

theorem run_bind_eq_ok {x : ExceptT ε (StateM σ) α} {k : α → ExceptT ε (StateM σ) β} {s u : σ}
    {b : β} : (x >>= k).run.run s = (.ok b, u) ↔
      ∃ a t, x.run.run s = (.ok a, t) ∧ (k a).run.run t = (.ok b, u) := by
  rw [ExceptT.run_bind, StateT.run_bind]
  rcases x.run.run s with ⟨err | a, t⟩
  · constructor
    · intro h
      cases h
    · rintro ⟨a, t', ⟨⟩, -⟩
  · constructor
    · exact fun h => ⟨a, t, rfl, h⟩
    · rintro ⟨a, t', ⟨⟩, h⟩
      exact h

theorem run_bind_eq_error {x : ExceptT ε (StateM σ) α} {k : α → ExceptT ε (StateM σ) β} {s u : σ}
    {err : ε} : (x >>= k).run.run s = (.error err, u) ↔ x.run.run s = (.error err, u) ∨
      ∃ a t, x.run.run s = (.ok a, t) ∧ (k a).run.run t = (.error err, u) := by
  rw [ExceptT.run_bind, StateT.run_bind]
  rcases x.run.run s with ⟨first | a, t⟩
  · constructor
    · rintro ⟨⟩
      exact .inl rfl
    · rintro (⟨⟨⟩⟩ | ⟨a, t', ⟨⟩, -⟩)
      rfl
  · constructor
    · exact fun h => .inr ⟨a, t, rfl, h⟩
    · rintro (⟨⟨⟩⟩ | ⟨a, t', ⟨⟩, h⟩)
      exact h

/-- A run over a list fails with what its first failing step fails with, in the state that the
steps before it have left. -/
theorem List.run_mapM_eq_error (f : α → ExceptT ε (StateM σ) β) (xs : List α) {s u : σ} {err : ε} :
    (xs.mapM f).run.run s = (.error err, u) ↔
      ∃ earlier x later ys t, xs = earlier ++ x :: later ∧
        (earlier.mapM f).run.run s = (.ok ys, t) ∧ (f x).run.run t = (.error err, u) := by
  constructor
  · intro h
    induction xs generalizing s with
    | nil => cases h
    | cons x xs ih =>
      rw [List.mapM_cons, run_bind_eq_error] at h
      -- Either this step fails, or one of the others does from the state that this one leaves.
      rcases h with hx | ⟨y, t, hx, h⟩
      · exact ⟨[], x, xs, [], s, rfl, rfl, hx⟩
      · rcases run_bind_eq_error.mp h with h | ⟨_, _, _, h⟩
        · obtain ⟨earlier, c, later, ys, t', rfl, hran, hc⟩ := ih h
          refine ⟨x :: earlier, c, later, y :: ys, t', rfl, ?_, hc⟩
          rw [List.mapM_cons]
          exact run_bind_eq_ok.mpr ⟨y, t, hx, run_bind_eq_ok.mpr ⟨ys, t', hran, rfl⟩⟩
        · cases h
  · rintro ⟨earlier, x, later, ys, t, rfl, hran, hx⟩
    rw [List.mapM_append, run_bind_eq_error]
    refine .inr ⟨ys, t, hran, run_bind_eq_error.mpr (.inl ?_)⟩
    rw [List.mapM_cons]
    exact run_bind_eq_error.mpr (.inl hx)

/-- What is made of a result leaves the failures as they are. -/
theorem run_map_eq_error (g : α → β) {x : ExceptT ε (StateM σ) α} {s u : σ} {err : ε} :
    (g <$> x).run.run s = (.error err, u) ↔ x.run.run s = (.error err, u) := by
  rw [← bind_pure_comp, run_bind_eq_error]
  constructor
  · rintro (h | ⟨_, _, _, ⟨⟩⟩)
    exact h
  · exact .inl

end

/-- **A walk goes on with what a replacement hands out.**  What a walk visits behind the expression
itself are the walks of the expressions that a replacement of its children hands to its function, in
this order.  Whatever the function does to its state, and whether and how it fails, it does over
their list, and what it yields for them become the children.  With the function that yields what it
is handed the expression stays as it is.  With one that fails on a child the replacement fails with
the error of the first such child, in the state in which this error has left it. -/
theorem Expr.walk_handed {σ ε : Type} (e : Expr) (f : Expr → ExceptT ε (StateM σ) Expr) :
    e.walk = e :: e.node.handed.flatMap walk ∧
    Node.children <$> e.node.mapM f = e.node.handed.mapM f ∧
    (e.node.mapM pure : ExceptT ε (StateM σ) (Node Expr)) = pure e.node ∧
    ∀ s u err, (e.node.mapM f).run.run s = (.error err, u) ↔
      ∃ earlier c later results t, e.node.handed = earlier ++ c :: later ∧
        (earlier.mapM f).run.run s = (.ok results, t) ∧ (f c).run.run t = (.error err, u) := by
  obtain ⟨n⟩ := e
  rw [Node.handed_eq_children]
  refine ⟨walk_mk n, Node.children_mapM f n, ?_, fun s u err => ?_⟩
  · have hpure := Node.mapM_pure (m := ExceptT ε (StateM σ)) id n
    rwa [Node.map_id] at hpure
  · rw [← List.run_mapM_eq_error, ← Node.children_mapM]
    exact (run_map_eq_error Node.children).symm

example :
    (Node.windowed (.call "rank" [.field 0 "score"])
      (.inline ⟨[.field 0 "team"], [⟨.desc, .field 0 "day"⟩],
        some [.raw "rows ", .term (.param 0), .raw " preceding"]⟩)).handed =
      [.call "rank" [.field 0 "score"], .field 0 "team", .field 0 "day", Expr.param 0] := rfl

end QueryPlanner
