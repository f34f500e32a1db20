import QueryPlanner.CacheKey.Build
import QueryPlanner.Proofs.Expr.Inert

/-!
# The key of an expression is a code of it

Keying an expression does two things at once: it puts stored forms in the place of literals that
are compared with fields, and it writes the tree down.  Taken apart, the first is a replacement of
literals and the second a plain recursion.  An expression has a key unless it holds a range of
placeholders.

* `Expr.settle` — the expression with its literals in their stored forms
* `Expr.code` — the expression written down as it is
* `Expr.guarded_keyed` — a key is the code of the settled expression
* `Expr.settle_relabel` — stored forms stay when nodes change what is not compared
-/

namespace QueryPlanner

/-! ### Stored forms -/

namespace Node

variable {α β : Type}

/-- The node with each child beside what it is compared with. -/
def against (raw : α → Expr) (opposite : Opposite) : Node α → Node (α × Opposite)
  | binary op left right =>
    if op.isComparison then
      binary op (left, .operand (raw right)) (right, .operand (raw left))
    else binary op (left, .nothing) (right, .nothing)
  | isIn left right => isIn (left, .nothing) (right, .collection (raw left))
  | list items => list (items.map fun item => (item, Expr.itemOpposite opposite))
  | n => n.map fun child => (child, .nothing)

/-- The node with a literal in its stored form. -/
def stored (form : LiteralForm) (opposite : Opposite) : Node α → Node α
  | literal value => literal ((Expr.storedLiteral? form value opposite).getD value)
  | n => n

theorem against_map (raw : β → Expr) (opposite : Opposite) (f : α → β) (n : Node α) :
    (n.map f).against raw opposite =
      (n.against (raw ∘ f) opposite).map fun child => (f child.1, child.2) := by
  cases n with
  | binary op left right => by_cases hop : op.isComparison <;> simp [against, map, hop]
  | list items => simp [against, map]
  | _ => simp [against, map, WindowRef.map_map, Part.map_map, Function.comp_def]

/-- The children beside what they are compared with are still the children. -/
theorem map_fst_against (raw : α → Expr) (opposite : Opposite) (n : Node α) :
    (n.against raw opposite).map (·.1) = n := by
  have hplain : ∀ m : Node α, (m.map fun child => (child, Opposite.nothing)).map (·.1) = m := by
    intro m
    rw [map_map]
    exact map_id m
  cases n with
  | binary op left right => by_cases hop : op.isComparison <;> simp [against, map, hop]
  | list items => simp [against, map, Function.comp_def]
  | isIn left right => rfl
  | _ =>
    refine Eq.trans ?_ (hplain _)
    rfl

theorem stored_map (form : LiteralForm) (opposite : Opposite) (f : α → β) (n : Node α) :
    (n.map f).stored form opposite = (n.stored form opposite).map f := by
  cases n <;> rfl

theorem children_stored (form : LiteralForm) (opposite : Opposite) (n : Node α) :
    (n.stored form opposite).children = n.children := by
  cases n <;> rfl

end Node

/-- The expression with its literals in their stored forms, given what it is compared with. -/
def Expr.settle (form : LiteralForm) : Expr → Opposite → Expr :=
  fold fun n opposite =>
    ⟨((n.against Prod.fst opposite).map fun child => child.1.2 child.2).stored form opposite⟩

/-! ### Codes -/

/-- A part of a fragment written down. -/
def Part.encode : Part KeyNode → KeyNode
  | .raw text => .atom text
  | .term key => key

/-- An order item written down. -/
def Ordered.encode (o : Ordered KeyNode) : KeyNode := .tagged o.direction.name [o.term]

/-- A fragment written down. -/
def Part.encodeAll (parts : List (Part KeyNode)) : KeyNode :=
  .tagged "fragment" (parts.map Part.encode)

/-- A window written down. -/
def Window.encode (w : Window KeyNode) : KeyNode :=
  .list [.list w.partition, .list (w.order.map Ordered.encode),
    match w.frame with
    | some parts => Part.encodeAll parts
    | none => .null]

/-- A window reference written down. -/
def WindowRef.encode : WindowRef KeyNode → KeyNode
  | .named name => .atom name
  | .inline window => window.encode

/-- A node written down over the codes of its children. -/
def Node.encode : Node KeyNode → KeyNode
  | .field ix name => .tagged "field" [.ofBinding ix, .atom name]
  | .binding ix => .tagged "binding" [.ofBinding ix]
  | .literal value => .value value
  | .pin _ | .keywords _ | .param _ | .paramRange .. => .param
  | .dynamic inner => inner
  | .binary op left right => .tagged op.symbol [left, right]
  | .not inner => .tagged "not" [inner]
  | .isNil inner => .tagged "is_nil" [inner]
  | .isIn left right => .tagged "in" [left, right]
  | .list items => .list items
  | .tuple items => .tagged "tuple" [.list items]
  | .mapping entries => .tagged "map" (entries.map fun entry => .tagged entry.1 [entry.2])
  | .call name arguments => .tagged "call" (.atom name :: arguments)
  | .typed inner type => .tagged "type" [inner, .atom type.render]
  | .windowed inner window => .tagged "over" [inner, window.encode]
  | .fragment parts => Part.encodeAll parts
  | .structOf ix take => .tagged "struct" [.ofBinding ix, .list (Expr.takeKeys take)]
  | .mapOf ix take => .tagged "map_of" [.ofBinding ix, .list (Expr.takeKeys take)]
  | .selectedAs inner name => .tagged "selected_as" [inner, .atom name]
  | .selectedRef name => .tagged "selected_as" [.atom name]

/-- The code of an expression. -/
def Expr.code : Expr → KeyNode := fold fun n => (n.map (·.2)).encode

/-- A range of placeholders. -/
def Node.isRange {α : Type} : Node α → Bool
  | .paramRange .. => true
  | _ => false

/-- An expression whose shape does not depend on the length of a collection. -/
def Expr.RangeFree (e : Expr) : Prop := ∀ x ∈ e.walk, x.node.isRange = false

namespace Expr

variable {form : LiteralForm}

theorem rangeFree_mk {n : Node Expr} :
    RangeFree ⟨n⟩ ↔ n.isRange = false ∧ ∀ c ∈ n.children, c.RangeFree := forall_walk_mk

/-- A range-free result tests no interpolated collection. -/
theorem not_rangeFree_isIn (left : Expr) (start length : Nat) :
    ¬ RangeFree (.isIn left (.paramRange start length)) := by
  intro h
  have hright := (rangeFree_mk.mp h).2 _ (List.mem_cons_of_mem _ List.mem_cons_self)
  cases (rangeFree_mk.mp hright).1

theorem code_mk (n : Node Expr) : code ⟨n⟩ = (n.map code).encode := by
  rw [code, fold_mk, Node.map_map]
  rfl

theorem settle_mk (n : Node Expr) (opposite : Opposite) :
    settle form ⟨n⟩ opposite = ⟨((n.against id opposite).map fun child =>
      child.1.settle form child.2).stored form opposite⟩ := by
  rw [settle, fold_mk, Node.against_map, Node.map_map]
  rfl

/-- An expression keyed, given what it is compared with. -/
def keyed (form : LiteralForm) : Expr → Keyed := fold (keyNode form)

theorem keyed_mk (n : Node Expr) :
    keyed form ⟨n⟩ = keyNode form (n.map fun e => (e, keyed form e)) := by
  rw [keyed, fold_mk]

end Expr

/-! ### Guarded results -/

/-- An optional result that is `b` if `p` holds and absent otherwise. -/
def Guarded {β : Type} (p : Prop) (b : β) (r : Option β) : Prop := ∀ k, r = some k ↔ p ∧ k = b

namespace Guarded

variable {α β β' γ : Type} {p p' : Prop} {b b' : β} {c : γ} {r : Option β}

theorem some (b : β) : Guarded True b (some b) := by
  intro k
  rw [Option.some.injEq, true_and, eq_comm]

theorem none (hp : ¬p) : Guarded p b none := by
  intro k
  simp [hp]

theorem of_eq (h : Guarded p b r) (hp : p ↔ p') (hb : b = b') : Guarded p' b' r := by
  intro k
  rw [h k, hp, hb]

theorem map (h : Guarded p b r) (f : β → γ) : Guarded p (f b) (r.map f) := by
  intro k
  rw [Option.map_eq_some_iff]
  constructor
  · rintro ⟨k', hk', rfl⟩
    obtain ⟨hp, rfl⟩ := (h k').mp hk'
    exact ⟨hp, rfl⟩
  · rintro ⟨hp, rfl⟩
    exact ⟨b, (h b).mpr ⟨hp, rfl⟩, rfl⟩

theorem bind (h : Guarded p b r) {f : β → Option γ} (hf : Guarded p' c (f b)) :
    Guarded (p ∧ p') c (r >>= f) := by
  intro k
  rw [Option.bind_eq_bind, Option.bind_eq_some_iff]
  constructor
  · rintro ⟨k', hk', hk⟩
    obtain ⟨hp, rfl⟩ := (h k').mp hk'
    obtain ⟨hp', rfl⟩ := (hf k).mp hk
    exact ⟨⟨hp, hp'⟩, rfl⟩
  · rintro ⟨⟨hp, hp'⟩, rfl⟩
    exact ⟨b, (h b).mpr ⟨hp, rfl⟩, (hf _).mpr ⟨hp', rfl⟩⟩

theorem bind_some (h : Guarded p b r) (f : β → γ) :
    Guarded p (f b) (r >>= fun k => Option.some (f k)) :=
  (h.bind (some (f b))).of_eq (iff_of_eq (and_true p)) rfl

theorem bind₂ {d : β'} {r' : Option β'} (h : Guarded p b r) (h' : Guarded p' d r')
    (f : β → β' → γ) : Guarded (p ∧ p') (f b d) (do
      let k ← r
      let k' ← r'
      Option.some (f k k')) :=
  h.bind (h'.bind_some (f b))

/-- Where each step is guarded, so are all of them together. -/
theorem mapM {f : α → Option β} {P : α → Prop} {g : α → β} {xs : List α}
    (h : ∀ x ∈ xs, Guarded (P x) (g x) (f x)) :
    Guarded (∀ x ∈ xs, P x) (xs.map g) (xs.mapM f) := by
  induction xs with
  | nil => exact (some []).of_eq (by simp) rfl
  | cons x xs ih =>
    have hx := h x List.mem_cons_self
    have hxs := ih fun y hy => h y (List.mem_cons_of_mem x hy)
    rw [List.mapM_cons]
    exact (hx.bind (hxs.bind (some (g x :: xs.map g)))).of_eq (by simp) rfl

end Guarded

/-! ### Keys of containers -/

section

variable {α : Type} {P : α → Prop} {f : α → Option KeyNode} {g : α → KeyNode}

theorem Ordered.guarded_key {o : Ordered α} (h : Guarded (P o.term) (g o.term) (f o.term)) :
    Guarded (P o.term) (o.map g).encode (Expr.orderedKey (o.map f)) :=
  h.map fun term => KeyNode.tagged o.direction.name [term]

theorem Part.guarded_key {p : Part α} (h : ∀ e ∈ p.children, Guarded (P e) (g e) (f e)) :
    Guarded (∀ e ∈ p.children, P e) (p.map g).encode (Expr.partKey (p.map f)) := by
  cases p with
  | raw text => exact (Guarded.some _).of_eq (by simp [children]) rfl
  | term e => exact (h e (List.mem_singleton_self e)).of_eq (by simp [children]) rfl

theorem Part.guarded_fragmentKey {ps : List (Part α)}
    (h : ∀ e ∈ ps.flatMap children, Guarded (P e) (g e) (f e)) :
    Guarded (∀ e ∈ ps.flatMap children, P e) (encodeAll (ps.map (map g)))
      (Expr.fragmentKey (ps.map (map f))) := by
  have hparts : Guarded (∀ p ∈ ps, ∀ e ∈ p.children, P e) _ (ps.mapM _) :=
    Guarded.mapM fun p hp => p.guarded_key fun e he => h e (List.mem_flatMap.mpr ⟨p, hp, he⟩)
  unfold Expr.fragmentKey encodeAll
  rw [List.mapM_map, List.map_map]
  refine (hparts.map (KeyNode.tagged "fragment")).of_eq ?_ rfl
  simp only [List.mem_flatMap]
  exact ⟨fun hall e ⟨p, hp, he⟩ => hall p hp e he, fun hall p hp e he => hall e ⟨p, hp, he⟩⟩

theorem Window.guarded_key {w : Window α} (h : ∀ e ∈ w.children, Guarded (P e) (g e) (f e)) :
    Guarded (∀ e ∈ w.children, P e) (w.map g).encode (Expr.windowKey (w.map f)) := by
  obtain ⟨partition, order, frame⟩ := w
  simp only [children, List.mem_append] at h ⊢
  have hpartition : Guarded (∀ e ∈ partition, P e) (partition.map g)
      ((partition.map f).mapM id) := by
    rw [List.mapM_map]
    exact Guarded.mapM fun e he => h e (.inl (.inl he))
  have horder : Guarded (∀ o ∈ order, P o.term) (order.map (Ordered.encode ∘ Ordered.map g))
      ((order.map (Ordered.map f)).mapM Expr.orderedKey) := by
    rw [List.mapM_map]
    exact Guarded.mapM fun o ho =>
      o.guarded_key (h o.term (.inl (.inr (List.mem_map_of_mem ho))))
  have hwindow : ∀ {p : Prop} {b : KeyNode} {r : Option KeyNode}, Guarded p b r →
      Guarded ((∀ e ∈ partition, P e) ∧ (∀ o ∈ order, P o.term) ∧ p)
        (KeyNode.list
          [.list (partition.map g), .list (order.map (Ordered.encode ∘ Ordered.map g)), b])
        (do
          let partition ← (partition.map f).mapM id
          let order ← (order.map (Ordered.map f)).mapM Expr.orderedKey
          let frame ← r
          some (.list [.list partition, .list order, frame])) := by
    intro p b r hframe
    refine (hpartition.bind (horder.bind (hframe.bind (Guarded.some (KeyNode.list
      [.list (partition.map g), .list (order.map (Ordered.encode ∘ Ordered.map g)), b]))))).of_eq
      ?_ rfl
    simp
  cases frame with
  | none =>
    refine (hwindow (Guarded.some KeyNode.null)).of_eq ?_ ?_
    · simp [or_imp, forall_and]
    · simp [encode, Window.map]
  | some parts =>
    refine (hwindow (Part.guarded_fragmentKey fun e he => h e (.inr he))).of_eq ?_ ?_
    · simp [or_imp, forall_and, and_assoc]
    · simp [encode, Window.map]

end

/-! ### Keys of expressions -/

namespace Expr

variable {form : LiteralForm}

/-- **Keying an expression** is writing its stored forms down, unless it holds a range. -/
theorem guarded_keyed (e : Expr) : ∀ opposite,
    Guarded e.RangeFree (e.settle form opposite).code (e.keyed form opposite) := by
  refine Expr.induction (P := fun e => ∀ opposite,
    Guarded e.RangeFree (e.settle form opposite).code (e.keyed form opposite)) ?_ e
  intro n ih opposite
  rw [keyed_mk, settle_mk, rangeFree_mk]
  have hplain : ∀ c ∈ n.children, Guarded c.RangeFree (c.settle form .nothing).code
      (c.keyed form .nothing) := fun c hc => ih c hc .nothing
  cases n <;> simp only [Node.against, Node.stored, Node.map, keyNode, code_mk, Node.encode,
    Node.isRange, Node.children, List.mapM_map, List.map_map, Function.comp_def, Part.map_map,
    WindowRef.map_map, true_and] at hplain ⊢
  case paramRange start length => exact Guarded.none (by simp)
  case field | binding | literal | pin | keywords | param | structOf | mapOf | selectedRef =>
    exact (Guarded.some _).of_eq (by simp) rfl
  case dynamic inner => exact (hplain inner (by simp)).of_eq (by simp) rfl
  case not inner | isNil inner | typed inner type | selectedAs inner name =>
    exact ((hplain inner (by simp)).map _).of_eq (by simp) rfl
  case tuple items | call name items => exact (Guarded.mapM hplain).map _
  case list items =>
    exact (Guarded.mapM fun item hitem => ih item hitem (itemOpposite opposite)).bind_some _
  case mapping entries =>
    have hentries := Guarded.mapM fun entry (hentry : entry ∈ entries) =>
      (hplain entry.2 (List.mem_map_of_mem hentry)).map fun key => KeyNode.tagged entry.1 [key]
    exact (hentries.bind_some _).of_eq List.forall_mem_map.symm rfl
  case fragment parts => exact Part.guarded_fragmentKey hplain
  case isIn left right =>
    have hright := ih right (by simp [Node.children]) (.collection left)
    exact ((hplain left (by simp)).bind (hright.bind_some _)).of_eq (by simp) rfl
  case binary op left right =>
    have hleft := ih left (by simp [Node.children]) (.operand right)
    have hright := ih right (by simp [Node.children]) (.operand left)
    by_cases hop : op.isComparison
    · simp only [hop, if_true]
      exact (hleft.bind (hright.bind_some _)).of_eq (by simp) rfl
    · simp only [hop, Bool.false_eq_true, if_false]
      exact ((hplain left (by simp)).bind ((hplain right (by simp)).bind_some _)).of_eq
        (by simp) rfl
  case windowed inner window =>
    have hinner := hplain inner List.mem_cons_self
    cases window with
    | named name =>
      exact ((Guarded.some (KeyNode.atom name)).bind (hinner.bind_some _)).of_eq
        (by simp [WindowRef.children]) rfl
    | inline w =>
      have hwindow := w.guarded_key fun c hc => hplain c (List.mem_cons_of_mem inner hc)
      simp only [WindowRef.map, Window.map_map]
      exact (hwindow.bind (hinner.bind_some _)).of_eq (by simp [WindowRef.children, and_comm]) rfl

/-! ### What stored forms leave alone -/

theorem children_against (opposite : Opposite) (n : Node Expr) :
    (n.against id opposite).children.map (·.1) = n.children := by
  rw [← Node.children_map, Node.map_fst_against]

theorem mem_of_mem_against {opposite : Opposite} {n : Node Expr} {child : Expr × Opposite}
    (h : child ∈ (n.against id opposite).children) : child.1 ∈ n.children :=
  children_against opposite n ▸ List.mem_map_of_mem h

/-- Stored forms change no detail but the values of literals. -/
theorem details_settle {δ : Type} {d : Detail δ} (hd : d.SparesInert) (e : Expr) : ∀ opposite,
    (e.settle form opposite).details d = e.details d := by
  refine Expr.induction (P := fun e => ∀ opposite,
    (e.settle form opposite).details d = e.details d) ?_ e
  intro n ih opposite
  have hstored : ∀ m : Node Expr, d.data (m.stored form opposite) = d.data m := by
    intro m
    cases m with
    | literal value => rw [hd _ rfl, hd _ rfl]
    | _ => rfl
  have hdata : d.data (n.against id opposite) = d.data n := by
    rw [← d.data_map (·.1), Node.map_fst_against]
  have hchildren : (n.against id opposite).children.flatMap
      (fun child => (child.1.settle form child.2).details d) = n.children.flatMap (details d) := by
    rw [← children_against opposite n, List.flatMap_map]
    exact congrArg List.flatten
      (List.map_congr_left fun child hchild => ih child.1 (mem_of_mem_against hchild) child.2)
  rw [settle_mk, details_mk, details_mk, hstored, d.data_map, hdata, Node.children_stored,
    Node.children_map, List.flatMap_map, hchildren]

/-- Stored forms change no kind of node. -/
theorem forall_walk_settle {test : {α : Type} → Node α → Bool}
    (hmap : ∀ {α β : Type} (f : α → β) (n : Node α), test (n.map f) = test n)
    (hliteral : ∀ {α : Type} (v w : Value), test (.literal v : Node α) = test (.literal w : Node α))
    (e : Expr) : ∀ opposite, (∀ x ∈ (e.settle form opposite).walk, test x.node = false) ↔
      ∀ x ∈ e.walk, test x.node = false := by
  refine Expr.induction (P := fun e => ∀ opposite,
    (∀ x ∈ (e.settle form opposite).walk, test x.node = false) ↔
      ∀ x ∈ e.walk, test x.node = false) ?_ e
  intro n ih opposite
  have hstored : ∀ m : Node Expr, test (m.stored form opposite) = test m := by
    intro m
    cases m with
    | literal value => exact hliteral _ _
    | _ => rfl
  have htest : test (n.against id opposite) = test n := by
    rw [← hmap (·.1), Node.map_fst_against]
  rw [settle_mk, forall_walk_mk, forall_walk_mk, hstored, hmap, htest, Node.children_stored,
    Node.children_map, List.forall_mem_map, ← children_against opposite n, List.forall_mem_map]
  refine and_congr_right fun _ => forall₂_congr fun child hchild => ?_
  exact ih child.1 (mem_of_mem_against hchild) child.2

theorem rangeFree_settle (e : Expr) (opposite : Opposite) :
    (e.settle form opposite).RangeFree ↔ e.RangeFree :=
  forall_walk_settle (fun f n => by cases n <;> rfl) (fun _ _ => rfl) e opposite

end Expr

/-! ### Stored forms and other replacements -/

/-- What an expression is compared with, replaced. -/
def Opposite.map (f : Expr → Expr) : Opposite → Opposite
  | nothing => nothing
  | operand other => operand (f other)
  | collection other => collection (f other)

theorem Node.against_opposite (f : Expr → Expr) (opposite : Opposite) (n : Node Expr) :
    n.against f (opposite.map f) =
      (n.against id opposite).map fun child => (child.1, child.2.map f) := by
  cases n with
  | binary op left right =>
    by_cases hop : op.isComparison <;> simp [against, hop, map, Opposite.map]
  | list items => cases opposite <;> simp [against, map, Expr.itemOpposite, Opposite.map]
  | _ =>
    simp [against, map, WindowRef.map_map, Part.map_map, Function.comp_def, Opposite.map]

/-- A replacement of nodes that keeps all that stored forms depend on. -/
structure Node.Unsettled (r : {α : Type} → Node α → Node α) : Prop where
  map : ∀ {α β : Type} (f : α → β) (n : Node α), r (n.map f) = (r n).map f
  against : ∀ {α : Type} (raw : α → Expr) (opposite : Opposite) (n : Node α),
    (r n).against raw opposite = r (n.against raw opposite)
  stored : ∀ {α : Type} (form : LiteralForm) (opposite : Opposite) (n : Node α),
    (r n).stored form opposite = r (n.stored form opposite)
  operand : ∀ (form : LiteralForm) (value : Value) (n : Node Expr),
    Expr.storedLiteral? form value (.operand ⟨r n⟩) =
      Expr.storedLiteral? form value (.operand ⟨n⟩)

namespace Expr

variable {form : LiteralForm}

/-- Such a replacement may be made before or after literals are put into their stored forms. -/
theorem settle_relabel {r : {α : Type} → Node α → Node α} (hr : Node.Unsettled r) (e : Expr) :
    ∀ opposite : Opposite, (e.relabel r).settle form (opposite.map (relabel r)) =
      (e.settle form opposite).relabel r := by
  refine Expr.induction (P := fun e => ∀ opposite : Opposite,
    (e.relabel r).settle form (opposite.map (relabel r)) = (e.settle form opposite).relabel r) ?_ e
  intro n ih opposite
  have hliteral : ∀ value, storedLiteral? form value (opposite.map (relabel r)) =
      storedLiteral? form value opposite := by
    intro value
    cases opposite with
    | operand other =>
      obtain ⟨m⟩ := other
      rw [Opposite.map, relabel_mk, hr.operand]
      cases m <;> rfl
    | _ => rfl
  have hstored : ∀ m : Node Expr, m.stored form (opposite.map (relabel r)) =
      m.stored form opposite := by
    intro m
    cases m with
    | literal value => exact congrArg (fun v => Node.literal (v.getD value)) (hliteral value)
    | _ => rfl
  have hagainst : (r (n.map (relabel r))).against id (opposite.map (relabel r)) =
      r ((n.against id opposite).map fun child =>
        (child.1.relabel r, child.2.map (relabel r))) := by
    rw [hr.against, Node.against_map, Function.id_comp, Node.against_opposite, Node.map_map]
    rfl
  rw [relabel_mk, settle_mk, settle_mk, relabel_mk, hagainst, ← hr.map, hstored, hr.stored,
    Node.map_map, ← Node.stored_map, Node.map_map]
  refine congrArg (fun m => Expr.mk (r (Node.stored form opposite m))) ?_
  exact Node.map_congr fun child hchild => ih child.1 (mem_of_mem_against hchild) child.2

/-! ### Keys do not see the numbers of placeholders -/

theorem encode_forget_numbers (n : Node KeyNode) :
    (Detail.numbers.forget n).encode = n.encode := by
  cases n <;> rfl

theorem code_without_numbers (e : Expr) : (e.without .numbers).code = e.code := by
  refine Expr.induction (P := fun e => (e.without .numbers).code = e.code) ?_ e
  intro n ih
  rw [without_mk, code_mk, code_mk, ← Detail.numbers.forget_map, encode_forget_numbers,
    Node.map_map]
  exact congrArg Node.encode (Node.map_congr ih)

theorem rangeFree_without_numbers (e : Expr) :
    (e.without .numbers).RangeFree ↔ e.RangeFree := by
  refine Expr.induction (P := fun e => (e.without .numbers).RangeFree ↔ e.RangeFree) ?_ e
  intro n ih
  have hrange : (Detail.numbers.forget (n.map (without .numbers))).isRange = n.isRange := by
    cases n <;> rfl
  rw [without_mk, rangeFree_mk, rangeFree_mk, hrange, Detail.numbers.children_forget,
    Node.children_map, List.forall_mem_map]
  exact and_congr_right fun _ => forall₂_congr ih

theorem unsettled_numbers : Node.Unsettled Detail.numbers.forget where
  map := Detail.numbers.forget_map
  against raw opposite n := by
    cases n with
    | binary op left right =>
      by_cases hop : op.isComparison <;> simp [Node.against, hop, Detail.numbers]
    | _ => rfl
  stored form opposite n := by cases n <;> rfl
  operand form value n := by cases n <;> rfl

theorem settle_without_numbers (e : Expr) (opposite : Opposite) :
    (e.without .numbers).settle form (opposite.map (without .numbers)) =
      (e.settle form opposite).without .numbers :=
  settle_relabel unsettled_numbers e opposite

end Expr

end QueryPlanner
