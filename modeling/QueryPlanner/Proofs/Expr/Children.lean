import QueryPlanner.Expr.Walk

/-!
# A node as a shape that holds children

A node is its shape, which is what remains when its children are forgotten, and the list of its
children in reading order.  Replacing children never touches the shape.

* `Node.children_map`, `Node.shape_map` — what a replacement does to the two halves
* `Node.ext_children` — the two halves determine the node
* `Node.map_congr` — a replacement is what it does to the children
* `Expr.relabel` — every node of an expression replaced
-/

namespace QueryPlanner

variable {α β γ : Type}

/-- Lists that agree under `w` hold equally much, if elements that agree under `w` do. -/
theorem List.length_flatMap_of_map_eq {δ ι : Type} {w : α → ι} {d : α → List δ} :
    ∀ {xs ys : List α}, xs.map w = ys.map w →
      (∀ x ∈ xs, ∀ y, w x = w y → (d x).length = (d y).length) →
      (xs.flatMap d).length = (ys.flatMap d).length
  | [], [], _, _ => rfl
  | x :: xs, y :: ys, hw, hlen => by
    simp only [List.map_cons, List.cons.injEq] at hw
    have hhead := hlen x List.mem_cons_self y hw.1
    have htail := List.length_flatMap_of_map_eq (d := d) hw.2
      fun z hz => hlen z (List.mem_cons_of_mem x hz)
    rw [List.flatMap_cons, List.flatMap_cons, List.length_append, List.length_append, hhead, htail]

/-- Lists that agree under `w` and in what their elements hold are equal, if elements that do so
are. -/
theorem List.eq_of_map_eq_of_flatMap_eq {δ ι : Type} {w : α → ι} {d : α → List δ}
    (hlen : ∀ x y, w x = w y → (d x).length = (d y).length) :
    ∀ {xs ys : List α}, xs.map w = ys.map w → xs.flatMap d = ys.flatMap d →
      (∀ x ∈ xs, ∀ y, w x = w y → d x = d y → x = y) → xs = ys
  | [], [], _, _, _ => rfl
  | x :: xs, y :: ys, hw, hd, hinj => by
    simp only [List.map_cons, List.cons.injEq] at hw
    simp only [List.flatMap_cons] at hd
    obtain ⟨hx, hxs⟩ := List.append_inj hd (hlen x y hw.1)
    have hhead : x = y := hinj x List.mem_cons_self y hw.1 hx
    have htail : xs = ys := List.eq_of_map_eq_of_flatMap_eq hlen hw.2 hxs
      fun z hz => hinj z (List.mem_cons_of_mem x hz)
    rw [hhead, htail]

/-- Equal concatenations of pieces of equal lengths have equal pieces. -/
theorem List.eqOn_of_flatMap_eq {d d' : α → List β} :
    ∀ {xs : List α}, (∀ x ∈ xs, (d x).length = (d' x).length) → xs.flatMap d = xs.flatMap d' →
      ∀ x ∈ xs, d x = d' x
  | [], _, _, _, h => nomatch h
  | x :: xs, hlen, h, z, hz => by
    simp only [List.flatMap_cons] at h
    obtain ⟨hhead, htail⟩ := List.append_inj h (hlen x List.mem_cons_self)
    rcases List.mem_cons.mp hz with rfl | hz
    · exact hhead
    · exact List.eqOn_of_flatMap_eq (fun y hy => hlen y (List.mem_cons_of_mem x hy)) htail z hz

/-- Lists that agree under `f` agree under what `f` tells of their elements. -/
theorem List.map_eq_of_map_eq {f : α → β} {g : α → γ} :
    ∀ {xs ys : List α}, (∀ x ∈ xs, ∀ y ∈ ys, f x = f y → g x = g y) → xs.map f = ys.map f →
      xs.map g = ys.map g
  | [], [], _, _ => rfl
  | x :: xs, y :: ys, hfg, h => by
    simp only [List.map_cons, List.cons.injEq] at h ⊢
    have hhead := hfg x List.mem_cons_self y List.mem_cons_self h.1
    have htail := List.map_eq_of_map_eq (g := g) (fun x' hx y' hy =>
      hfg x' (List.mem_cons_of_mem x hx) y' (List.mem_cons_of_mem y hy)) h.2
    exact ⟨hhead, htail⟩

theorem Part.children_map (f : α → β) (p : Part α) : (p.map f).children = p.children.map f := by
  cases p <;> rfl

theorem Part.map_map (g : β → γ) (f : α → β) (p : Part α) : (p.map f).map g = p.map (g ∘ f) := by
  cases p <;> rfl

theorem Part.flatMap_children_map (f : α → β) (ps : List (Part α)) :
    (ps.map (Part.map f)).flatMap Part.children = (ps.flatMap Part.children).map f := by
  simp only [List.flatMap_map, List.map_flatMap, Part.children_map]

theorem Ordered.map_map (g : β → γ) (f : α → β) (o : Ordered α) :
    (o.map f).map g = o.map (g ∘ f) := rfl

theorem Window.children_map (f : α → β) (w : Window α) :
    (w.map f).children = w.children.map f := by
  obtain ⟨partition, order, frame⟩ := w
  cases frame <;> simp [Window.children, Window.map, Ordered.map, Part.flatMap_children_map]

theorem Window.map_map (g : β → γ) (f : α → β) (w : Window α) :
    (w.map f).map g = w.map (g ∘ f) := by
  obtain ⟨partition, order, frame⟩ := w
  cases frame <;> simp [Window.map, Ordered.map_map, Part.map_map, Function.comp_def]

theorem WindowRef.children_map (f : α → β) (w : WindowRef α) :
    (w.map f).children = w.children.map f := by
  cases w <;> simp [WindowRef.children, WindowRef.map, Window.children_map]

theorem WindowRef.map_map (g : β → γ) (f : α → β) (w : WindowRef α) :
    (w.map f).map g = w.map (g ∘ f) := by
  cases w <;> simp [WindowRef.map, Window.map_map]

namespace Node

/-- Replacing the children of a node replaces them in its list of children. -/
theorem children_map (f : α → β) (n : Node α) : (n.map f).children = n.children.map f := by
  cases n <;> simp [children, map, WindowRef.children_map, Part.flatMap_children_map]

theorem map_map (g : β → γ) (f : α → β) (n : Node α) : (n.map f).map g = n.map (g ∘ f) := by
  cases n <;> simp [map, WindowRef.map_map, Part.map_map, Function.comp_def]

/-- What remains of a node when its children are forgotten. -/
def shape (n : Node α) : Node Unit := n.map fun _ => ()

/-- Replacing the children of a node keeps its shape. -/
@[simp] theorem shape_map (f : α → β) (n : Node α) : (n.map f).shape = n.shape := map_map _ f n

end Node

/-! ### The shape and the children determine the whole -/

theorem Part.length_children {p : Part α} {q : Part β}
    (hs : p.map (fun _ => ()) = q.map fun _ => ()) : p.children.length = q.children.length := by
  have h := congrArg (fun r => r.children.length) hs
  simpa only [Part.children_map, List.length_map] using h

theorem Part.ext_children {p q : Part α} (hs : p.map (fun _ => ()) = q.map fun _ => ())
    (hc : p.children = q.children) : p = q := by
  cases p <;> cases q <;> simp_all [Part.map, Part.children]

theorem Part.ext_flatMap_children {ps qs : List (Part α)}
    (hs : ps.map (Part.map fun _ => ()) = qs.map (Part.map fun _ => ()))
    (hc : ps.flatMap Part.children = qs.flatMap Part.children) : ps = qs :=
  List.eq_of_map_eq_of_flatMap_eq (fun _ _ => Part.length_children) hs hc
    fun _ _ _ => Part.ext_children

theorem Ordered.ext_terms {os us : List (Ordered α)}
    (hs : os.map (Ordered.map fun _ => ()) = us.map (Ordered.map fun _ => ()))
    (hc : os.map (·.term) = us.map (·.term)) : os = us := by
  have hflat : os.flatMap (fun o => [o.term]) = us.flatMap fun o => [o.term] := by
    simpa only [List.map_eq_flatMap] using hc
  refine List.eq_of_map_eq_of_flatMap_eq (fun _ _ _ => rfl) hs hflat ?_
  rintro ⟨d, t⟩ - ⟨d', t'⟩ hd ht
  simp_all [Ordered.map]

theorem Window.ext_children {v w : Window α} (hs : v.map (fun _ => ()) = w.map fun _ => ())
    (hc : v.children = w.children) : v = w := by
  obtain ⟨vp, vo, vf⟩ := v
  obtain ⟨wp, wo, wf⟩ := w
  simp only [Window.map, Window.mk.injEq] at hs
  obtain ⟨hp, ho, hf⟩ := hs
  have hplen : vp.length = wp.length := by simpa using congrArg List.length hp
  have holen : (vo.map (·.term)).length = (wo.map (·.term)).length := by
    simpa using congrArg List.length ho
  simp only [Window.children, List.append_assoc] at hc
  obtain ⟨hp', hrest⟩ := List.append_inj hc hplen
  obtain ⟨ho', hf'⟩ := List.append_inj hrest holen
  have horder : vo = wo := Ordered.ext_terms ho ho'
  have hframe : vf = wf := by
    cases vf <;> cases wf <;> simp only [Option.map_none, Option.map_some, reduceCtorEq,
      Option.some.injEq] at hf ⊢
    exact Part.ext_flatMap_children hf hf'
  rw [hp', horder, hframe]

theorem WindowRef.ext_children {v w : WindowRef α}
    (hs : v.map (fun _ => ()) = w.map fun _ => ()) (hc : v.children = w.children) : v = w := by
  cases v <;> cases w <;>
    simp only [WindowRef.map, reduceCtorEq, WindowRef.named.injEq, WindowRef.inline.injEq] at hs ⊢
  · exact hs
  · exact Window.ext_children hs hc

/-- Nodes of one shape with the same children are equal. -/
theorem Node.ext_children {n m : Node α} (hs : n.shape = m.shape)
    (hc : n.children = m.children) : n = m := by
  cases n <;> cases m <;> simp only [shape, map, reduceCtorEq] at hs
  case mapping.mapping es fs =>
    simp only [mapping.injEq] at hs ⊢
    have hflat : es.flatMap (fun e => [e.2]) = fs.flatMap fun e => [e.2] := by
      simpa only [children, List.map_eq_flatMap] using hc
    refine List.eq_of_map_eq_of_flatMap_eq (fun _ _ _ => rfl) hs hflat ?_
    rintro ⟨k, e⟩ - ⟨k', e'⟩ hk he
    simp_all
  case windowed.windowed =>
    simp only [windowed.injEq] at hs ⊢
    simp only [children, List.cons.injEq] at hc
    exact ⟨hc.1, WindowRef.ext_children hs.2 hc.2⟩
  case fragment.fragment =>
    simp only [fragment.injEq] at hs ⊢
    exact Part.ext_flatMap_children hs hc
  all_goals simp_all [children]

/-- A replacement that agrees on the children agrees on the node. -/
theorem Node.map_congr {n : Node α} {f g : α → β} (h : ∀ c ∈ n.children, f c = g c) :
    n.map f = n.map g := by
  apply Node.ext_children
  · rw [shape_map, shape_map]
  · rw [children_map, children_map]
    exact List.map_congr_left h

theorem Node.map_id (n : Node α) : n.map id = n := by
  apply Node.ext_children
  · rw [shape_map]
  · rw [children_map, List.map_id]

/-- The expression with every node replaced, children first. -/
def Expr.relabel (r : {α : Type} → Node α → Node α) : Expr → Expr :=
  fold fun n => ⟨r (n.map (·.2))⟩

theorem Expr.relabel_mk (r : {α : Type} → Node α → Node α) (n : Node Expr) :
    relabel r ⟨n⟩ = ⟨r (n.map (relabel r))⟩ := by
  rw [relabel, fold_mk, Node.map_map]
  rfl

end QueryPlanner
