import QueryPlanner.Proofs.CacheKey.Expr
import QueryPlanner.Proofs.Plan.Placeholders

/-!
# An expression can be read back from its code

A code tells which node it is the code of and what its children's codes are.  It does not tell the
numbers of placeholders, and of an annotation it tells the text only.  So expressions with one code
are equal up to these two.

* `Node.decode_encode` — the node that a code is of
* `Expr.code_inj` — expressions with one code differ in numbers and annotations only
-/

namespace QueryPlanner

/-! ### Reading words -/

namespace KeyNode

/-- The text of an atom. -/
def word : KeyNode → String
  | atom text => text
  | _ => ""

/-- The children of a list. -/
def elements : KeyNode → List KeyNode
  | list children => children
  | _ => []

/-- The binding whose number a key is. -/
def binding : KeyNode → Nat
  | value (.int number) => (if number < 0 then number + (Nat.pow 2 64 : Int) else number).toNat
  | _ => 0

/-- The name and the key of an entry. -/
def entry : KeyNode → String × KeyNode
  | tagged name [key] => (name, key)
  | key => ("", key)

theorem binding_ofBinding (ix : Nat) : (ofBinding ix).binding = ix := by
  have h63 : Nat.pow 2 63 = 9223372036854775808 := rfl
  have h64 : Nat.pow 2 64 = 18446744073709551616 := rfl
  simp only [ofBinding, bindingNumber, binding, h63, h64]
  split <;> split <;> omega

mutual

/-- The field that a binding is narrowed to. -/
def take : KeyNode → Take
  | atom name => .field name
  | tagged name [list nested] => .association name (takes nested)
  | _ => .field ""

/-- The fields that a binding is narrowed to. -/
def takes : List KeyNode → List Take
  | [] => []
  | key :: keys => key.take :: takes keys

end

mutual

theorem take_takeKey : ∀ t : Take, (Expr.takeKey t).take = t
  | .field name => by rw [Expr.takeKey, take]
  | .association name nested => by rw [Expr.takeKey, take, takes_takeKeys nested]

theorem takes_takeKeys : ∀ ts : List Take, takes (Expr.takeKeys ts) = ts
  | [] => by rw [Expr.takeKeys, takes]
  | t :: ts => by rw [Expr.takeKeys, takes, take_takeKey t, takes_takeKeys ts]

end

end KeyNode

/-- The operator that is written so. -/
def BinaryOp.ofSymbol : String → BinaryOp
  | "==" => eq
  | "!=" => ne
  | "<" => lt
  | ">" => gt
  | "<=" => lte
  | ">=" => gte
  | "and" => and
  | "or" => or
  | "+" => add
  | "-" => sub
  | "*" => mul
  | "/" => div
  | "like" => like
  | _ => ilike

/-! ### Reading containers -/

/-- The part of a fragment that is written so. -/
def Part.decode : KeyNode → Part KeyNode
  | .atom text => .raw text
  | key => .term key

/-- The order item that is written so. -/
def Ordered.decode (key : KeyNode) : Ordered KeyNode :=
  ⟨if key.entry.1 = "asc" then .asc else .desc, key.entry.2⟩

/-- The window that is written so. -/
def Window.decode : KeyNode → Window KeyNode
  | .list [partition, order, .tagged _ parts] =>
    ⟨partition.elements, order.elements.map Ordered.decode, some (parts.map Part.decode)⟩
  | .list [partition, order, _] =>
    ⟨partition.elements, order.elements.map Ordered.decode, none⟩
  | _ => ⟨[], [], none⟩

/-- The window reference that is written so. -/
def WindowRef.decode : KeyNode → WindowRef KeyNode
  | .atom name => .named name
  | key => .inline (Window.decode key)

/-- The node that is written so. -/
def Node.decode : KeyNode → Node KeyNode
  | .value value => .literal value
  | .list items => .list items
  | .tagged "field" [ix, name] => .field ix.binding name.word
  | .tagged "binding" [ix] => .binding ix.binding
  | .tagged "not" [inner] => .not inner
  | .tagged "is_nil" [inner] => .isNil inner
  | .tagged "in" [left, right] => .isIn left right
  | .tagged "tuple" [items] => .tuple items.elements
  | .tagged "map" entries => .mapping (entries.map KeyNode.entry)
  | .tagged "call" (name :: arguments) => .call name.word arguments
  | .tagged "type" [inner, type] => .typed inner (.custom type.word)
  | .tagged "over" [inner, window] => .windowed inner (WindowRef.decode window)
  | .tagged "fragment" parts => .fragment (parts.map Part.decode)
  | .tagged "struct" [ix, take] => .structOf ix.binding (KeyNode.takes take.elements)
  | .tagged "map_of" [ix, take] => .mapOf ix.binding (KeyNode.takes take.elements)
  | .tagged "selected_as" [inner, name] => .selectedAs inner name.word
  | .tagged "selected_as" [name] => .selectedRef name.word
  | .tagged symbol [left, right] => .binary (BinaryOp.ofSymbol symbol) left right
  | _ => .param 0

/-! ### Writing and reading -/

/-- A key that is more than a word. -/
def KeyNode.isCompound : KeyNode → Bool
  | .atom _ => false
  | _ => true

theorem Part.decode_encode {p : Part KeyNode} (h : ∀ c ∈ p.children, c.isCompound = true) :
    decode p.encode = p := by
  cases p with
  | raw text => rfl
  | term key =>
    have hkey := h key (List.mem_singleton_self key)
    cases key <;> first | rfl | cases hkey

theorem Part.map_decode_encode {ps : List (Part KeyNode)}
    (h : ∀ c ∈ ps.flatMap children, c.isCompound = true) :
    (ps.map encode).map decode = ps := by
  rw [List.map_map]
  refine (List.map_congr_left fun p hp => ?_).trans (List.map_id ps)
  exact decode_encode fun c hc => h c (List.mem_flatMap.mpr ⟨p, hp, hc⟩)

theorem Ordered.decode_encode (o : Ordered KeyNode) : decode o.encode = o := by
  obtain ⟨direction, term⟩ := o
  cases direction <;> rfl

theorem Window.decode_encode {w : Window KeyNode}
    (h : ∀ c ∈ w.children, c.isCompound = true) : decode w.encode = w := by
  obtain ⟨partition, order, frame⟩ := w
  have horder : (order.map Ordered.encode).map Ordered.decode = order := by
    rw [List.map_map]
    exact (List.map_congr_left fun o _ => o.decode_encode).trans (List.map_id order)
  cases frame with
  | none => simp [encode, decode, KeyNode.null, KeyNode.elements, horder]
  | some parts =>
    have hparts := Part.map_decode_encode fun c hc => h c (List.mem_append_right _ hc)
    simp only [encode, decode, Part.encodeAll, KeyNode.elements, horder, hparts]

theorem WindowRef.decode_encode {w : WindowRef KeyNode}
    (h : ∀ c ∈ w.children, c.isCompound = true) : decode w.encode = w := by
  cases w with
  | named name => rfl
  | inline window => exact congrArg inline (Window.decode_encode h)

/-- **A node can be read back** from what is written of it, but for numbers and annotations. -/
theorem Node.decode_encode {n : Node KeyNode} (hextracted : n.interpolates = false)
    (hrange : n.isRange = false) (hcompound : ∀ c ∈ n.children, c.isCompound = true) :
    decode n.encode = Detail.numbers.forget (Detail.annotations.forget n) := by
  cases n with
  | pin | dynamic | keywords => cases hextracted
  | paramRange => cases hrange
  | binary op left right => cases op <;> rfl
  | mapping entries =>
    simp [encode, decode, Function.comp_def, KeyNode.entry, Detail.numbers, Detail.annotations]
  | fragment parts => exact congrArg fragment (Part.map_decode_encode hcompound)
  | windowed inner window =>
    have hwindow := WindowRef.decode_encode fun c hc => hcompound c (List.mem_cons_of_mem inner hc)
    simp [encode, decode, hwindow, Detail.numbers, Detail.annotations]
  | field | binding | structOf | mapOf =>
    simp [encode, decode, KeyNode.word, KeyNode.elements, KeyNode.binding_ofBinding,
      KeyNode.takes_takeKeys, Detail.numbers, Detail.annotations]
  | _ => rfl

/-! ### Expressions -/

namespace Expr

/-- An expression that its code tells apart from others: nothing is interpolated any more, and no
placeholders stand for a collection. -/
structure Legible (e : Expr) : Prop where
  extracted : e.Extracted
  rangeFree : e.RangeFree

theorem legible_mk {n : Node Expr} : Legible ⟨n⟩ ↔
    n.interpolates = false ∧ n.isRange = false ∧ ∀ c ∈ n.children, c.Legible := by
  constructor
  · rintro ⟨hextracted, hrange⟩
    obtain ⟨hn, hextracted⟩ := extracted_mk.mp hextracted
    obtain ⟨hr, hrange⟩ := rangeFree_mk.mp hrange
    exact ⟨hn, hr, fun c hc => ⟨hextracted c hc, hrange c hc⟩⟩
  · rintro ⟨hn, hr, hc⟩
    exact ⟨extracted_mk.mpr ⟨hn, fun c hc' => (hc c hc').extracted⟩,
      rangeFree_mk.mpr ⟨hr, fun c hc' => (hc c hc').rangeFree⟩⟩

theorem Legible.settle {form : LiteralForm} {e : Expr} (h : e.Legible) (opposite : Opposite) :
    (e.settle form opposite).Legible where
  extracted :=
    (forall_walk_settle Node.interpolates_map (fun _ _ => rfl) e opposite).mpr h.extracted
  rangeFree := (rangeFree_settle e opposite).mpr h.rangeFree

/-- The expression as far as its code tells it. -/
def outline (e : Expr) : Expr := (e.without .annotations).without .numbers

theorem outline_mk (n : Node Expr) : outline ⟨n⟩ =
    ⟨Detail.numbers.forget (Detail.annotations.forget (n.map outline))⟩ := by
  rw [outline, without_mk, without_mk, ← Detail.annotations.forget_map, Node.map_map]
  rfl

/-- The code of an expression is never a mere word, as a text in a fragment is. -/
theorem isCompound_code {e : Expr} (h : e.Legible) : e.code.isCompound = true := by
  obtain ⟨n⟩ := e
  obtain ⟨hn, -⟩ := legible_mk.mp h
  rw [code_mk]
  cases n <;> first | rfl | cases hn

/-- **Expressions with one code** differ in numbers and annotations only. -/
theorem code_inj (e₁ : Expr) : ∀ e₂ : Expr, e₁.Legible → e₂.Legible → e₁.code = e₂.code →
    e₁.outline = e₂.outline := by
  refine Expr.induction (P := fun e₁ => ∀ e₂ : Expr, e₁.Legible → e₂.Legible →
    e₁.code = e₂.code → e₁.outline = e₂.outline) ?_ e₁
  rintro n ih ⟨m⟩ h₁ h₂ hcode
  have hread : ∀ {k : Node Expr}, Legible ⟨k⟩ → Node.decode (code ⟨k⟩) =
      (Detail.numbers.forget (Detail.annotations.forget k)).map code := by
    intro k hk
    obtain ⟨hextracted, hrange, hchildren⟩ := legible_mk.mp hk
    rw [code_mk, ← Detail.numbers.forget_map, ← Detail.annotations.forget_map]
    refine Node.decode_encode ((Node.interpolates_map code k).trans hextracted) ?_ ?_
    · cases k <;> exact hrange
    · rw [Node.children_map]
      exact List.forall_mem_map.mpr fun c hc => isCompound_code (hchildren c hc)
  have hnodes := (hread h₁).symm.trans ((congrArg Node.decode hcode).trans (hread h₂))
  rw [outline_mk, outline_mk, Detail.annotations.forget_map, Detail.annotations.forget_map,
    Detail.numbers.forget_map, Detail.numbers.forget_map]
  refine congrArg Expr.mk (Node.ext_children ?_ ?_)
  · have hshapes := congrArg Node.shape hnodes
    rwa [Node.shape_map, Node.shape_map] at hshapes ⊢
  · have hchildren := congrArg Node.children hnodes
    simp only [Node.children_map, Detail.annotations.children_forget,
      Detail.numbers.children_forget] at hchildren ⊢
    refine List.map_eq_of_map_eq (fun c hc c' hc' => ?_) hchildren
    exact ih c hc c' ((legible_mk.mp h₁).2.2 c hc) ((legible_mk.mp h₂).2.2 c' hc')

end Expr

end QueryPlanner
