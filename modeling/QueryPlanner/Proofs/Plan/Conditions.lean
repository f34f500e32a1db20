import QueryPlanner.Proofs.Expr.Inert
import QueryPlanner.Proofs.Plan.Blocks

/-!
# The conditions of association joins

Bindings do not grow along the joins of a level: the last join of a block has a smaller one than
those before it.  The conditions that associations make refer backwards all the same, each to its
own binding and to that of the join before it or, at the start of a block, to the declared parent.

* `Expr.bindings` — the bindings that an expression names
* `Introduced` — the bindings that stand for rows once the joins so far are made
* `Clauses.resolve_conditions` — the condition of every join that an association makes
-/

namespace QueryPlanner

variable {σ : Type} {ctx : Context} {queryPrefix : Option String}

/-! ### The bindings that an expression names -/

/-- The binding that a node names, if it names one. -/
def Node.bindings {α : Type} : Node α → List Nat
  | .field ix _ | .binding ix | .structOf ix _ | .mapOf ix _ => [ix]
  | _ => []

namespace Expr

/-- The bindings that are named in an expression, with repetitions. -/
def bindings (e : Expr) : List Nat := e.walk.flatMap (·.node.bindings)

theorem bindings_mk (n : Node Expr) :
    bindings ⟨n⟩ = n.bindings ++ n.children.flatMap bindings := by
  rw [bindings, walk_mk, List.flatMap_cons, List.flatMap_assoc]
  rfl

theorem bindings_field (ix : Nat) (name : String) : bindings (.field ix name) = [ix] :=
  bindings_mk _

theorem bindings_binary (op : BinaryOp) (left right : Expr) :
    bindings (.binary op left right) = left.bindings ++ right.bindings := by
  rw [Expr.binary, bindings_mk]
  simp [Node.bindings, Node.children]

/-- A conjunction names what its parts name. -/
theorem mem_bindings_conjunction {ix : Nat} : ∀ {parts : List Expr} {first : Expr},
    ix ∈ (parts.foldl Expr.and first).bindings ↔
      ix ∈ first.bindings ∨ ∃ part ∈ parts, ix ∈ part.bindings
  | [], first => by simp
  | part :: parts, first => by
    rw [List.foldl_cons, mem_bindings_conjunction, Expr.and, bindings_binary]
    simp [or_assoc]

end Expr

/-! ### The condition of a hop -/

/-- A filter names no binding but that of its target. -/
theorem AssociationFilter.bindings_expr (ix : Nat) (f : AssociationFilter) :
    ∀ x ∈ (f.expr ix).bindings, x = ix := by
  have hnode : ∀ {n : Node Expr}, n.bindings = [] → (∀ c ∈ n.children, ∀ x ∈ c.bindings, x = ix) →
      ∀ x ∈ (Expr.mk n).bindings, x = ix := by
    intro n hn hc x hx
    rw [Expr.bindings_mk, hn, List.nil_append] at hx
    obtain ⟨c, hmem, hx⟩ := List.mem_flatMap.mp hx
    exact hc c hmem x hx
  have hfield : ∀ x ∈ (Expr.field ix f.field).bindings, x = ix := by
    simp [Expr.bindings_field]
  have hliteral : ∀ value, ∀ x ∈ (Expr.literal value).bindings, x = ix :=
    fun value => hnode rfl fun c hc => nomatch hc
  have hnil : ∀ x ∈ (Expr.isNil (.field ix f.field)).bindings, x = ix :=
    hnode rfl fun c hc => List.mem_singleton.mp hc ▸ hfield
  unfold expr
  cases f.condition with
  | eq value =>
    refine hnode rfl fun c hc => ?_
    simp only [Node.children, List.mem_cons, List.not_mem_nil, or_false] at hc
    rcases hc with rfl | rfl
    · exact hfield
    · exact hliteral value
  | isNil => exact hnil
  | notNil => exact hnode rfl fun c hc => List.mem_singleton.mp hc ▸ hnil
  | oneOf values =>
    refine hnode rfl fun c hc => ?_
    simp only [Node.children, List.mem_cons, List.not_mem_nil, or_false] at hc
    rcases hc with rfl | rfl
    · exact hfield
    · refine hnode rfl fun c hc => ?_
      obtain ⟨value, -, rfl⟩ := List.mem_map.mp hc
      exact hliteral value
  | fragment text =>
    refine hnode rfl fun c hc => ?_
    rw [List.eq_of_mem_replicate (Part.mem_of_mem_ofText hc)]
    exact hfield

/-- The keys of a link are equal, and its filters hold of its target. -/
theorem Hop.condition_eq (hop : Hop) (parent ix : Nat) :
    hop.condition parent ix =
      (hop.link.filters.map (·.expr ix)).foldl Expr.and
        ((Expr.field ix hop.link.relatedKey).eq (.field parent hop.link.ownerKey)) := by
  rw [List.foldl_map]
  rfl

/-- A condition names the binding of its hop and the one that the hop starts from. -/
theorem Hop.bindings_condition (hop : Hop) (parent ix : Nat) :
    ∀ x ∈ (hop.condition parent ix).bindings, x = ix ∨ x = parent := by
  intro x hx
  rw [hop.condition_eq, Expr.mem_bindings_conjunction] at hx
  rcases hx with hx | ⟨part, hpart, hx⟩
  · simpa [Expr.eq, Expr.bindings_binary, Expr.bindings_field] using hx
  · obtain ⟨f, -, rfl⟩ := List.mem_map.mp hpart
    exact .inl (f.bindings_expr ix x hx)

/-! ### The joins of a level -/

/-- What stands before a place in a block, and in the blocks before it, stands before it in all. -/
theorem List.isPrefix_flatten {α : Type} {blocks : List (List α)} {block : List α} {i k : Nat}
    {x : α} (hblock : blocks[i]? = some block) (hx : block[k]? = some x) :
    (blocks.take i).flatten ++ block.take k ++ [x] <+: blocks.flatten := by
  have hblocks : (blocks.take i).flatten ++ block = (blocks.take (i + 1)).flatten := by
    simp [List.take_add_one, hblock]
  have hplace : block.take k ++ [x] <+: block := by
    simpa [List.take_add_one, hx] using List.take_prefix (k + 1) block
  rw [List.append_assoc]
  refine ((List.prefix_append_right_inj _).mpr hplace).trans ?_
  rw [hblocks]
  exact ⟨(blocks.drop (i + 1)).flatten, by rw [← List.flatten_append, List.take_append_drop]⟩

/-- The bindings that have rows once `joins` are made: that of `from`, and theirs. -/
def Introduced (joins : List (Join σ)) (ix : Nat) : Prop := ix = 0 ∨ ∃ j ∈ joins, j.ix = some ix

/-- A join that an association makes, along `link` from the binding `parent` to its own. -/
structure Join.Along (hop : Join σ) (link : Link) (parent ix : Nat) (condition : Expr) : Prop where
  binding : hop.ix = some ix
  on : hop.on = some condition
  conjunction : condition = (link.filters.map (·.expr ix)).foldl Expr.and
    ((Expr.field ix link.relatedKey).eq (.field parent link.ownerKey))
  filters : ∀ f ∈ link.filters, ∀ x ∈ (f.expr ix).bindings, x = ix
  bindings : ∀ x ∈ condition.bindings, x = ix ∨ x = parent

theorem Hop.along_join (hop : Hop) (j : Join σ) (parent ix : Nat) :
    (hop.join ctx queryPrefix j parent ix).Along hop.link parent ix (hop.condition parent ix) where
  binding := rfl
  on := rfl
  conjunction := hop.condition_eq parent ix
  filters f _ := f.bindings_expr ix
  bindings := hop.bindings_condition parent ix

/-- The joins of a block go along the links of the association: the first from the declared parent,
each other one from the join before it. -/
theorem Join.Becomes.along_links {bound : Nat → Option BoundSource} {ix : Nat} {j : Join σ}
    {block : List (Join σ)} {ref : AssociationRef}
    (h : j.Becomes ctx queryPrefix bound ix block) (href : j.association = some ref) :
    ref.parent < ix ∧ ∃ steps target, ref.Leads ctx.registry bound steps target ∧
      block.length = (steps.flatMap Association.links).length ∧
      ∀ (k : Nat) (hop : Join σ), block[k]? = some hop → ∃ link parent ix condition,
        (steps.flatMap Association.links)[k]? = some link ∧
        (some ref.parent :: block.map Join.ix)[k]? = some (some parent) ∧
        hop.Along link parent ix condition := by
  cases h with
  | explicit own => simp [own] at href
  | @along ref' steps target hops fresh declared earlier leads makes =>
    obtain rfl : ref' = ref := Option.some.inj (declared.symm.trans href)
    have hhop := hop_placeHops ix hops ref'.parent fresh
    refine ⟨earlier, steps, target, leads, ?_, fun k hop hk => ?_⟩
    · rw [← makes.1, List.length_map, List.length_map, ← congrArg List.length hhop,
        List.length_map]
    · rw [List.getElem?_map] at hk
      obtain ⟨p, hp, rfl⟩ := Option.map_eq_some_iff.mp hk
      refine ⟨p.2.2.link, p.1, p.2.1, _, ?_, ?_, p.2.2.along_join j p.1 p.2.1⟩
      · rw [← makes.1, ← hhop, List.map_map, List.getElem?_map, hp]
        rfl
      · have hparent := parent_placeHops ix hops ref'.parent fresh k p hp
        have hix : List.map Join.ix ((placeHops ref'.parent fresh ix hops).map fun p =>
            p.2.2.join ctx queryPrefix j p.1 p.2.1) =
              ((placeHops ref'.parent fresh ix hops).map (·.2.1)).map some := by
          rw [List.map_map, List.map_map]
          rfl
        rw [hix, ← List.map_cons, List.getElem?_map, hparent, Option.map_some]

namespace Clauses

/-- **The conditions of association joins.** The joins of a level are the blocks of its declared
joins, in declared order.  Those of an association join go along the links of the association.  The
condition of each starts with an equation between a key of its own binding and a key of its parent,
which is the declared parent at the start of the block and then the binding of the join before.
The filters of the link follow in declared order, and name no binding but that of the join.  So
whatever the condition names is the binding of the join, or introduced before it. -/
theorem resolve_conditions {c : Clauses σ} {b : Bindings σ} (h : c.resolve ctx = .ok b) :
    ∃ blocks : List (List (Join σ)), b.joins = blocks.flatten ∧ blocks.length = c.joins.length ∧
      ∀ (i : Nat) (j : Join σ) (ref : AssociationRef), c.joins[i]? = some j →
        j.association = some ref →
        ∃ block steps target, blocks[i]? = some block ∧
          block.getLast?.bind Join.ix = some (i + 1) ∧
          ref.Leads ctx.registry (b.sources[·]?) steps target ∧
          block.length = (steps.flatMap Association.links).length ∧
          ∀ (k : Nat) (hop : Join σ), block[k]? = some hop → ∃ link parent ix condition,
            (steps.flatMap Association.links)[k]? = some link ∧
            (some ref.parent :: block.map Join.ix)[k]? = some (some parent) ∧
            hop.Along link parent ix condition ∧
            ∃ before, before ++ [hop] <+: b.joins ∧ Introduced before parent ∧
              ∀ x ∈ condition.bindings, x = ix ∨ Introduced before x := by
  obtain ⟨-, -, blocks, hflatten, hlength, -, hbecomes⟩ := resolve_blocks h
  refine ⟨blocks, hflatten, hlength, fun i j ref hj href => ?_⟩
  obtain ⟨block, hblock, hjoin⟩ := hbecomes i j hj
  obtain ⟨last, hlast, hix, -⟩ := hjoin.last
  obtain ⟨hearlier, steps, target, hleads, hcount, halong⟩ := hjoin.along_links href
  refine ⟨block, steps, target, hblock, by rw [hlast, Option.bind_some, hix], hleads, hcount,
    fun k hop hk => ?_⟩
  obtain ⟨link, parent, ix, condition, hlink, hparent, hhop⟩ := halong k hop hk
  have hintroduced : Introduced ((blocks.take i).flatten ++ block.take k) parent := by
    cases k with
    | zero =>
      -- the declared parent is that of `from` or ends an earlier block
      obtain rfl : ref.parent = parent := by simpa using hparent
      rcases Nat.eq_zero_or_pos ref.parent with hzero | hpos
      · exact .inl hzero
      · have hi : ref.parent - 1 < i := by omega
        have hdeclared := (List.getElem?_eq_some_iff.mp hj).1
        obtain ⟨before, hbefore, hj'⟩ :=
          hbecomes (ref.parent - 1) _ (List.getElem?_eq_getElem (by omega))
        obtain ⟨last', hlast', hix', -⟩ := hj'.last
        rw [Nat.sub_add_cancel hpos] at hix'
        refine .inr ⟨last', List.mem_append_left _ (List.mem_flatten.mpr ⟨before, ?_, ?_⟩), hix'⟩
        · exact List.mem_of_getElem? (by rw [List.getElem?_take_of_lt hi]; exact hbefore)
        · exact List.mem_of_getLast? hlast'
    | succ k =>
      rw [List.getElem?_cons_succ, List.getElem?_map] at hparent
      obtain ⟨before, hbefore, hix'⟩ := Option.map_eq_some_iff.mp hparent
      refine .inr ⟨before, List.mem_append_right _ ?_, hix'⟩
      exact List.mem_of_getElem? (by
        rw [List.getElem?_take_of_lt (Nat.lt_succ_self k)]
        exact hbefore)
  exact ⟨link, parent, ix, condition, hlink, hparent, hhop, _,
    hflatten ▸ List.isPrefix_flatten hblock hk, hintroduced,
    fun x hx => (hhop.bindings x hx).imp_right fun hx : x = parent => hx ▸ hintroduced⟩

end Clauses

/-- Of the three hops to the owners of labels, the one to the labels starts from the table in
between, and names the labels twice more in its fragment. -/
theorem Clauses.resolve_conditions_interleaved :
    ∃ b, Query.labelOwners.clauses.resolve (.reading .labelled) = .ok b ∧
      b.joins.map (·.on.map Expr.bindings) =
        [some [3, 0, 3], some [4, 3, 4, 4], some [1, 4], some []] ∧
      ∃ blocks : List (List (Join Query)), b.joins = blocks.flatten ∧ blocks.length = 2 := by
  have hbindings : (Query.labelOwners.clauses.resolve (.reading .labelled)).toOption.map
      (·.joins.map (·.on.map Expr.bindings)) =
        some [some [3, 0, 3], some [4, 3, 4, 4], some [1, 4], some []] := by
    decide +kernel
  obtain ⟨b, hb, hjoins⟩ := Option.map_eq_some_iff.mp hbindings
  have hok := Except.toOption_eq_some_iff.mp hb
  obtain ⟨blocks, hflatten, hlength, -⟩ := Clauses.resolve_conditions hok
  exact ⟨b, hok, hjoins, blocks, hflatten, hlength⟩

end QueryPlanner
