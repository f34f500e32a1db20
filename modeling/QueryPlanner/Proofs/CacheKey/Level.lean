import QueryPlanner.Proofs.CacheKey.Clauses
import QueryPlanner.Proofs.CacheKey.Code
import QueryPlanner.Proofs.Plan.Sources

/-!
# A level can be told from its code

The clauses of a level stand in its code under different tags, so the code tells what is written of
each clause.  What is written of an entry tells its frame and what is written of its expressions.
The bound sources stand in the code of `from` and of the joins.

* `Clauses.written_of_code_eq` — one code, the same written in every clause
* `Clauses.sources_of_written_eq` — one code, the same bound sources
* `Clauses.alike_of_written_eq` — one code, the same frame and the same codes of items
-/

namespace QueryPlanner

open HasExprs

variable {σ : Type}

/-- Lists of entries that are written alike agree in what their codes tell of each entry. -/
theorem List.alike {X F A : Type} {code : X → KeyNode} {u : X → F} {s : X → List A} {xs ys : List X}
    (hcode : ∀ x ∈ xs, ∀ y ∈ ys, code x = code y → u x = u y ∧ s x = s y)
    (h : xs.map code = ys.map code) : xs.map u = ys.map u ∧ xs.flatMap s = ys.flatMap s := by
  have hpairs : xs.map (fun x => (u x, s x)) = ys.map fun y => (u y, s y) :=
    List.map_eq_of_map_eq (fun x hx y hy hxy =>
      Prod.ext (hcode x hx y hy hxy).1 (hcode x hx y hy hxy).2) h
  refine ⟨?_, ?_⟩
  · have hframes := congrArg (List.map Prod.fst) hpairs
    rwa [List.map_map, List.map_map] at hframes
  · have hitems := congrArg (List.flatMap Prod.snd) hpairs
    rwa [List.flatMap_map, List.flatMap_map] at hitems

/-! ### Entries without nested queries -/

section

variable {X : Type} [HasExprs X] {κ : Expr → KeyNode} {x y : X}

/-- Entries that are the same but for expressions, which are written alike. -/
def Alike (κ : Expr → KeyNode) (x y : X) : Prop :=
  frame x = frame y ∧ (exprs x).map κ = (exprs y).map κ

theorem Alike.expr {e e' : Expr} (h : κ e = κ e') : Alike κ e e' := by
  refine ⟨rfl, ?_⟩
  simp only [exprs, List.map_cons, h]

theorem Alike.list {code : X → KeyNode} {xs ys : List X}
    (hcode : ∀ x ∈ xs, ∀ y ∈ ys, code x = code y → Alike κ x y) (h : xs.map code = ys.map code) :
    Alike κ xs ys := by
  obtain ⟨hframes, hcodes⟩ := List.alike hcode h
  rw [← List.map_flatMap, ← List.map_flatMap] at hcodes
  exact ⟨hframes, hcodes⟩

theorem Alike.option {o u : Option X} (h : Alike κ o.toList u.toList) : Alike κ o u := by
  refine ⟨?_, h.2⟩
  have hframes : o.toList.map frame = u.toList.map frame := h.1
  cases o <;> cases u <;> simp_all [frame, rewrite]

end

section

variable {κ : Expr → KeyNode}

theorem Part.alike {ps qs : List (Part Expr)}
    (hps : ∀ e ∈ exprs ps, (κ e).isCompound = true) (hqs : ∀ e ∈ exprs qs, (κ e).isCompound = true)
    (h : codeAll κ ps = codeAll κ qs) : Alike κ ps qs := by
  have hread : ∀ {ps : List (Part Expr)}, (∀ e ∈ exprs ps, (κ e).isCompound = true) →
      ((ps.map (map κ)).map encode).map decode = ps.map (map κ) := by
    intro ps hps
    refine map_decode_encode ?_
    rw [flatMap_children_map]
    exact List.forall_mem_map.mpr hps
  have hparts : ps.map (map κ) = qs.map (map κ) := by
    have hcodes := congrArg (List.map decode) (KeyNode.tagged.inj h).2
    rwa [hread hps, hread hqs] at hcodes
  refine ⟨?_, ?_⟩
  · have hframes := congrArg (List.map (map fun _ => Expr.hole)) hparts
    simp only [List.map_map, Function.comp_def, map_map] at hframes
    exact hframes
  · have hcodes := congrArg (List.flatMap children) hparts
    rwa [flatMap_children_map, flatMap_children_map] at hcodes

theorem Ordered.alike {os us : List (Ordered Expr)} (h : codeAll κ os = codeAll κ us) :
    Alike κ os us := by
  refine Alike.list (fun o _ u _ hou => ?_) (KeyNode.list.inj h)
  have hitems : o.map κ = u.map κ := by
    rw [← decode_encode (o.map κ), hou, decode_encode]
  have hframe : (o.map κ).map (fun _ => Expr.hole) = (u.map κ).map fun _ => Expr.hole := by
    rw [hitems]
  have hcode : [(o.map κ).term] = [(u.map κ).term] := by
    rw [hitems]
  exact ⟨hframe, hcode⟩

theorem Window.alike {v w : Window Expr} (hv : ∀ e ∈ exprs v, (κ e).isCompound = true)
    (hw : ∀ e ∈ exprs w, (κ e).isCompound = true) (h : (v.map κ).encode = (w.map κ).encode) :
    Alike κ v w := by
  have hread : ∀ {w : Window Expr}, (∀ e ∈ exprs w, (κ e).isCompound = true) →
      decode (w.map κ).encode = w.map κ := by
    intro w hw
    refine decode_encode ?_
    rw [children_map]
    exact List.forall_mem_map.mpr hw
  have hwindows : v.map κ = w.map κ := by
    rw [← hread hv, h, hread hw]
  refine ⟨?_, ?_⟩
  · have hframes := congrArg (map fun _ => Expr.hole) hwindows
    rwa [map_map, map_map] at hframes
  · have hcodes := congrArg children hwindows
    rwa [children_map, children_map] at hcodes

theorem Window.declared_alike {v w : String × Window Expr}
    (hv : ∀ e ∈ exprs v, (κ e).isCompound = true) (hw : ∀ e ∈ exprs w, (κ e).isCompound = true)
    (h : declaredCode κ v = declaredCode κ w) : Alike κ v w := by
  obtain ⟨hname, hcode⟩ := KeyNode.tagged.inj h
  obtain ⟨hframe, hcodes⟩ := Window.alike hv hw (List.singleton_inj.mp hcode)
  exact ⟨Prod.ext hname hframe, hcodes⟩

theorem Connective.name_inj {c d : Connective} (h : c.name = d.name) : c = d := by
  revert h
  cases c <;> cases d <;> decide

theorem Condition.alike {c d : Condition} (h : c.code κ = d.code κ) : Alike κ c d := by
  obtain ⟨hname, hcode⟩ := KeyNode.tagged.inj h
  have hframe : frame c = ⟨c.connective, Expr.hole⟩ := rfl
  refine ⟨?_, hcode⟩
  rw [hframe, Connective.name_inj hname]
  rfl

theorem UpdateOp.name_inj {o u : UpdateOp} (h : o.name = u.name) : o = u := by
  revert h
  cases o <;> cases u <;> decide

theorem Update.alike {u v : Update} (h : u.code κ = v.code κ) : Alike κ u v := by
  obtain ⟨uop, ufields⟩ := u
  obtain ⟨vop, vfields⟩ := v
  obtain ⟨hname, hfields⟩ := KeyNode.tagged.inj h
  obtain ⟨hframe, hcodes⟩ : Alike κ ufields vfields := by
    refine Alike.list (fun f _ g _ hfg => ?_) hfields
    obtain ⟨hfield, hcode⟩ := KeyNode.tagged.inj hfg
    exact ⟨Prod.ext hfield rfl, hcode⟩
  exact ⟨(Update.mk.injEq ..).mpr ⟨UpdateOp.name_inj hname, hframe⟩, hcodes⟩

theorem Distinct.alike {d e : Distinct} (h : d.code κ = e.code κ) : Alike κ d e := by
  cases d <;> cases e <;> simp only [code, Ordered.codeAll, reduceCtorEq] at h
  · exact ⟨rfl, rfl⟩
  · obtain ⟨hframe, hcodes⟩ := Ordered.alike h
    exact ⟨congrArg on hframe, hcodes⟩

/-- A grouping by expressions. -/
def GroupBy.IsWritten (g : GroupBy) : Prop := ∃ es, g = .exprs es

/-- An ordering by expressions. -/
def OrderBy.IsWritten (o : OrderBy) : Prop := ∃ ordered, o = .items ordered

theorem GroupBy.alike {g h : GroupBy} (hg : g.IsWritten) (hh : h.IsWritten)
    (hcode : g.code κ = h.code κ) : Alike κ g h := by
  obtain ⟨es, rfl⟩ := hg
  obtain ⟨es', rfl⟩ := hh
  have hcodes : es.map κ = es'.map κ := KeyNode.list.inj hcode
  have hframe := congrArg (List.map fun _ => Expr.hole) hcodes
  rw [List.map_map, List.map_map] at hframe
  exact ⟨congrArg GroupBy.exprs hframe, hcodes⟩

theorem OrderBy.alike {o u : OrderBy} (ho : o.IsWritten) (hu : u.IsWritten)
    (hcode : o.code κ = u.code κ) : Alike κ o u := by
  obtain ⟨ordered, rfl⟩ := ho
  obtain ⟨ordered', rfl⟩ := hu
  obtain ⟨hframe, hcodes⟩ := Ordered.alike hcode
  exact ⟨congrArg OrderBy.items hframe, hcodes⟩

theorem Select.alike {s t : Select} (hs : s.fields = []) (ht : t.fields = [])
    (h : κ s.expr = κ t.expr) : Alike κ s t := by
  obtain ⟨e, fields⟩ := s
  obtain ⟨e', fields'⟩ := t
  obtain rfl : fields = [] := hs
  obtain rfl : fields' = [] := ht
  exact ⟨rfl, congrArg (fun k => [k]) h⟩

theorem Lock.alike {l m : Lock} (hl : ∀ e ∈ exprs l, (κ e).isCompound = true)
    (hm : ∀ e ∈ exprs m, (κ e).isCompound = true) (h : l.code κ = m.code κ) : Alike κ l m := by
  cases l <;> cases m <;> simp only [code, Part.codeAll, Part.encodeAll, reduceCtorEq,
    KeyNode.atom.injEq] at h
  · rw [h]
    exact ⟨rfl, rfl⟩
  · obtain ⟨hframe, hcodes⟩ := Part.alike hl hm h
    exact ⟨congrArg fragment hframe, hcodes⟩

end

/-! ### Entries that nest queries -/

theorem KeyNode.ofOption_inj {o u : Option String} (h : ofOption o = ofOption u) : o = u := by
  cases o <;> cases u <;> simp_all [ofOption, null]

/-- What a source is bound to can be told from its code. -/
theorem Source.bound_eq {κ κ' : Expr → KeyNode} {ν ν' : σ → List KeyNode} {s t : Source σ}
    {b d : BoundSource} (hs : s.BoundAs b) (ht : t.BoundAs d)
    (h : s.code κ ν (some b) = t.code κ' ν' (some d)) : b = d := by
  cases s <;> cases t <;> simp only [BoundAs] at hs ht
  case table.table | table.schema | schema.table | schema.schema =>
    obtain ⟨p, rfl⟩ := hs
    obtain ⟨p', rfl⟩ := ht
    obtain ⟨hname, hrest⟩ := List.cons.inj (KeyNode.tagged.inj h).2
    obtain ⟨htype, hrest⟩ := List.cons.inj hrest
    rw [KeyNode.atom.inj hname, KeyNode.ofOption_inj htype,
      KeyNode.ofOption_inj (List.singleton_inj.mp hrest)]
  case subquery.subquery | fragment.fragment => rw [hs, ht]
  case subquery.table | subquery.schema | fragment.table | fragment.schema =>
    obtain ⟨p', rfl⟩ := ht
    simp [code, Part.codeAll, Part.encodeAll] at h
  case table.subquery | schema.subquery | table.fragment | schema.fragment =>
    obtain ⟨p, rfl⟩ := hs
    simp [code, Part.codeAll, Part.encodeAll] at h
  all_goals simp [code, Part.codeAll, Part.encodeAll] at h

section

variable {κ : Expr → KeyNode} {ν : σ → List KeyNode}

/-- What is written of an item. -/
def Item.code (κ : Expr → KeyNode) (ν : σ → List KeyNode) : Item σ → KeyNode ⊕ List KeyNode
  | expr e => .inl (κ e)
  | nested query => .inr (ν query)

theorem Item.map_code_ofExprs {X : Type} [HasExprs X] (x : X) :
    (ofExprs x).map (code κ ν) = ((exprs x).map κ).map .inl := by
  rw [ofExprs, List.map_map, List.map_map]
  rfl

theorem Source.alike {s t : Source σ} {b d : BoundSource} (hs : s.BoundAs b) (ht : t.BoundAs d)
    (hκs : ∀ e, .expr e ∈ s.items → (κ e).isCompound = true)
    (hκt : ∀ e, .expr e ∈ t.items → (κ e).isCompound = true)
    (h : s.code κ ν (some b) = t.code κ ν (some d)) :
    s.frame = t.frame ∧ s.items.map (Item.code κ ν) = t.items.map (Item.code κ ν) := by
  have hbound := bound_eq hs ht h
  subst hbound
  cases s <;> cases t <;> simp only [BoundAs] at hs ht
  case table.table | table.schema | schema.table | schema.schema =>
    obtain ⟨p, rfl⟩ := hs
    obtain ⟨p', ht⟩ := ht
    simp_all [frame, edit, items]
  case subquery.subquery q q' =>
    have hq : ν q = ν q' := by simpa [code] using h
    simp [frame, edit, items, Item.code, hq]
  case fragment.fragment parts parts' =>
    obtain ⟨hframe, hcodes⟩ := Part.alike (fun e he => hκs e (List.mem_map_of_mem he))
      (fun e he => hκt e (List.mem_map_of_mem he)) h
    refine ⟨congrArg Source.fragment hframe, ?_⟩
    rw [items, items, Item.map_code_ofExprs, Item.map_code_ofExprs, hcodes]
  all_goals simp_all

theorem Cte.alike {c d : Cte σ} (hκc : ∀ e, .expr e ∈ c.body.items → (κ e).isCompound = true)
    (hκd : ∀ e, .expr e ∈ d.body.items → (κ e).isCompound = true)
    (h : c.code κ ν = d.code κ ν) :
    c.edit (fun _ => Expr.hole) (fun _ => ()) = d.edit (fun _ => Expr.hole) (fun _ => ()) ∧
      c.body.items.map (Item.code κ ν) = d.body.items.map (Item.code κ ν) := by
  obtain ⟨name, body, recursive⟩ := c
  obtain ⟨name', body', recursive'⟩ := d
  obtain ⟨htag, hrest⟩ := KeyNode.tagged.inj h
  obtain ⟨hname, hbody⟩ := List.cons.inj hrest
  have hbody := List.singleton_inj.mp hbody
  have hrecursive : recursive = recursive' := by
    cases recursive <;> cases recursive' <;> first | rfl | simp at htag
  obtain rfl : name = name' := KeyNode.atom.inj hname
  subst hrecursive
  cases body <;> cases body' <;> simp only [CteBody.code, Part.codeAll, Part.encodeAll,
    reduceCtorEq, KeyNode.list.injEq] at hbody
  · simp [edit, CteBody.edit, CteBody.items, Item.code, hbody]
  · obtain ⟨hframe, hcodes⟩ := Part.alike (fun e he => hκc e (List.mem_map_of_mem he))
      (fun e he => hκd e (List.mem_map_of_mem he)) hbody
    refine ⟨?_, ?_⟩
    · exact congrArg (fun parts => (⟨name, .fragment parts, recursive⟩ : Cte Unit)) hframe
    · rw [CteBody.items, CteBody.items, Item.map_code_ofExprs, Item.map_code_ofExprs, hcodes]

theorem SetOp.name_inj {o u : SetOp} (h : o.name = u.name) : o = u := by
  revert h
  cases o <;> cases u <;> decide

theorem Combination.alike {c d : Combination σ} (h : c.code ν = d.code ν) :
    c.op = d.op ∧ ν c.query = ν d.query := by
  obtain ⟨hname, hrest⟩ := KeyNode.tagged.inj h
  exact ⟨SetOp.name_inj hname, KeyNode.list.inj (List.singleton_inj.mp hrest)⟩

/-! ### Joins -/

/-- A join without what its code leaves out: the prefix and the association that it was declared
with, and whether the condition that it joins on was written. -/
def Join.plain (j : Join σ) : Join σ :=
  { j with on := some j.onOrTrue, association := none, tablePrefix := none }

/-- A join that has a source, bound where its binding says. -/
def Join.BoundIn (sources : List BoundSource) (j : Join σ) : Prop :=
  ∃ ix s b, j.ix = some ix ∧ j.source = some s ∧ sources[ix]? = some b ∧ s.BoundAs b

theorem KeyNode.ofBinding_inj {ix ix' : Nat} (h : ofBinding ix = ofBinding ix') : ix = ix' := by
  rw [← binding_ofBinding ix, h, binding_ofBinding]

/-- Where a join is bound, and what to, can be told from its code. -/
theorem Join.bound_eq {κ' : Expr → KeyNode} {ν' : σ → List KeyNode} {i j : Join σ}
    {sources sources' : List BoundSource} (hi : i.BoundIn sources) (hj : j.BoundIn sources')
    (h : i.code κ ν sources = j.code κ' ν' sources') :
    i.ix = j.ix ∧ (i.ix.bind fun ix => sources[ix]?) = j.ix.bind fun ix => sources'[ix]? := by
  obtain ⟨ix, s, b, hix, hs, hb, hsb⟩ := hi
  obtain ⟨ix', s', b', hix', hs', hb', hsb'⟩ := hj
  simp only [code, hix, hix', hs, hs', hb, hb', Option.bind_some, KeyNode.ofBinding?] at h ⊢
  obtain ⟨hbinding, hrest⟩ := List.cons.inj (KeyNode.tagged.inj h).2
  rw [KeyNode.ofBinding_inj hbinding, Source.bound_eq hsb hsb' (List.cons.inj hrest).1]
  exact ⟨rfl, rfl⟩

theorem JoinQualifier.name_inj {q r : JoinQualifier} (h : q.name = r.name) : q = r := by
  revert h
  cases q <;> cases r <;> decide

theorem Join.alike {i j : Join σ} {sources : List BoundSource} (hi : i.BoundIn sources)
    (hj : j.BoundIn sources) (hκi : ∀ e, .expr e ∈ i.items → (κ e).isCompound = true)
    (hκj : ∀ e, .expr e ∈ j.items → (κ e).isCompound = true)
    (h : i.code κ ν sources = j.code κ ν sources) :
    i.plain.edit (fun _ => Expr.hole) (fun _ => ()) =
        j.plain.edit (fun _ => Expr.hole) (fun _ => ()) ∧
      i.plain.items.map (Item.code κ ν) = j.plain.items.map (Item.code κ ν) := by
  obtain ⟨ix, s, b, hix, hs, hb, hsb⟩ := hi
  obtain ⟨ix', s', b', hix', hs', hb', hsb'⟩ := hj
  simp only [code, hix, hix', hs, hs', hb, hb', Option.bind_some, KeyNode.ofBinding?] at h
  obtain ⟨hqualifier, hrest⟩ := KeyNode.tagged.inj h
  obtain ⟨hbinding, hrest⟩ := List.cons.inj hrest
  obtain ⟨hsource, hrest⟩ := List.cons.inj hrest
  have hon := List.singleton_inj.mp hrest
  have hmem : ∀ {j : Join σ} {s : Source σ} {e : Expr}, j.source = some s → .expr e ∈ s.items →
      .expr e ∈ j.items := by
    intro j s e hs he
    exact List.mem_append_left _ (List.mem_flatMap.mpr ⟨s, by simp [hs], he⟩)
  obtain ⟨hframe, hitems⟩ := Source.alike hsb hsb' (fun e he => hκi e (hmem hs he))
    (fun e he => hκj e (hmem hs' he)) hsource
  refine ⟨?_, ?_⟩
  · have hsources : (i.source.map Source.frame) = j.source.map Source.frame := by
      rw [hs, hs', Option.map_some, Option.map_some, hframe]
    have hixs : i.ix = j.ix := by
      rw [hix, hix', KeyNode.ofBinding_inj hbinding]
    simp only [plain, edit, JoinQualifier.name_inj hqualifier, hixs, Join.mk.injEq, true_and,
      and_true]
    exact ⟨hsources, rfl⟩
  · have hlist : ∀ (s : Source σ) (e : Expr), (Option.toList (some s)).flatMap Source.items ++
        Item.ofExprs (some e) = s.items ++ [.expr e] := by
      intro s e
      simp [Item.ofExprs, exprs]
    simp only [plain, items, hs, hs', hlist, List.map_append, hitems, List.map_cons, List.map_nil,
      Item.code, hon]

end

/-! ### Preloads -/

mutual

theorem Preload.key_inj : ∀ p q : Preload, p.key = q.key → p = q
  | ⟨association, binding, children⟩, ⟨association', binding', children'⟩, h => by
    rw [Preload.key, Preload.key] at h
    obtain ⟨hname, hrest⟩ := KeyNode.tagged.inj h
    obtain ⟨hbinding, hrest⟩ := List.cons.inj hrest
    have hchildren := preloadKeys_inj children children'
      (KeyNode.list.inj (List.singleton_inj.mp hrest))
    have hsame : binding = binding' := by
      cases binding <;> cases binding' <;>
        simp only [KeyNode.ofBinding?, KeyNode.ofBinding, KeyNode.null, KeyNode.value.injEq,
          reduceCtorEq] at hbinding ⊢
      exact congrArg some (KeyNode.ofBinding_inj (congrArg KeyNode.value hbinding))
    rw [hname, hsame, hchildren]

theorem preloadKeys_inj : ∀ ps qs : List Preload, preloadKeys ps = preloadKeys qs → ps = qs
  | [], [], _ => rfl
  | [], _ :: _, h => nomatch h
  | _ :: _, [], h => nomatch h
  | p :: ps, q :: qs, h => by
    rw [preloadKeys, preloadKeys] at h
    obtain ⟨hhead, htail⟩ := List.cons.inj h
    rw [Preload.key_inj p q hhead, preloadKeys_inj ps qs htail]

end

/-! ### Reading the clauses of a level -/

/-- The entries that stand under a tag. -/
def KeyNode.under (tag : String) (keys : List KeyNode) : List KeyNode :=
  keys.flatMap fun
    | .tagged tag' entries => if tag' = tag then entries else []
    | _ => []

theorem KeyNode.under_nil (tag : String) : under tag [] = [] := rfl

theorem KeyNode.under_atom (tag text : String) (keys : List KeyNode) :
    under tag (.atom text :: keys) = under tag keys := rfl

theorem KeyNode.under_append (tag : String) (keys keys' : List KeyNode) :
    under tag (keys ++ keys') = under tag keys ++ under tag keys' := List.flatMap_append ..

theorem Clauses.under_segment (tag tag' : String) (entries : List KeyNode) :
    KeyNode.under tag (segment tag' entries) = if tag' = tag then entries else [] := by
  cases entries with
  | nil => simp [segment, KeyNode.under]
  | cons entry entries => simp [segment, KeyNode.under]

theorem Operation.name_inj {o o' : Operation} (h : o.name = o'.name) : o = o' := by
  revert h
  cases o <;> cases o' <;> decide

section

variable {κ κ' : Expr → KeyNode} {ν ν' : σ → List KeyNode} {c d : Clauses σ}
  {operation operation' : Operation}

theorem Clauses.under_code (clause : Clause) :
    KeyNode.under clause.name (c.code κ ν operation) = c.written κ ν clause := by
  simp only [code, writingOrder, List.flatMap_cons, List.flatMap_nil, KeyNode.under_atom,
    KeyNode.under_append, KeyNode.under_nil, under_segment]
  cases clause <;> simp [Clause.name]

/-- **One code, one operation**, one prefix, and the same written in every clause. -/
theorem Clauses.written_of_code_eq (h : c.code κ ν operation = d.code κ' ν' operation') :
    operation = operation' ∧ c.queryPrefix = d.queryPrefix ∧
      ∀ clause, c.written κ ν clause = d.written κ' ν' clause := by
  have hprefixed : ∀ {c : Clauses σ} {κ : Expr → KeyNode} {ν : σ → List KeyNode}
      {operation : Operation}, KeyNode.under "prefix" (c.code κ ν operation) =
        c.queryPrefix.toList.map .atom := by
    intro c κ ν operation
    simp [code, writingOrder, KeyNode.under_atom, KeyNode.under_append, under_segment,
      Clause.name]
  refine ⟨Operation.name_inj (KeyNode.atom.inj (List.cons.inj h).1), ?_, fun clause => ?_⟩
  · have hnames := congrArg (KeyNode.under "prefix") h
    rw [hprefixed, hprefixed] at hnames
    revert hnames
    cases c.queryPrefix <;> cases d.queryPrefix <;> simp
  · rw [← under_code (c := c) (κ := κ) clause, h, under_code]

/-- What planning makes of a level, whatever it holds. -/
structure Clauses.Planned (c : Clauses σ) : Prop where
  bound : c.Bound
  groupBys : ∀ g ∈ c.groupBys, g.IsWritten
  orderBys : ∀ o ∈ c.orderBys, o.IsWritten
  select : ∀ s, c.select = some s → s.fields = []

/-- The source of a binding of one level is that of the other, if the same is written of `from` and
of the joins. -/
theorem Clauses.source_of_written_eq (hc : c.Planned) (hd : d.Planned)
    (h : ∀ clause, c.written κ ν clause = d.written κ' ν' clause) {ix : Nat} {b : BoundSource}
    (hb : c.sources[ix]? = some b) : d.sources[ix]? = some b := by
  obtain ⟨hix, -⟩ := List.getElem?_eq_some_iff.mp hb
  rcases hc.bound.covered ix hix with rfl | ⟨j, hj, hjx⟩
  · obtain ⟨r, b₁, hr, hb₁, hrb⟩ := hc.bound.root
    obtain ⟨r', b₂, hr', hb₂, hrb'⟩ := hd.bound.root
    have hroot := h .fromSource
    simp only [written, hr, hr', Option.toList_some, List.map_cons, List.map_nil,
      List.head?_eq_getElem?, hb₁, hb₂] at hroot
    rw [hb₂, ← Source.bound_eq hrb hrb' (List.singleton_inj.mp hroot), ← hb₁, hb]
  · have hmem : j.code κ ν c.sources ∈ d.written κ' ν' .join := h .join ▸ List.mem_map_of_mem hj
    obtain ⟨j', hj', hcode⟩ := List.mem_map.mp hmem
    obtain ⟨hixs, hsources⟩ :=
      Join.bound_eq (hc.bound.joins j hj) (hd.bound.joins j' hj') hcode.symm
    rw [← hixs, hjx] at hsources
    exact hsources.symm.trans hb

/-- **One code, the same bound sources.** -/
theorem Clauses.sources_of_written_eq (hc : c.Planned) (hd : d.Planned)
    (h : ∀ clause, c.written κ ν clause = d.written κ' ν' clause) : c.sources = d.sources := by
  apply List.ext_getElem?
  intro ix
  cases hb : c.sources[ix]? with
  | some b => exact (source_of_written_eq hc hd h hb).symm
  | none =>
    cases hb' : d.sources[ix]? with
    | none => rfl
    | some b => rw [source_of_written_eq hd hc (fun clause => (h clause).symm) hb'] at hb; cases hb

/-- A level without what its code leaves out. -/
def Clauses.plain (c : Clauses σ) : Clauses σ :=
  { c with
    root := c.root.map fun r => { source := r.source }
    joins := c.joins.map Join.plain }

/-- Every expression of a level is written as more than a word. -/
def Clauses.Compound (κ : Expr → KeyNode) (c : Clauses σ) : Prop :=
  ∀ clause e, .expr e ∈ c.items clause → (κ e).isCompound = true

/-- The items of a clause are written alike in two levels. -/
def Clauses.ItemsAlike (κ : Expr → KeyNode) (ν : σ → List KeyNode) (c d : Clauses σ)
    (clause : Clause) : Prop :=
  (c.plain.items clause).map (Item.code κ ν) = (d.plain.items clause).map (Item.code κ ν)

theorem Clauses.root_alike (hc : c.Planned) (hd : d.Planned) (hκc : c.Compound κ)
    (hκd : d.Compound κ)
    (h : c.written κ ν .fromSource = d.written κ ν .fromSource) :
    c.plain.frame.root = d.plain.frame.root ∧ ItemsAlike κ ν c d .fromSource := by
  obtain ⟨r, b, hr, hb, hrb⟩ := hc.bound.root
  obtain ⟨r', b', hr', hb', hrb'⟩ := hd.bound.root
  have hmem : r ∈ c.root.toList := by simp [hr]
  have hmem' : r' ∈ d.root.toList := by simp [hr']
  simp only [written, hr, hr', Option.toList_some, List.map_cons, List.map_nil,
    List.head?_eq_getElem?, hb, hb'] at h
  obtain ⟨hframe, hitems⟩ := Source.alike hrb hrb'
    (fun e he => hκc .fromSource e (List.mem_flatMap.mpr ⟨r, hmem, he⟩))
    (fun e he => hκd .fromSource e (List.mem_flatMap.mpr ⟨r', hmem', he⟩))
    (List.singleton_inj.mp h)
  refine ⟨?_, ?_⟩
  · simp only [Clauses.frame, edit, plain, hr, hr', Option.map_some]
    exact congrArg (fun s => some (⟨s, none⟩ : FromClause Unit)) hframe
  · simpa [ItemsAlike, items, plain, hr, hr'] using hitems

theorem Clauses.joins_alike (hc : c.Planned) (hd : d.Planned) (hκc : c.Compound κ)
    (hκd : d.Compound κ) (hsources : c.sources = d.sources)
    (h : c.written κ ν .join = d.written κ ν .join) :
    c.plain.frame.joins = d.plain.frame.joins ∧ ItemsAlike κ ν c d .join := by
  have hwritten : c.joins.map (Join.code κ ν c.sources) =
      d.joins.map (Join.code κ ν d.sources) := h
  rw [← hsources] at hwritten
  obtain ⟨hframes, hitems⟩ := List.alike (fun j hj j' hj' => Join.alike (hc.bound.joins j hj)
    (hsources ▸ hd.bound.joins j' hj')
    (fun e he => hκc .join e (List.mem_flatMap.mpr ⟨j, hj, he⟩))
    fun e he => hκd .join e (List.mem_flatMap.mpr ⟨j', hj', he⟩)) hwritten
  refine ⟨?_, ?_⟩
  · simp only [Clauses.frame, edit, plain, List.map_map]
    exact hframes
  · simp only [ItemsAlike, items, plain, List.flatMap_map, List.map_flatMap]
    exact hitems

theorem Clauses.combinations_alike
    (h : c.written κ ν .combination = d.written κ ν .combination) :
    c.plain.frame.combinations = d.plain.frame.combinations ∧
      ItemsAlike κ ν c d .combination := by
  have hcode : ∀ t ∈ c.combinations, ∀ t' ∈ d.combinations, t.code ν = t'.code ν →
      t.op = t'.op ∧ [Item.code κ ν (.nested t.query)] = [Item.code κ ν (.nested t'.query)] := by
    intro t _ t' _ ht
    obtain ⟨hop, hquery⟩ := Combination.alike ht
    exact ⟨hop, by simp only [Item.code, hquery]⟩
  obtain ⟨hops, hqueries⟩ := List.alike (u := fun t => t.op)
    (s := fun t => [Item.code κ ν (.nested t.query)]) hcode h
  refine ⟨?_, ?_⟩
  · have hframes := congrArg (List.map fun op => (⟨op, ()⟩ : Combination Unit)) hops
    rw [List.map_map, List.map_map] at hframes
    exact hframes
  · simp only [← List.map_eq_flatMap] at hqueries
    simp only [ItemsAlike, items, plain, List.map_map]
    exact hqueries

theorem Clauses.ctes_alike (hκc : c.Compound κ) (hκd : d.Compound κ)
    (h : c.written κ ν .withCte = d.written κ ν .withCte) :
    c.plain.frame.ctes = d.plain.frame.ctes ∧ ItemsAlike κ ν c d .withCte := by
  obtain ⟨hframes, hitems⟩ := List.alike (fun t ht t' ht' => Cte.alike
    (fun e he => hκc .withCte e (List.mem_flatMap.mpr ⟨t, ht, he⟩))
    fun e he => hκd .withCte e (List.mem_flatMap.mpr ⟨t', ht', he⟩)) h
  refine ⟨hframes, ?_⟩
  simp only [ItemsAlike, items, plain, List.map_flatMap]
  exact hitems

theorem Clauses.windows_alike (hκc : c.Compound κ) (hκd : d.Compound κ)
    (h : c.written κ ν .windows = d.written κ ν .windows) : Alike κ c.windows d.windows := by
  refine Alike.list (fun w hw w' hw' => Window.declared_alike (fun e he => ?_) fun e he => ?_) h
  · exact hκc .windows e (List.mem_map_of_mem (List.mem_flatMap.mpr ⟨w, hw, he⟩))
  · exact hκd .windows e (List.mem_map_of_mem (List.mem_flatMap.mpr ⟨w', hw', he⟩))

theorem Clauses.lock_alike (hκc : c.Compound κ) (hκd : d.Compound κ)
    (h : c.written κ ν .lock = d.written κ ν .lock) : Alike κ c.lock d.lock := by
  refine (Alike.list (fun l hl l' hl' => Lock.alike (fun e he => ?_) fun e he => ?_) h).option
  · exact hκc .lock e (List.mem_map_of_mem (List.mem_flatMap.mpr ⟨l, hl, he⟩))
  · exact hκd .lock e (List.mem_map_of_mem (List.mem_flatMap.mpr ⟨l', hl', he⟩))

/-- **One code, the same frame and the same codes of items.** -/
theorem Clauses.alike_of_written_eq (hc : c.Planned) (hd : d.Planned) (hκc : c.Compound κ)
    (hκd : d.Compound κ) (hpre : c.queryPrefix = d.queryPrefix) (hsources : c.sources = d.sources)
    (h : ∀ clause, c.written κ ν clause = d.written κ ν clause) :
    c.plain.frame = d.plain.frame ∧ ∀ clause, ItemsAlike κ ν c d clause := by
  have hroot := root_alike hc hd hκc hκd (h .fromSource)
  have hjoins := joins_alike hc hd hκc hκd hsources (h .join)
  have hcombinations := combinations_alike (h .combination)
  have hctes := ctes_alike hκc hκd (h .withCte)
  have hwheres : Alike κ c.wheres d.wheres :=
    Alike.list (fun _ _ _ _ => Condition.alike) (h .filter)
  have hhavings : Alike κ c.havings d.havings :=
    Alike.list (fun _ _ _ _ => Condition.alike) (h .having)
  have hgroupBys : Alike κ c.groupBys d.groupBys :=
    Alike.list (fun g hg g' hg' => GroupBy.alike (hc.groupBys g hg) (hd.groupBys g' hg'))
      (h .groupBy)
  have horderBys : Alike κ c.orderBys d.orderBys :=
    Alike.list (fun o ho o' ho' => OrderBy.alike (hc.orderBys o ho) (hd.orderBys o' ho'))
      (h .orderBy)
  have hselect : Alike κ c.select d.select :=
    (Alike.list (fun s hs s' hs' => Select.alike (hc.select s (by simpa using hs))
      (hd.select s' (by simpa using hs'))) (h .select)).option
  have hdistinct : Alike κ c.distinct d.distinct :=
    (Alike.list (fun _ _ _ _ => Distinct.alike) (h .distinct)).option
  have hlimit : Alike κ c.limit d.limit :=
    (Alike.list (fun _ _ _ _ => Alike.expr) (h .limit)).option
  have hoffset : Alike κ c.offset d.offset :=
    (Alike.list (fun _ _ _ _ => Alike.expr) (h .offset)).option
  have hupdates : Alike κ c.updates d.updates :=
    Alike.list (fun _ _ _ _ => Update.alike) (h .update)
  have hwindows := windows_alike hκc hκd (h .windows)
  have hlock := lock_alike hκc hκd (h .lock)
  have hexprs : ∀ {X : Type} [HasExprs X] {x y : X}, Alike κ x y →
      (Item.ofExprs x).map (Item.code κ ν) = (Item.ofExprs y).map (Item.code κ ν) := by
    intro X _ x y hxy
    rw [Item.map_code_ofExprs, Item.map_code_ofExprs, hxy.2]
  refine ⟨?_, fun clause => ?_⟩
  · have hpreloads : c.preloads = d.preloads := preloadKeys_inj _ _ (h .preload)
    exact (Clauses.mk.injEq ..).mpr ⟨hroot.1, hjoins.1, hwheres.1, hgroupBys.1, hhavings.1,
      horderBys.1, hselect.1, hdistinct.1, hlimit.1, hoffset.1, hupdates.1, hwindows.1,
      hcombinations.1, hctes.1, hpreloads, hlock.1, hpre, hsources⟩
  · cases clause with
    | withCte => exact hctes.2
    | fromSource => exact hroot.2
    | join => exact hjoins.2
    | combination => exact hcombinations.2
    | distinct => exact hexprs hdistinct
    | select => exact hexprs hselect
    | filter => exact hexprs hwheres
    | groupBy => exact hexprs hgroupBys
    | having => exact hexprs hhavings
    | windows => exact hexprs hwindows
    | orderBy => exact hexprs horderBys
    | limit => exact hexprs hlimit
    | offset => exact hexprs hoffset
    | update => exact hexprs hupdates
    | lock => exact hexprs hlock
    | preload => rfl

end

end QueryPlanner
