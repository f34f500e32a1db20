import QueryPlanner.Proofs.Plan.Resolution

/-!
# The bound sources of a level

Every join has a source, which stands in the list of bound sources at the join's binding, and every
binding but that of `from` belongs to a join.  So the list of bound sources can be told from what
the clauses are bound to.

* `Arena.Sound` — what binding one declared join after another keeps
* `Clauses.Bound`, `Clauses.resolve_bound` — what it comes to for a whole level
-/

namespace QueryPlanner

variable {σ τ : Type} {ctx : Context} {queryPrefix : Option String}

/-! ### One source, one block of joins -/

/-- The kind of bound source that a declared source becomes. -/
def Source.BoundAs : Source σ → BoundSource → Prop
  | table name, b => ∃ tablePrefix, b = .table name none tablePrefix
  | schema name type, b => ∃ tablePrefix, b = .table name (some type) tablePrefix
  | subquery _, b => b = .subquery
  | fragment _, b => b = .fragment

theorem Source.boundAs_bind {s : Source σ} {clausePrefix : Option String} {clause : Clause}
    {b : BoundSource} (h : s.bind ctx queryPrefix clausePrefix clause = .ok b) : s.BoundAs b := by
  cases s with
  | table name => exact ⟨_, (Except.ok.inj h).symm⟩
  | schema name type =>
    simp only [bind] at h
    cases hs : ctx.schema ⟨clause, (Source.schema name type : Source σ).render⟩ type with
    | error e => simp [hs, Bind.bind, Except.bind] at h
    | ok schema =>
      simp only [hs, Bind.bind, Except.bind, Except.ok.injEq] at h
      exact ⟨_, h.symm⟩
  | subquery q => exact (Except.ok.inj h).symm
  | fragment parts => exact (Except.ok.inj h).symm

/-- A source without what it holds. -/
def Source.frame (s : Source σ) : Source Unit := s.edit (fun _ => Expr.hole) fun _ => ()

theorem Source.boundAs_frame {s : Source σ} {b : BoundSource} :
    s.frame.BoundAs b ↔ s.BoundAs b := by
  cases s <;> rfl

theorem Hop.boundAs_source (hop : Hop) (joinPrefix : Option String) :
    (hop.source : Source σ).BoundAs (hop.bound ctx queryPrefix joinPrefix) := by
  unfold Hop.source Hop.bound
  cases hop.target.schema with
  | none => exact ⟨_, rfl⟩
  | some schema => exact ⟨_, rfl⟩

/-- The joins of a block take the declared binding and fresh ones. -/
theorem placeHops_range (final : Nat) :
    ∀ (hops : List Hop) (parent fresh : Nat), ∀ p ∈ placeHops parent fresh final hops,
      p.2.1 = final ∨ fresh ≤ p.2.1 ∧ p.2.1 < fresh + (hops.length - 1)
  | [], _, _, _, hp => nomatch hp
  | [_], _, _, p, hp => by
    rw [placeHops, List.mem_singleton] at hp
    exact .inl (hp ▸ rfl)
  | _ :: hop' :: rest, parent, fresh, p, hp => by
    rw [placeHops_cons_cons] at hp
    rcases List.mem_cons.mp hp with rfl | hp
    · simp
    · have ih := placeHops_range final (hop' :: rest) fresh (fresh + 1) p hp
      simp only [List.length_cons] at ih ⊢
      omega

/-- No two joins of a block take one binding. -/
theorem nodup_placeHops (final : Nat) :
    ∀ (hops : List Hop) (parent fresh : Nat), final < fresh →
      ((placeHops parent fresh final hops).map (·.2.1)).Nodup
  | [], _, _, _ => List.nodup_nil
  | [_], _, _, _ => by simp [placeHops]
  | _ :: hop' :: rest, parent, fresh, hfinal => by
    have hrange := placeHops_range final (hop' :: rest) fresh (fresh + 1)
    have ih := nodup_placeHops final (hop' :: rest) fresh (fresh + 1) (by omega)
    rw [placeHops_cons_cons]
    refine List.nodup_cons.mpr ⟨fun hmem => ?_, ih⟩
    obtain ⟨p, hp, hix⟩ := List.mem_map.mp hmem
    have := hrange p hp
    simp only at hix
    omega

/-! ### The invariant -/

namespace Arena

/-- What holds of the bindings made after `k` of `n` declared joins.  Bindings up to `k` and those
beyond `n` are taken, each once, and each by the `from` source or by a join. -/
structure Sound (root : Source σ) (n k : Nat) (a : Arena σ) : Prop where
  next : n < a.next
  taken : ∀ p ∈ a.bound, p.1 ≤ k ∨ n < p.1 ∧ p.1 < a.next
  nodup : (a.bound.map (·.1)).Nodup
  root : ∃ b, (0, b) ∈ a.bound ∧ root.BoundAs b
  joins : ∀ j ∈ a.joins, ∃ ix s b, j.ix = some ix ∧ j.source = some s ∧ (ix, b) ∈ a.bound ∧
    s.BoundAs b
  covered : ∀ p ∈ a.bound, p.1 = 0 ∨ ∃ j ∈ a.joins, j.ix = some p.1

/-- Joins that take the next declared binding and fresh ones keep the invariant. -/
theorem Sound.extend {root : Source σ} {n k : Nat} {a a' : Arena σ} (h : a.Sound root n k)
    (hk : k < n) (placed : List (Nat × BoundSource × Join σ))
    (hbound : a'.bound = a.bound ++ placed.map fun p => (p.1, p.2.1))
    (hjoins : a'.joins = a.joins ++ placed.map (·.2.2)) (hnext : a.next ≤ a'.next)
    (htaken : ∀ p ∈ placed, p.1 = k + 1 ∨ a.next ≤ p.1 ∧ p.1 < a'.next)
    (hnodup : (placed.map (·.1)).Nodup)
    (hplaced : ∀ p ∈ placed, p.2.2.ix = some p.1 ∧ ∃ s, p.2.2.source = some s ∧ s.BoundAs p.2.1) :
    a'.Sound root n (k + 1) where
  next := Nat.lt_of_lt_of_le h.next hnext
  taken := by
    rw [hbound]
    intro p hp
    rcases List.mem_append.mp hp with hp | hp
    · have := h.taken p hp
      omega
    · obtain ⟨e, he, rfl⟩ := List.mem_map.mp hp
      have := htaken e he
      have := h.next
      simp only
      omega
  nodup := by
    rw [hbound, List.map_append, List.map_map]
    refine List.nodup_append.mpr ⟨h.nodup, hnodup, ?_⟩
    intro x hx y hy
    obtain ⟨p, hp, rfl⟩ := List.mem_map.mp hx
    obtain ⟨e, he, rfl⟩ := List.mem_map.mp hy
    have := h.taken p hp
    have := htaken e he
    have := h.next
    simp only [Function.comp_apply]
    omega
  root := by
    obtain ⟨b, hb, hroot⟩ := h.root
    exact ⟨b, hbound ▸ List.mem_append_left _ hb, hroot⟩
  joins := by
    rw [hbound, hjoins]
    intro j hj
    rcases List.mem_append.mp hj with hj | hj
    · obtain ⟨ix, s, b, hix, hs, hb, hsb⟩ := h.joins j hj
      exact ⟨ix, s, b, hix, hs, List.mem_append_left _ hb, hsb⟩
    · obtain ⟨e, he, rfl⟩ := List.mem_map.mp hj
      obtain ⟨hix, s, hs, hsb⟩ := hplaced e he
      exact ⟨e.1, s, e.2.1, hix, hs, List.mem_append_right _ (List.mem_map.mpr ⟨e, he, rfl⟩), hsb⟩
  covered := by
    rw [hbound, hjoins]
    intro p hp
    rcases List.mem_append.mp hp with hp | hp
    · rcases h.covered p hp with hzero | ⟨j, hj, hix⟩
      · exact .inl hzero
      · exact .inr ⟨j, List.mem_append_left _ hj, hix⟩
    · obtain ⟨e, he, rfl⟩ := List.mem_map.mp hp
      exact .inr ⟨e.2.2, List.mem_append_right _ (List.mem_map_of_mem he), (hplaced e he).1⟩

/-- One declared join keeps the invariant. -/
theorem Sound.bindJoin {root : Source σ} {n k : Nat} {a a' : Arena σ} {j : Join σ}
    (h : a.Sound root n k) (hk : k < n)
    (hstep : bindJoin ctx queryPrefix a (k + 1, j) = .ok a') : a'.Sound root n (k + 1) := by
  rcases bindJoin_cases hstep with
    ⟨s, b, -, hs, hb, rfl⟩ | ⟨ref, owner, association, hops, -, -, -, -, -, rfl⟩
  · exact h.extend hk [(k + 1, b, { j with ix := some (k + 1) })] rfl rfl
      (Nat.le_refl _) (by simp) (by simp) (by simpa using ⟨s, hs, Source.boundAs_bind hb⟩)
  · refine h.extend hk ((placeHops ref.parent a.next (k + 1) hops).map
      fun p => (p.2.1, p.2.2.bound ctx queryPrefix j.tablePrefix,
        p.2.2.join ctx queryPrefix j p.1 p.2.1)) ?_ ?_ ?_ ?_ ?_ ?_
    · simp [addHops]
    · simp [addHops]
    · exact Nat.le_add_right _ _
    · intro p hp
      obtain ⟨q, hq, rfl⟩ := List.mem_map.mp hp
      exact placeHops_range _ hops ref.parent a.next q hq
    · rw [List.map_map]
      have := h.next
      exact nodup_placeHops _ hops ref.parent a.next (by omega)
    · intro p hp
      obtain ⟨⟨parent, ix, hop⟩, -, rfl⟩ := List.mem_map.mp hp
      exact ⟨rfl, hop.source, rfl, hop.boundAs_source j.tablePrefix⟩

end Arena

/-! ### A whole level -/

/-- What the sources of a planned level are: that of `from`, and that of each join at its
binding. -/
structure Clauses.Bound (c : Clauses σ) : Prop where
  root : ∃ r b, c.root = some r ∧ c.sources[0]? = some b ∧ r.source.BoundAs b
  joins : ∀ j ∈ c.joins, ∃ ix s b, j.ix = some ix ∧ j.source = some s ∧
    c.sources[ix]? = some b ∧ s.BoundAs b
  covered : ∀ ix < c.sources.length, ix = 0 ∨ ∃ j ∈ c.joins, j.ix = some ix

/-- Levels with the same sources in the same places are bound alike. -/
theorem Clauses.Bound.congr {c : Clauses σ} {d : Clauses τ}
    (hroot : c.root.map (·.source.frame) = d.root.map (·.source.frame))
    (hjoins : c.joins.map (fun j => (j.ix, j.source.map Source.frame)) =
      d.joins.map fun j => (j.ix, j.source.map Source.frame))
    (hsources : c.sources = d.sources) (h : c.Bound) : d.Bound := by
  refine ⟨?_, fun j hj => ?_, fun ix hix => ?_⟩
  · obtain ⟨r, b, hr, hb, hrb⟩ := h.root
    cases hd : d.root with
    | none => simp [hr, hd] at hroot
    | some r' =>
      simp only [hr, hd, Option.map_some, Option.some.injEq] at hroot
      have hframe := hroot ▸ Source.boundAs_frame.mpr hrb
      exact ⟨r', b, rfl, hsources ▸ hb, Source.boundAs_frame.mp hframe⟩
  · have hmem := List.mem_map_of_mem (f := fun j => (j.ix, j.source.map Source.frame)) hj
    rw [← hjoins] at hmem
    obtain ⟨i, hi, hij⟩ := List.mem_map.mp hmem
    simp only [Prod.mk.injEq] at hij
    obtain ⟨ix, s, b, hix, hs, hb, hsb⟩ := h.joins i hi
    cases hd : j.source with
    | none => simp [hs, hd] at hij
    | some s' =>
      simp only [hs, hd, Option.map_some, Option.some.injEq] at hij
      exact ⟨ix, s', b, hij.1 ▸ hix, rfl, hsources ▸ hb,
        Source.boundAs_frame.mp (hij.2 ▸ Source.boundAs_frame.mpr hsb)⟩
  · rcases h.covered ix (hsources ▸ hix) with hzero | ⟨j, hj, hjx⟩
    · exact .inl hzero
    · have hmem := List.mem_map_of_mem (f := fun j => (j.ix, j.source.map Source.frame)) hj
      rw [hjoins] at hmem
      obtain ⟨i, hi, hij⟩ := List.mem_map.mp hmem
      exact .inr ⟨i, hi, (Prod.mk.inj hij).1.trans hjx⟩

/-- A list of steps that all succeed yields the result of each. -/
theorem Except.map_of_mapM {α β ε : Type} {f : α → Except ε β} :
    ∀ {xs : List α} {ys : List β}, xs.mapM f = .ok ys → xs.map f = ys.map .ok
  | [], ys, h => by
    cases h
    rfl
  | x :: xs, ys, h => by
    rw [List.mapM_cons] at h
    cases hx : f x with
    | error e => simp [hx, bind, Except.bind] at h
    | ok y =>
      simp only [hx, bind, Except.bind] at h
      cases hxs : xs.mapM f with
      | error e => simp [hxs] at h
      | ok zs =>
        simp only [hxs, pure, Except.pure, Except.ok.injEq] at h
        rw [← h, List.map_cons, List.map_cons, hx, map_of_mapM hxs]

theorem Except.exists_mapM_iff {α β ε : Type} {f : α → Except ε β} :
    ∀ {xs : List α}, (∃ ys, xs.mapM f = .ok ys) ↔ ∀ x ∈ xs, ∃ y, f x = .ok y
  | [] => by simp [pure, Except.pure]
  | x :: xs => by
    have ih : _ ↔ ∀ x ∈ xs, ∃ y, f x = .ok y := exists_mapM_iff
    rw [List.forall_mem_cons, ← ih, List.mapM_cons]
    cases f x with
    | error e => simp [bind, Except.bind]
    | ok y => cases xs.mapM f <;> simp [bind, Except.bind, pure, Except.pure]

theorem List.lookup_of_mem {α β : Type} [BEq α] [LawfulBEq α] {l : List (α × β)} {k : α} {b : β}
    (hnodup : (l.map (·.1)).Nodup) (h : (k, b) ∈ l) : l.lookup k = some b := by
  obtain ⟨l₁, l₂, rfl⟩ := List.append_of_mem h
  refine List.lookup_eq_some_iff.mpr ⟨l₁, l₂, rfl, fun p hp => ?_⟩
  rw [List.map_append, List.nodup_append] at hnodup
  have hne := hnodup.2.2 p.1 (List.mem_map_of_mem hp) k (by simp)
  simpa using fun heq => hne heq.symm

/-- The source at each binding is what was bound there. -/
theorem Arena.getElem?_sources {a : Arena σ} {sources : List BoundSource}
    (h : a.sources = .ok sources) {ix : Nat} {b : BoundSource} :
    sources[ix]? = some b ↔ ix < a.next ∧ a.bound.lookup ix = some b := by
  have hmap := congrArg (·[ix]?) (Except.map_of_mapM h)
  simp only [List.getElem?_map] at hmap
  by_cases hix : ix < a.next
  · rw [List.getElem?_range hix, Option.map_some] at hmap
    cases hb : a.bound.lookup ix with
    | none => cases hs : sources[ix]? <;> simp [hb, hs] at hmap
    | some b' =>
      cases hs : sources[ix]? with
      | none => simp [hs] at hmap
      | some b'' =>
        simp only [hb, hs, Option.map_some, Option.some.injEq, Except.ok.injEq] at hmap
        simp [hmap, hix]
  · have hnone : (List.range a.next)[ix]? = none := by simpa using Nat.le_of_not_lt hix
    rw [hnone] at hmap
    cases hs : sources[ix]? <;> simp [hs, hix] at hmap ⊢

/-- Before any join is bound, there is the `from` source. -/
theorem Arena.sound_start {root : Source σ} {clausePrefix : Option String} {clause : Clause}
    {source : BoundSource} (hroot : root.bind ctx queryPrefix clausePrefix clause = .ok source)
    (n : Nat) : Arena.Sound root n 0 ⟨n + 1, [(0, source)], [], []⟩ where
  next := by simp
  taken := by simp
  nodup := by simp
  root := ⟨source, by simp, Source.boundAs_bind hroot⟩
  joins := by simp
  covered := by simp

/-- The bindings of a whole level. -/
theorem Arena.sound_of_foldlM {c : Clauses σ} {root : Source σ} {clausePrefix : Option String}
    {clause : Clause} {source : BoundSource} {a : Arena σ}
    (hroot : root.bind ctx c.queryPrefix clausePrefix clause = .ok source)
    (h : c.declaredJoins.foldlM (bindJoin ctx c.queryPrefix)
      ⟨c.joins.length + 1, [(0, source)], [], []⟩ = .ok a) :
    a.Sound root c.joins.length c.joins.length :=
  foldlM_declared (Arena.Sound root c.joins.length)
    (fun _ _ _ _ hj hinv hstep =>
      hinv.bindJoin (List.getElem?_eq_some_iff.mp hj).1 hstep) (sound_start hroot _) h

/-- The sources of a whole level are what was bound. -/
theorem Arena.getElem?_sources_eq_lookup {root : Source σ} {n : Nat} {a : Arena σ}
    {sources : List BoundSource} (hsound : a.Sound root n n) (h : a.sources = .ok sources)
    (ix : Nat) : sources[ix]? = a.bound.lookup ix := by
  refine Option.ext fun b => ?_
  rw [getElem?_sources h]
  refine and_iff_right_of_imp fun hb => ?_
  obtain ⟨l₁, l₂, hl, -⟩ := List.lookup_eq_some_iff.mp hb
  have := hsound.taken (ix, b) (hl ▸ List.mem_append_right _ List.mem_cons_self)
  have := hsound.next
  simp only at *
  omega

/-- **The sources of a level are those of its clauses.** -/
theorem Clauses.resolve_bound {c : Clauses σ} {b : Bindings σ} (h : c.resolve ctx = .ok b) :
    Clauses.Bound { c with joins := b.joins, sources := b.sources } := by
  obtain ⟨root, source, a, hroot, hsource, ha, -, hsources, hjoins, -⟩ := resolve_cases h
  have hsound := Arena.sound_of_foldlM hsource ha
  have hlookup : ∀ {ix b'}, (ix, b') ∈ a.bound → b.sources[ix]? = some b' := by
    intro ix b' hb
    have := hsound.taken (ix, b') hb
    have := hsound.next
    exact (Arena.getElem?_sources hsources).mpr
      ⟨by simp only at *; omega, List.lookup_of_mem hsound.nodup hb⟩
  refine ⟨?_, ?_, ?_⟩
  · obtain ⟨b', hb', hroot'⟩ := hsound.root
    exact ⟨root, b', hroot, hlookup hb', hroot'⟩
  · intro j hj
    obtain ⟨ix, s, b', hix, hs, hb', hsb⟩ := hsound.joins j (hjoins ▸ hj)
    exact ⟨ix, s, b', hix, hs, hlookup hb', hsb⟩
  · intro ix hix
    obtain ⟨-, hb⟩ := (Arena.getElem?_sources hsources).mp (List.getElem?_eq_getElem hix)
    obtain ⟨l₁, l₂, hl, -⟩ := List.lookup_eq_some_iff.mp hb
    have hmem : (ix, b.sources[ix]) ∈ a.bound := by
      rw [hl]
      exact List.mem_append_right _ List.mem_cons_self
    rcases hsound.covered _ hmem with hzero | ⟨j, hj, hjx⟩
    · exact .inl hzero
    · exact .inr ⟨j, hjoins ▸ hj, hjx⟩

end QueryPlanner
