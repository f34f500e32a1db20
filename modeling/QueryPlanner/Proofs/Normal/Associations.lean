import QueryPlanner.Proofs.Normal.Preloads

/-!
# The associations that are loaded from joins

Rows are made of the root and of the associations that are preloaded from joins.  For each of these
the projection notes a path, a binding and the fields that stand for it.  A take notes those that it
names, wherever it stands in the selection; the preloads that are left over follow.

* `AssociationSelect.Sound` — a note that belongs to a preload, with stored fields that are projected
* `Projector.Needs` — what holds if a step of the expansion succeeds
* `Selection.needs_expand` — where a selection is expanded, its notes are sound
* `Projectable.noted_joinedPreloads` — no preload from a join is left out
* `Planner.prepare_associations` — both for an accepted query
-/

namespace QueryPlanner

variable {α β ι κ : Type}

/-! ### Sound notes -/

/-- A field of this name is declared and stored. -/
def Schema.Stores (schema : Schema) (name : String) : Prop :=
  ∃ field ∈ schema.fields, field.name = name ∧ field.isVirtual = false

/-- A note of a preload that is read from its binding, for the schema there, with stored fields that
are among the columns. -/
structure AssociationSelect.Sound (v : Projectable) (columns : List Expr)
    (a : AssociationSelect) : Prop where
  preloaded : ∃ entry, Preload.At v.preloads a.path entry ∧ entry.binding = some a.binding
  stored : ∃ schema, v.schemaAt a.binding = some schema ∧ a.schema = schema.name ∧
    ∀ name ∈ a.fields, schema.Stores name
  projected : ∀ name ∈ a.fields, .field a.binding name ∈ columns

/-- A projection of which all notes are sound. -/
def Projected.Sound (v : Projectable) (p : Projected) : Prop :=
  ∀ a ∈ p.associations, a.Sound v p.fields

namespace Projected.Sound

variable {v : Projectable} {p q : Projected}

theorem nil : Sound v {} := List.forall_mem_nil _

theorem ofBinding (ix : Nat) (names : List String) : Sound v (.ofBinding ix names) :=
  List.forall_mem_nil _

theorem append (hp : p.Sound v) (hq : q.Sound v) : (p ++ q).Sound v :=
  List.forall_mem_append.mpr
    ⟨fun a ha =>
      let ⟨preloaded, stored, projected⟩ := hp a ha
      ⟨preloaded, stored, fun name hname => List.mem_append_left _ (projected name hname)⟩,
    fun a ha =>
      let ⟨preloaded, stored, projected⟩ := hq a ha
      ⟨preloaded, stored, fun name hname => List.mem_append_right _ (projected name hname)⟩⟩

theorem concat {ps : List Projected} (h : ∀ p ∈ ps, p.Sound v) : (Projected.concat ps).Sound v := by
  induction ps with
  | nil => exact nil
  | cons p ps ih =>
    obtain ⟨hp, hps⟩ := List.forall_mem_cons.mp h
    exact hp.append (ih hps)

/-- The fields of a binding, and the note that they stand for a preload that is read from there. -/
theorem note {path : List String} {entry : Preload} {ix : Nat} {schema : Schema}
    {names : List String} (hat : Preload.At v.preloads path entry)
    (hbinding : entry.binding = some ix) (hschema : v.schemaAt ix = some schema)
    (hnames : ∀ name ∈ names, schema.Stores name) (hp : p.Sound v) :
    Sound v (.ofBinding ix names ++ p ++ ⟨[], [⟨path, ix, schema.name, names⟩]⟩) := by
  refine List.forall_mem_append.mpr ⟨?_, List.forall_mem_singleton.mpr ?_⟩
  · rw [fields_append, List.append_nil]
    exact (ofBinding ix names).append hp
  · refine ⟨⟨entry, hat, hbinding⟩, ⟨schema, hschema, rfl, hnames⟩, fun name hname => ?_⟩
    rw [fields_append, fields_append]
    exact List.mem_append_left _ (List.mem_append_left _ (List.mem_map_of_mem hname))

end Projected.Sound

theorem Schema.stores_loadNames (schema : Schema) : ∀ name ∈ schema.loadNames, schema.Stores name := by
  intro name hname
  obtain ⟨field, hfield, rfl⟩ := List.mem_map.mp hname
  obtain ⟨hmem, hload⟩ := List.mem_filter.mp hfield
  exact ⟨field, hmem, rfl, by simpa using (Bool.and_eq_true_iff.mp hload).1⟩

/-! ### Preloads that are left over -/

/-- The preloads `ps` stand in a forest at the end of `path`. -/
def Preload.Within (forest : List Preload) (path : List String) (ps : List Preload) : Prop :=
  ∀ names entry, Preload.At ps names entry → Preload.At forest (path ++ names) entry

namespace Preload.Within

variable {forest ps : List Preload} {path : List String} {p : Preload}

theorem refl (forest : List Preload) : Within forest [] forest := fun _ _ hat => hat

theorem entry (h : Within forest path ps) (hp : p ∈ ps) :
    Preload.At forest (path ++ [p.association]) p := h _ p (.top hp)

theorem children (h : Within forest path ps) (hp : p ∈ ps) :
    Within forest (path ++ [p.association]) p.children := by
  intro names entry hat
  rw [List.append_assoc]
  exact h _ entry (.child hp hat)

end Preload.Within

namespace Projectable

variable (v : Projectable)

theorem sound_joinedBinding (noted : List AssociationSelect) {path : List String} {entry : Preload}
    (hat : Preload.At v.preloads path entry) :
    (v.joinedBinding noted path entry.binding).Sound v := by
  cases hbinding : entry.binding with
  | none => exact .nil
  | some ix =>
    rw [joinedBinding]
    split
    · exact .nil
    · cases hschema : v.schemaAt ix with
      | none => exact .nil
      | some schema =>
        have hnote := Projected.Sound.note hat hbinding hschema schema.stores_loadNames .nil
        rwa [Projected.append_nil] at hnote

mutual

theorem sound_joinedPreload (path : List String) : ∀ (p : Preload) (noted : List AssociationSelect),
    Preload.At v.preloads (path ++ [p.association]) p →
      Preload.Within v.preloads (path ++ [p.association]) p.children →
        (v.joinedPreload noted path p).Sound v
  | ⟨association, binding, children⟩, noted, hat, hwithin => by
    rw [joinedPreload]
    exact .append (v.sound_joinedBinding noted hat) (sound_joinedPreloads _ children _ hwithin)

/-- The notes of the preloads that are left over are sound. -/
theorem sound_joinedPreloads (path : List String) : ∀ (ps : List Preload)
    (noted : List AssociationSelect), Preload.Within v.preloads path ps →
      (v.joinedPreloads noted path ps).Sound v
  | [], noted, _ => by
    rw [joinedPreloads]
    exact .nil
  | p :: ps, noted, hwithin => by
    rw [joinedPreloads]
    exact .append
      (sound_joinedPreload path p noted (hwithin.entry List.mem_cons_self)
        (hwithin.children List.mem_cons_self))
      (sound_joinedPreloads path ps _ fun names entry hat =>
        hwithin names entry (Preload.at_cons.mpr (.inr hat)))

end

/-- A binding that is noted before, or by a projection. -/
def Notes (noted : List AssociationSelect) (p : Projected) (ix : Nat) : Prop :=
  ∃ a ∈ noted ++ p.associations, a.binding = ix

theorem Notes.left {noted : List AssociationSelect} {p q : Projected} {ix : Nat}
    (h : Notes noted p ix) : Notes noted (p ++ q) ix := by
  obtain ⟨a, ha, hix⟩ := h
  refine ⟨a, ?_, hix⟩
  rw [Projected.associations_append, ← List.append_assoc]
  exact List.mem_append_left _ ha

theorem Notes.right {noted : List AssociationSelect} {p q : Projected} {ix : Nat}
    (h : Notes (noted ++ p.associations) q ix) : Notes noted (p ++ q) ix := by
  rwa [Notes, Projected.associations_append, ← List.append_assoc]

variable {v}

theorem notes_joinedBinding (noted : List AssociationSelect) (path : List String) {ix : Nat}
    (hschema : (v.schemaAt ix).isSome) : Notes noted (v.joinedBinding noted path (some ix)) ix := by
  rw [joinedBinding]
  cases hnoted : noted.any (·.binding == ix) with
  | true =>
    obtain ⟨a, ha, hix⟩ := List.any_eq_true.mp hnoted
    exact ⟨a, List.mem_append_left _ ha, by simpa using hix⟩
  | false =>
    obtain ⟨schema, hschema⟩ := Option.isSome_iff_exists.mp hschema
    simp only [hschema, Bool.false_eq_true, if_false]
    exact ⟨_, List.mem_append_right _ (List.mem_singleton_self _), rfl⟩

/-- What names a binding names one with a schema. -/
def Schematic (v : Projectable) (p : Preload) : Prop :=
  ∀ ix, p.binding = some ix → (v.schemaAt ix).isSome

mutual

theorem notes_joinedPreload (path : List String) : ∀ (p : Preload)
    (noted : List AssociationSelect), v.Schematic p →
    (∀ names entry, Preload.At p.children names entry → v.Schematic entry) →
    (∀ ix, p.binding = some ix → Notes noted (v.joinedPreload noted path p) ix) ∧
      ∀ names entry, Preload.At p.children names entry →
        ∀ ix, entry.binding = some ix → Notes noted (v.joinedPreload noted path p) ix
  | ⟨association, binding, children⟩, noted, hown, hbelow => by
    rw [joinedPreload]
    constructor
    · rintro ix rfl
      exact (notes_joinedBinding noted _ (hown ix rfl)).left
    · exact fun names entry hat ix hix =>
        (notes_joinedPreloads _ children _ hbelow names entry hat ix hix).right

/-- No preload from a join is left out: what has not been noted before is noted now. -/
theorem notes_joinedPreloads (path : List String) : ∀ (ps : List Preload)
    (noted : List AssociationSelect),
    (∀ names entry, Preload.At ps names entry → v.Schematic entry) →
    ∀ names entry, Preload.At ps names entry →
      ∀ ix, entry.binding = some ix → Notes noted (v.joinedPreloads noted path ps) ix
  | [], _, _ => fun _ _ hat => absurd hat Preload.not_at_nil
  | p :: ps, noted, hschematic => by
    obtain ⟨⟨hown, hbelow⟩, hrest⟩ := Preload.forall_at_cons.mp hschematic
    obtain ⟨hfirst, hchildren⟩ := notes_joinedPreload path p noted hown hbelow
    rw [joinedPreloads]
    exact Preload.forall_at_cons.mpr ⟨⟨fun ix hix => (hfirst ix hix).left,
      fun names entry hat ix hix => (hchildren names entry hat ix hix).left⟩,
      fun names entry hat ix hix =>
        (notes_joinedPreloads path ps _ hrest names entry hat ix hix).right⟩

end

end Projectable

/-! ### What a successful expansion shows -/

/-- A step that does not succeed unless `Q` holds. -/
def Projector.Needs (m : Projector α) (Q : Prop) : Prop := ∀ p r, m.run p = .ok r → Q

namespace Projector.Needs

variable {m : Projector α} {k : α → Projector β} {Q Q' : Prop}

theorem of (h : Q) : Needs m Q := fun _ _ _ => h

theorem imp (h : Needs m Q) (hQ : Q → Q') : Needs m Q' := fun p r hr => hQ (h p r hr)

theorem and (h : Needs m Q) (h' : Needs m Q') : Needs m (Q ∧ Q') :=
  fun p r hr => ⟨h p r hr, h' p r hr⟩

theorem throw (site : Site) (fault : Fault) :
    Needs (MonadExcept.throw (PlanError.malformed site fault) : Projector α) Q :=
  fun _ _ hr => nomatch hr

theorem throw_bind (site : Site) (fault : Fault) :
    Needs (MonadExcept.throw (PlanError.malformed site fault) >>= k) Q :=
  fun _ _ hr => nomatch hr

theorem first (h : Needs m Q) : Needs (m >>= k) Q := by
  intro p r hr
  rw [StateT.run_bind] at hr
  cases hm : m.run p with
  | error e =>
    rw [hm] at hr
    cases hr
  | ok a => exact h p a hm

theorem andThen (h : ∀ a, Needs (k a) Q) : Needs (m >>= k) Q := by
  intro p r hr
  rw [StateT.run_bind] at hr
  cases hm : m.run p with
  | error e =>
    rw [hm] at hr
    cases hr
  | ok a =>
    rw [hm] at hr
    exact h a.1 a.2 r hr

/-- A step for each element of a list. -/
theorem forM {h : κ → ι} {f : ι → Projector Unit} {P : κ → Prop} {xs : List κ}
    (hf : ∀ x ∈ xs, Needs (f (h x)) (P x)) : Needs ((xs.map h).forM f) (∀ x ∈ xs, P x) := by
  induction xs with
  | nil => exact .of (List.forall_mem_nil P)
  | cons x xs ih =>
    have hrest := ih fun y hy => hf y (List.mem_cons_of_mem x hy)
    exact ((hf x List.mem_cons_self).first.and (.andThen fun _ => hrest)).imp
      fun h => List.forall_mem_cons.mpr h

end Projector.Needs

namespace Selection

open Projector

variable (s : Selection)

/-- The fields that a take names are stored. -/
theorem needs_takenNames (schema : Schema) : ∀ take : List Take,
    Needs (s.takenNames schema take) (∀ name ∈ take.filterMap Take.fieldName?, schema.Stores name)
  | [] => .of (List.forall_mem_nil _)
  | .association .. :: take => needs_takenNames schema take
  | .field name :: take => by
    simp only [takenNames]
    cases hfield : schema.field? name with
    | none => exact .throw_bind _ _
    | some field =>
      cases hvirtual : field.isVirtual with
      | true =>
        simp only [hvirtual, if_true]
        exact .throw_bind _ _
      | false =>
        simp only [hvirtual, Bool.false_eq_true, if_false]
        have hname : field.name = name := by simpa using List.find?_some hfield
        have hrest : Needs (s.takenNames schema take >>= fun names => pure (name :: names)) _ :=
          (needs_takenNames schema take).first
        exact hrest.imp fun hrest => List.forall_mem_cons.mpr
          ⟨⟨field, List.mem_of_find?_eq_some hfield, hname, hvirtual⟩, hrest⟩

/-- What a take leaves of a schema is stored. -/
theorem needs_takeFields (ix : Nat) (schema : Schema) (take : List Take) :
    Needs (s.takeFields ix schema take) (∀ name ∈ schema.taken take, schema.Stores name) := by
  have hnames : Needs (s.takeFields ix schema take) _ := (s.needs_takenNames schema take).first
  refine hnames.imp fun hstores => ?_
  unfold Schema.taken
  simp only
  split
  · exact schema.stores_loadNames
  · exact hstores

/-- What a take names of the associations is sound. -/
theorem needs_takeAssociations (preloads : List Preload) (path : List String) (take : List Take) :
    Preload.Within s.clauses.preloads path preloads →
      Needs (s.takeAssociations preloads path take)
        ((s.projectable.takenAssociations preloads path take).Sound s.projectable) := by
  fun_induction Selection.takeAssociations s preloads path take with
  | case1 =>
    rw [Projectable.takenAssociations]
    exact fun _ => .of .nil
  | case2 preloads path name take ih =>
    rw [Projectable.takenAssociations]
    exact ih
  | case3 preloads path name nested take joined rest association ix children hjoined hschema ih =>
    exact fun _ => .throw_bind _ _
  | case4 preloads path name nested take joined rest association ix children hjoined schema hschema
      ih ihnested =>
    intro hwithin
    have hfind : preloads.find? (fun p => p.association == name && p.binding.isSome) =
        some ⟨association, some ix, children⟩ := hjoined
    simp only [Projectable.takenAssociations, hfind, schemaAt_projectable, hschema]
    have hname := List.find?_some hfind
    obtain rfl : association = name := by simpa using hname
    have hmem := List.mem_of_find?_eq_some hfind
    have hfields := s.needs_takeFields ix schema nested
    have hnested := ihnested (hwithin.children hmem)
    have hrest := ih hwithin
    refine (hfields.first.and (.andThen fun _ => hnested.first.and
      (.andThen fun _ => .andThen fun _ => hrest))).imp fun h => ?_
    obtain ⟨hstores, hnested, hrest⟩ := h
    exact (Projected.Sound.note (hwithin.entry hmem) rfl hschema hstores hnested).append hrest
  | case5 preloads path name nested take joined rest hjoined ih =>
    exact fun _ => .throw_bind _ _

theorem needs_take (ix : Nat) (schema : Schema) (take : List Take) :
    Needs (s.take ix schema take) ((s.projectable.taken ix schema take).Sound s.projectable) := by
  have htaken : Needs (s.take ix schema take) _ := .andThen fun _ =>
    s.needs_takeAssociations s.clauses.preloads [] take (.refl _)
  exact htaken.imp fun hsound => .append (.ofBinding _ _) hsound

theorem needs_takeMap (ix : Nat) (take : List Take) :
    Needs (s.takeMap ix take) ((s.projectable.mapped ix take).Sound s.projectable) := by
  unfold takeMap Projectable.mapped
  rw [schemaAt_projectable]
  cases s.schemaAt? ix with
  | some schema => exact s.needs_take ix schema take
  | none => exact .of (.ofBinding _ _)

/-- The children of a container are projected with it. -/
theorem needs_flatten_children {P : Expr → Prop} {n : Node Expr} (hn : n.isContainer = true)
    (h : ∀ child ∈ n.children, Needs (s.flatten child) (P child)) :
    Needs (s.flatten ⟨n⟩) (∀ child ∈ n.children, P child) := by
  unfold flatten
  rw [Expr.fold_mk]
  cases n with
  | tuple items | list items =>
    simp only [Node.map, flattenNode]
    exact .forM h
  | mapping entries =>
    simp only [Node.map, flattenNode]
    refine Needs.imp (.forM fun entry hentry => ?_) List.forall_mem_map.mpr
    exact h entry.2 (List.mem_map_of_mem hentry)
  | _ => cases hn

/-- The notes of an expression are sound. -/
theorem needs_flatten (e : Expr) :
    Needs (s.flatten e) ((s.projectable.columns e).Sound s.projectable) := by
  refine Expr.induction (P := fun e =>
    Needs (s.flatten e) ((s.projectable.columns e).Sound s.projectable)) ?_ e
  intro n ih
  cases hwhole : n.isWhole with
  | true =>
    unfold flatten
    rw [Expr.fold_mk, Projectable.columns_mk]
    cases n with
    | binding ix => exact .of (.ofBinding _ _)
    | structOf ix take =>
      simp only [Node.map, flattenNode, Projectable.columnsNode, schemaAt_projectable]
      cases s.schemaAt? ix with
      | some schema => exact s.needs_take ix schema take
      | none => exact .throw _ _
    | mapOf ix take => exact s.needs_takeMap ix take
    | _ => cases hwhole
  | false =>
    cases hcontainer : n.isContainer with
    | true =>
      rw [s.projectable.columns_container hcontainer]
      exact (s.needs_flatten_children hcontainer ih).imp
        fun hsound => .concat (List.forall_mem_map.mpr hsound)
    | false =>
      rw [s.projectable.columns_other hwhole hcontainer]
      exact .of (List.forall_mem_nil _)

/-- **Where a selection is expanded, its notes are sound.** -/
theorem needs_expand (e : Expr) :
    Needs (s.expand e) ((s.projectable.expansion e).Sound s.projectable) := by
  have hexpand : Needs (s.expand e) _ := (s.needs_flatten e).first
  refine hexpand.imp fun hsound => ?_
  unfold Projectable.expansion
  split
  · exact hsound.append (s.projectable.sound_joinedPreloads [] _ _ (.refl _))
  · exact hsound

end Selection

/-! ### The level -/

theorem Selection.schemaAt?_eq_some_iff {s : Selection} {ix : Nat} {schema : Schema} :
    s.schemaAt? ix = some schema ↔ s.clauses.HoldsSchema s.ctx.registry ix schema := by
  have hschemaAt : s.schemaAt? ix =
      (s.clauses.sources[ix]?.bind (·.schema?)).bind s.ctx.registry.lookup? := by
    unfold Selection.schemaAt?
    cases s.clauses.sources[ix]? <;> rfl
  rw [hschemaAt, Clauses.HoldsSchema]
  constructor
  · intro h
    obtain ⟨name, hname, hlookup⟩ := Option.bind_eq_some_iff.mp h
    obtain rfl := Registry.name_of_lookup? hlookup
    exact ⟨hname, hlookup⟩
  · rintro ⟨hname, hlookup⟩
    rw [hname, Option.bind_some, hlookup]

namespace Clauses

variable {ctx : Context} {c : Clauses Query}

theorem schemaAt_projectable {ix : Nat} {schema : Schema} :
    (c.projectable ctx).schemaAt ix = some schema ↔ c.HoldsSchema ctx.registry ix schema :=
  Selection.schemaAt?_eq_some_iff (s := ⟨ctx, c, ""⟩)

/-- The columns of a level that is projected have sound notes. -/
theorem sound_columns (hoperation : ctx.operation = .all) (h : ∃ r, c.projectFor ctx = .ok r) :
    (c.columns ctx).Sound (c.projectable ctx) := by
  simp only [projectFor, hoperation] at h
  obtain ⟨-, r, hr⟩ := (c.project_ok ctx).mp h
  exact Selection.needs_expand ⟨ctx, c, c.selected.render⟩ c.selected {} r hr

/-- The columns of a level whose preloads pass the check note every preload from a join. -/
theorem notes_columns (hcheck : c.checkPreloads ctx = .ok ()) :
    ∀ path entry, Preload.At c.preloads path entry → ∀ ix, entry.binding = some ix →
      ∃ a ∈ (c.columns ctx).associations, a.binding = ix := by
  intro path entry hat ix hix
  rcases checkPreloads_iff.mp hcheck with hnone | ⟨hselects, root, hroot, hall⟩
  · rw [hnone] at hat
    exact absurd hat Preload.not_at_nil
  have hselected : c.selected.selectsRoot = true := by
    unfold selected
    cases hselect : c.select with
    | none => rfl
    | some select => exact hselects select hselect
  have hschematic : ∀ names entry, Preload.At c.preloads names entry →
      (c.projectable ctx).Schematic entry := by
    intro names entry hat ix hix
    obtain ⟨reached, along, hholds⟩ := hall names entry hat
    obtain ⟨schema, rfl, hheld⟩ := hholds ix hix
    have hregistered := along.registered (by simpa using hroot.2) schema rfl
    rw [schemaAt_projectable.mpr ⟨hheld, hregistered⟩]
    rfl
  have hcolumns : c.columns ctx = (c.projectable ctx).columns c.selected ++
      (c.projectable ctx).joinedPreloads ((c.projectable ctx).columns c.selected).associations []
        c.preloads := by
    rw [columns, Projectable.expansion, if_pos hselected]
    rfl
  obtain ⟨a, ha, hbinding⟩ :=
    Projectable.notes_joinedPreloads [] c.preloads _ hschematic path entry hat ix hix
  refine ⟨a, ?_, hbinding⟩
  rwa [hcolumns, Projected.associations_append]

/-- What a level is projected from has the outline of the level. -/
theorem outline_nestedNormal : ((c.nestedNormal ctx).dumped ctx).outline = c.outline := by
  rw [outline_dumped, nestedNormal, ← map_eq_edit, outline_map]

/-- What a level that is accepted is projected from passes the check of its preloads and is
projected. -/
theorem Accepted.projects (h : c.Accepted ctx) :
    ((c.nestedNormal ctx).dumped ctx).checkPreloads ctx = .ok () ∧
      ∃ r, ((c.nestedNormal ctx).dumped ctx).projectFor ctx = .ok r := by
  obtain ⟨_, hcheck⟩ := h.preloads
  rw [← projectFor_outline, ← checkPreloads_outline, outline_nestedNormal, checkPreloads_outline,
    projectFor_outline]
  exact ⟨hcheck, h.projection⟩

end Clauses

/-- What a note of a preload stands for: a preload at its path that is read from its binding, the
schema that the path leads to from that of `from`, and fields of it that are declared, stored and
projected. -/
structure AssociationSelect.Describes (r : Registry) (c : Clauses Query) (columns : List Expr)
    (a : AssociationSelect) : Prop where
  preloaded : ∃ entry, Preload.At c.preloads a.path entry ∧ entry.binding = some a.binding
  reached : ∃ root reached, c.HoldsSchema r 0 root ∧
    r.LeadsAlong (maxChainDepth + 1) (some root) a.path (some reached) ∧ a.schema = reached.name ∧
    ∀ name ∈ a.fields, reached.Stores name
  projected : ∀ name ∈ a.fields, .field a.binding name ∈ columns

theorem AssociationSelect.Describes.congr {r : Registry} {c d : Clauses Query}
    {columns : List Expr} {a : AssociationSelect} (hpreloads : c.preloads = d.preloads)
    (hsources : c.sources = d.sources) (h : a.Describes r c columns) : a.Describes r d columns := by
  obtain ⟨hpreloaded, ⟨root, reached, hroot, along, hfields⟩, hprojected⟩ := h
  exact ⟨hpreloads ▸ hpreloaded, ⟨root, reached, hroot.congr hsources, along, hfields⟩, hprojected⟩

/-- A sound note describes the preload that it belongs to, if the preloads pass the check. -/
theorem AssociationSelect.Sound.describes {ctx : Context} {c : Clauses Query} {columns : List Expr}
    {a : AssociationSelect} (h : a.Sound (c.projectable ctx) columns)
    (hcheck : c.checkPreloads ctx = .ok ()) : a.Describes ctx.registry c columns := by
  obtain ⟨⟨entry, hat, hbinding⟩, ⟨schema, hschema, hname, hstores⟩, hprojected⟩ := h
  refine ⟨⟨entry, hat, hbinding⟩, ?_, hprojected⟩
  rcases Clauses.checkPreloads_iff.mp hcheck with hnone | ⟨-, root, hroot, hall⟩
  · rw [show (c.projectable ctx).preloads = [] from hnone] at hat
    exact absurd hat Preload.not_at_nil
  obtain ⟨reached, along, hholds⟩ := hall a.path entry hat
  obtain ⟨schema', rfl, hheld⟩ := hholds a.binding hbinding
  have hregistered := along.registered (by simpa using hroot.2) schema' rfl
  obtain rfl : schema' = schema := Option.some.inj
    ((Clauses.schemaAt_projectable.mpr ⟨hheld, hregistered⟩).symm.trans hschema)
  exact ⟨root, schema', hroot, along, hname, hstores⟩

/-- **The associations of an accepted query** are sound and complete for the preloads from joins.
Take a query that is prepared for reading.  Every association in the projection has the path and the
binding of a preload, the schema that the path leads to from that of `from`, and declared and stored
fields of this schema that are projected as fields of the binding.  Every preload that names a
binding, at any depth, has an association with this binding. -/
theorem Planner.prepare_associations {p : Planner} {query : Query} {caps : Capabilities}
    {plan : Plan} {projection : Projection}
    (h : p.prepare query .all caps = .ok (plan, projection)) :
    plan.query.clauses.preloads = query.clauses.preloads ∧
    (∀ a ∈ projection.associations,
      a.Describes p.registry plan.query.clauses projection.fields) ∧
    ∀ path entry ix, Preload.At query.clauses.preloads path entry → entry.binding = some ix →
      ∃ a ∈ projection.associations, a.binding = ix := by
  obtain ⟨t, ps, hyields, hplanned, haccepted, hquery, rfl⟩ := prepare_cases h
  obtain ⟨c⟩ := query
  obtain ⟨d⟩ := t
  obtain ⟨b, hb, hframe, -⟩ := Query.plan_cases hyields
  have hpreloads : d.preloads = c.preloads :=
    congrArg (fun f : Clauses Unit => f.preloads) hframe
  obtain ⟨hcheck, hproject⟩ := haccepted.level.projects
  rw [hquery, Query.normal_mk]
  refine ⟨hpreloads, fun a ha => ?_, fun path entry ix hat => ?_⟩
  · have hdescribes := ((Clauses.sound_columns rfl hproject) a ha).describes hcheck
    exact hdescribes.congr (by rfl) (by rfl)
  · exact Clauses.notes_columns hcheck path entry (hpreloads ▸ hat) ix

/-- Posts with their comments and the authors of these, all beside a number. -/
def Query.numberedPosts : Query :=
  Query.commentedPosts.select (.tuple [.literal (.int 1), .binding 0])

/-- The comments are noted with their fields, and the authors under them with theirs. -/
theorem Planner.prepare_associations_numbered :
    ∃ plan projection, (⟨.blog, .builtin, none, {}⟩ : Planner).prepare .numberedPosts .all
        Dialect.postgres.capabilities = .ok (plan, projection) ∧
      projection.associations =
        [⟨["comments"], 1, "Comment", ["id", "body", "post_id", "author_id"]⟩,
          ⟨["comments", "author"], 2, "Author", ["id", "name"]⟩] ∧
      (∀ a ∈ projection.associations,
        a.Describes .blog plan.query.clauses projection.fields) ∧
      ∃ a ∈ projection.associations, a.binding = 2 := by
  have hprepared : ((⟨.blog, .builtin, none, {}⟩ : Planner).prepare .numberedPosts .all
      Dialect.postgres.capabilities).toOption.map (·.2.associations) =
        some [⟨["comments"], 1, "Comment", ["id", "body", "post_id", "author_id"]⟩,
          ⟨["comments", "author"], 2, "Author", ["id", "name"]⟩] := by
    decide +kernel
  obtain ⟨⟨plan, projection⟩, hprepare, hassociations⟩ := Option.map_eq_some_iff.mp hprepared
  have hok := Except.toOption_eq_some_iff.mp hprepare
  obtain ⟨-, hsound, hcomplete⟩ := Planner.prepare_associations hok
  exact ⟨plan, projection, hok, hassociations, hsound, hcomplete ["comments", "author"] _ 2
    (.child List.mem_cons_self (.top List.mem_cons_self)) rfl⟩

end QueryPlanner
