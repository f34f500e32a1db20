import Mathlib.Data.List.Induction
import QueryPlanner.Schema.Basic

/-!
# The keys that associations join on

A schema is built by one call after another.  An association from the owner's side joins on the
primary key that the schema has when it is added, so it joins on the primary key of the finished
schema if the key is declared before it.  Fields are not taken away, but for an `id` that another
primary key takes the place of; so the keys of associations are declared, but for that one.

* `Schema.Call`, `Schema.ofCalls` — the calls, and the schema that they build
* `Schema.Call.Adds` — what a call adds to the associations
* `Schema.ownerKeys_ofCalls` — associations from the owner's side join on the key of their time
* `Schema.ownerKeys_settled` — what the keys of a finished schema are
-/

namespace QueryPlanner

/-- Whether an association leads from the key of its owner to rows that hold it. -/
def AssociationKind.isOwnerSide : AssociationKind → Bool
  | hasMany | hasOne | manyToMany .. => true
  | belongsTo | through _ => false

/-- Whether an association is a chain of others, without keys of its own. -/
def AssociationKind.isChain : AssociationKind → Bool
  | through _ => true
  | _ => false

namespace Schema

/-! ### Building a schema -/

/-- A call of the builder. -/
inductive Call where
  | field (name : String) (type : FieldType)
  | virtualField (name : String) (type : FieldType)
  | unloadedField (name : String) (type : FieldType)
  | primaryKey (name : String) (type : FieldType)
  | tablePrefix (text : String)
  | belongsTo (name related : String)
  | hasMany (name related : String)
  | hasOne (name related : String)
  | manyToMany (name related : String) (joinThrough : Related)
  | hasThrough (name : String) (chain : List String)

/-- What a call makes of a schema. -/
def call (s : Schema) : Call → Schema
  | .field name type => s.field name type
  | .virtualField name type => s.virtualField name type
  | .unloadedField name type => s.unloadedField name type
  | .primaryKey name type => s.withPrimaryKey name type
  | .tablePrefix text => s.withPrefix text
  | .belongsTo name related => s.belongsTo name related
  | .hasMany name related => s.hasMany name related
  | .hasOne name related => s.hasOne name related
  | .manyToMany name related joinThrough => s.manyToMany name related joinThrough
  | .hasThrough name chain => s.hasThrough name chain

/-- The schema of a table that calls build in turn. -/
def ofCalls (name source : String) (calls : List Call) : Schema :=
  calls.foldl call (ofTable name source)

theorem ofCalls_concat (name source : String) (calls : List Call) (c : Call) :
    ofCalls name source (calls ++ [c]) = (ofCalls name source calls).call c := by
  rw [ofCalls, List.foldl_append]
  rfl

/-- Whether a schema declares a field of a name. -/
def Declares (s : Schema) (key : String) : Prop := ∃ f ∈ s.fields, f.name = key

namespace Call

/-- Whether a call adds an association from the owner's side. -/
def isOwnerSide : Call → Bool
  | hasMany .. | hasOne .. | manyToMany .. => true
  | _ => false

/-- The primary key that a call declares. -/
def key? : Call → Option String
  | primaryKey name _ => some name
  | _ => none

/-- A call that adds an association from the owner's side declares no primary key. -/
theorem key?_of_isOwnerSide {c : Call} (h : c.isOwnerSide = true) : c.key? = none := by
  cases c <;> first | rfl | cases h

/-- The primary key after some calls: that of the last call that declares one. -/
def keyAfter (calls : List Call) : String :=
  calls.foldl (fun key c => c.key?.getD key) "id"

theorem keyAfter_concat (calls : List Call) (c : Call) :
    keyAfter (calls ++ [c]) = c.key?.getD (keyAfter calls) := by
  rw [keyAfter, List.foldl_append]
  rfl

/-- Whenever an association from the owner's side is added, the primary key is the one of the
finished schema. -/
def Settled (calls : List Call) : Prop :=
  ∀ before c after, calls = before ++ c :: after → c.isOwnerSide = true →
    keyAfter before = keyAfter calls

end Call

/-! ### Primary keys -/

section

variable {s : Schema}

theorem primaryKey_call (s : Schema) (c : Call) :
    (s.call c).primaryKey = c.key?.or s.primaryKey := by
  cases c with
  | belongsTo name related =>
    unfold call belongsTo
    dsimp only
    split <;> rfl
  | _ => rfl

theorem primaryKey_ofCalls (name source : String) (calls : List Call) :
    (ofCalls name source calls).primaryKey = some (Call.keyAfter calls) := by
  induction calls using List.reverseRecOn with
  | nil => rfl
  | append_singleton calls c ih =>
    rw [ofCalls_concat, primaryKey_call, ih, Call.keyAfter_concat]
    cases c.key? <;> rfl

/-! ### Fields -/

theorem declares_iff {key : String} : s.Declares key ↔ key ∈ s.fields.map (·.name) := by
  rw [Declares, List.mem_map]

theorem map_name_retype (name : String) (type : FieldType) (fields : List FieldDef) :
    (retype name type fields).map (·.name) = fields.map (·.name) := by
  induction fields with
  | nil => rfl
  | cons f fields ih =>
    unfold retype
    split <;> simp [ih]

theorem declares_withPrimaryKey {name key : String} {type : FieldType} :
    (s.withPrimaryKey name type).Declares key ↔
      key = name ∨ s.Declares key ∧ (key ≠ "id" ∨ name = "id") := by
  have hkept : key ∈ (s.fields.filter fun f => f.name != "id" || name == "id").map (·.name) ↔
      s.Declares key ∧ (key ≠ "id" ∨ name = "id") := by
    simp only [declares_iff, List.mem_map, List.mem_filter, Bool.or_eq_true, bne_iff_ne, beq_iff_eq]
    constructor
    · rintro ⟨f, ⟨hf, hstays⟩, rfl⟩
      exact ⟨⟨f, hf, rfl⟩, hstays⟩
    · rintro ⟨⟨f, hf, rfl⟩, hstays⟩
      exact ⟨f, ⟨hf, hstays⟩, rfl⟩
  rw [← hkept, declares_iff, withPrimaryKey]
  dsimp only
  split
  · next hany =>
    obtain ⟨f, hf, hname⟩ := List.any_eq_true.mp hany
    rw [map_name_retype]
    refine ⟨.inr, fun h => h.elim (fun hkey => ?_) id⟩
    exact List.mem_map.mpr ⟨f, hf, (beq_iff_eq.mp hname).trans hkey.symm⟩
  · simp

/-- **No field is taken away**, but for an `id` that another primary key takes the place of. -/
theorem declares_call {key : String} (h : s.Declares key) (c : Call) :
    (s.call c).Declares key ∨ key = "id" ∧ ∃ name, c.key? = some name ∧ name ≠ "id" := by
  have hadd : ∀ f, (s.addField f).Declares key := by
    obtain ⟨g, hg, hkey⟩ := h
    exact fun f => ⟨g, List.mem_append_left _ hg, hkey⟩
  cases c with
  | field | virtualField | unloadedField => exact .inl (hadd _)
  | primaryKey name type =>
    by_cases hstays : key ≠ "id" ∨ name = "id"
    · exact .inl (declares_withPrimaryKey.mpr (.inr ⟨h, hstays⟩))
    · rw [not_or, not_not] at hstays
      exact .inr ⟨hstays.1, name, rfl, hstays.2⟩
  | belongsTo name related =>
    left
    unfold call belongsTo
    dsimp only
    split
    · exact hadd _
    · exact h
  | _ => exact .inl h

/-- A call that declares a primary key declares its field. -/
theorem declares_key {c : Call} {key : String} (h : c.key? = some key) :
    (s.call c).Declares key := by
  cases c with
  | primaryKey name type =>
    obtain rfl := Option.some.inj h
    exact declares_withPrimaryKey.mpr (.inl rfl)
  | _ => cases h

/-- A call that adds a `belongs_to` association declares the field of its key. -/
theorem declares_belongsTo (name related : String) :
    (s.belongsTo name related).Declares (Text.foreignKey name) := by
  unfold belongsTo
  dsimp only
  split
  · exact ⟨_, List.mem_append_right _ (List.mem_singleton_self _), rfl⟩
  · next hfound =>
    rw [Option.isNone_iff_eq_none] at hfound
    obtain ⟨f, hf⟩ := Option.ne_none_iff_exists'.mp hfound
    have hname := List.find?_some hf
    exact ⟨f, List.mem_of_find?_eq_some hf, beq_iff_eq.mp hname⟩

/-- A derived key is longer than `id`. -/
theorem foreignKey_ne_id (name : String) : Text.foreignKey name ≠ "id" := by
  intro heq
  have hlist := congrArg String.toList heq
  unfold Text.foreignKey at hlist
  dsimp only at hlist
  split at hlist
  · next hsuffix =>
    rw [String.toList_ofList] at hlist
    rw [hlist] at hsuffix
    exact absurd hsuffix (by decide)
  · have hlength := congrArg List.length hlist
    simp at hlength

/-! ### Associations -/

/-- What a call adds to the associations of a schema: nothing; an association from the owner's side,
which joins on the primary key; one whose key is declared with it; or a chain. -/
inductive Call.Adds (s : Schema) (c : Call) : List Association → Prop
  | nothing (owns : c.isOwnerSide = false) : Adds s c []
  | owner {a} (owns : c.isOwnerSide = true) (side : a.kind.isOwnerSide = true)
    (key : a.ownerKey = s.ownerKey) : Adds s c [a]
  | belonging {a} (owns : c.isOwnerSide = false) (side : a.kind.isOwnerSide = false)
    (derived : a.ownerKey ≠ "id") (declared : (s.call c).Declares a.ownerKey) : Adds s c [a]
  | chain {a} (owns : c.isOwnerSide = false) (chain : a.kind.isChain = true)
    (side : a.kind.isOwnerSide = false) : Adds s c [a]

/-- **Associations are only added.** -/
theorem associations_call (s : Schema) (c : Call) :
    ∃ added, (s.call c).associations = s.associations ++ added ∧ c.Adds s added := by
  cases c with
  | belongsTo name related =>
    refine ⟨[.belongsTo name related], ?_, .belonging rfl rfl (foreignKey_ne_id name)
      (declares_belongsTo name related)⟩
    unfold call belongsTo
    dsimp only
    split <;> rfl
  | hasMany | hasOne | manyToMany => exact ⟨_, rfl, .owner rfl rfl rfl⟩
  | hasThrough => exact ⟨_, rfl, .chain rfl rfl rfl⟩
  | _ => exact ⟨[], (List.append_nil _).symm, .nothing rfl⟩

/-- What every call keeps.  The primary key is declared, and so is the key of every association that
is no chain, unless it is an `id` from the owner's side that another primary key has replaced. -/
structure Sound (s : Schema) : Prop where
  primary : ∃ key, s.primaryKey = some key ∧ s.Declares key
  derived : ∀ a ∈ s.associations, a.kind.isChain = false → a.kind.isOwnerSide = false →
    a.ownerKey ≠ "id"
  declared : ∀ a ∈ s.associations, a.kind.isChain = false →
    s.Declares a.ownerKey ∨
      a.kind.isOwnerSide = true ∧ a.ownerKey = "id" ∧ s.primaryKey ≠ some "id"

theorem sound_ofTable (name source : String) : (ofTable name source).Sound where
  primary := ⟨"id", rfl, _, List.mem_singleton_self _, rfl⟩
  derived _ h := nomatch h
  declared _ h := nomatch h

namespace Sound

theorem primary_call (h : s.Sound) (c : Call) :
    ∃ key, (s.call c).primaryKey = some key ∧ (s.call c).Declares key := by
  obtain ⟨key, hprimary, hdeclared⟩ := h.primary
  rw [primaryKey_call, hprimary]
  cases hc : c.key? with
  | some other => exact ⟨other, rfl, declares_key hc⟩
  | none =>
    refine ⟨key, rfl, (declares_call hdeclared c).resolve_right ?_⟩
    rintro ⟨-, name, hname, -⟩
    cases hc.symm.trans hname

/-- A call keeps what it says of an association that is there. -/
theorem declared_call (h : s.Sound) (c : Call) {a : Association} (ha : a ∈ s.associations)
    (hchain : a.kind.isChain = false) :
    (s.call c).Declares a.ownerKey ∨
      a.kind.isOwnerSide = true ∧ a.ownerKey = "id" ∧ (s.call c).primaryKey ≠ some "id" := by
  rcases h.declared a ha hchain with hdeclared | ⟨hside, hid, hprimary⟩
  · refine (declares_call hdeclared c).imp_right ?_
    rintro ⟨hid, name, hname, hne⟩
    refine ⟨?_, hid, by simpa [primaryKey_call, hname] using hne⟩
    by_contra hside
    exact h.derived a ha hchain (by simpa using hside) hid
  · rw [primaryKey_call]
    cases hc : c.key? with
    | none => exact .inr ⟨hside, hid, hprimary⟩
    | some name =>
      by_cases hname : name = "id"
      · left
        rw [hid, ← hname]
        exact declares_key hc
      · exact .inr ⟨hside, hid, by simpa using hname⟩

/-- **One call.** -/
theorem call (h : s.Sound) (c : Call) : (s.call c).Sound := by
  obtain ⟨added, hadded, hadds⟩ := associations_call s c
  refine ⟨h.primary_call c, ?_, ?_⟩
  · rw [hadded]
    refine List.forall_mem_append.mpr ⟨h.derived, ?_⟩
    cases hadds with
    | nothing => exact List.forall_mem_nil _
    | owner _ side => simp [side]
    | belonging _ _ derived => simp [derived]
    | chain _ chain => simp [chain]
  · rw [hadded]
    refine List.forall_mem_append.mpr ⟨fun a ha hchain => h.declared_call c ha hchain, ?_⟩
    cases hadds with
    | nothing => exact List.forall_mem_nil _
    | chain _ chain => simp [chain]
    | belonging _ _ _ declared => exact List.forall_mem_singleton.mpr fun _ => .inl declared
    | @owner a owns side key =>
      refine List.forall_mem_singleton.mpr fun _ => .inl ?_
      obtain ⟨primary, hprimary, hdeclared⟩ := h.primary
      rw [key, ownerKey, hprimary]
      refine (declares_call hdeclared c).resolve_right ?_
      rintro ⟨-, name, hname, -⟩
      cases (Call.key?_of_isOwnerSide owns).symm.trans hname

end Sound

end

section

variable (name source : String)

/-- A way to split a list that is one longer splits the list, or splits the last element off. -/
theorem exists_split_concat {α : Type} {P : List α → α → Prop} {xs : List α} {x : α} :
    (∃ before y after, xs ++ [x] = before ++ y :: after ∧ P before y) ↔
      (∃ before y after, xs = before ++ y :: after ∧ P before y) ∨ P xs x := by
  constructor
  · rintro ⟨before, y, after, heq, hy⟩
    rcases List.eq_nil_or_concat after with rfl | ⟨after, z, rfl⟩
    · obtain ⟨rfl, rfl⟩ := List.append_singleton_inj.mp heq
      exact .inr hy
    · rw [List.concat_eq_append, ← List.cons_append, ← List.append_assoc] at heq
      exact .inl ⟨before, y, after, (List.append_singleton_inj.mp heq).1, hy⟩
  · rintro (⟨before, y, after, rfl, hy⟩ | hx)
    · exact ⟨before, y, after ++ [x], by simp, hy⟩
    · exact ⟨xs, x, [], rfl, hx⟩

/-- **Associations from the owner's side join on the primary key of their time.** -/
theorem ownerKeys_ofCalls (key : String) (calls : List Call) :
    (∃ a ∈ (ofCalls name source calls).associations,
        a.kind.isOwnerSide = true ∧ a.ownerKey = key) ↔
      ∃ before c after, calls = before ++ c :: after ∧
        c.isOwnerSide = true ∧ Call.keyAfter before = key := by
  induction calls using List.reverseRecOn with
  | nil => simp [ofCalls, ofTable]
  | append_singleton calls c ih =>
    obtain ⟨added, hadded, hadds⟩ := associations_call (ofCalls name source calls) c
    have hkey : (ofCalls name source calls).ownerKey = Call.keyAfter calls := by
      rw [ownerKey, primaryKey_ofCalls]
      rfl
    rw [ofCalls_concat, hadded, exists_split_concat, ← ih]
    simp only [List.mem_append, or_and_right, exists_or]
    refine or_congr_right ?_
    cases hadds with
    | nothing owns => simp [owns]
    | owner owns side key => simp [owns, side, key, hkey]
    | belonging owns side | chain owns _ side => simp [owns, side]

theorem sound_ofCalls (calls : List Call) : (ofCalls name source calls).Sound := by
  induction calls using List.reverseRecOn with
  | nil => exact sound_ofTable name source
  | append_singleton calls c ih =>
    rw [ofCalls_concat]
    exact ih.call c

end

/-- **What the keys of a finished schema are.**  For every sequence of calls: all associations from
the owner's side join on the primary key of the finished schema exactly if each of them is added
when the primary key is declared that the schema has in the end.  Then the key of every association
that is no chain is a declared field; and in any case it is, unless it is an `id` from the owner's
side that is not the primary key any more. -/
theorem ownerKeys_settled (name source : String) (calls : List Call) :
    ((∀ a ∈ (ofCalls name source calls).associations, a.kind.isOwnerSide = true →
        (ofCalls name source calls).primaryKey = some a.ownerKey) ↔ Call.Settled calls) ∧
    (Call.Settled calls → ∀ a ∈ (ofCalls name source calls).associations, a.kind.isChain = false →
      (ofCalls name source calls).Declares a.ownerKey) ∧
    ∀ a ∈ (ofCalls name source calls).associations, a.kind.isChain = false →
      (ofCalls name source calls).Declares a.ownerKey ∨
        a.kind.isOwnerSide = true ∧ a.ownerKey = "id" ∧
          (ofCalls name source calls).primaryKey ≠ some "id" := by
  have hkeys : (∀ a ∈ (ofCalls name source calls).associations, a.kind.isOwnerSide = true →
      (ofCalls name source calls).primaryKey = some a.ownerKey) ↔ Call.Settled calls := by
    rw [primaryKey_ofCalls]
    constructor
    · intro h before c after hcalls howns
      obtain ⟨a, ha, hside, hkey⟩ :=
        (ownerKeys_ofCalls name source _ calls).mpr ⟨before, c, after, hcalls, howns, rfl⟩
      exact (Option.some.inj (h a ha hside)).trans hkey |>.symm
    · intro h a ha hside
      obtain ⟨before, c, after, hcalls, howns, hkey⟩ :=
        (ownerKeys_ofCalls name source a.ownerKey calls).mp ⟨a, ha, hside, rfl⟩
      rw [← hkey, h before c after hcalls howns]
  have hsound := sound_ofCalls name source calls
  refine ⟨hkeys, fun hsettled a ha hchain => ?_, hsound.declared⟩
  refine (hsound.declared a ha hchain).resolve_right ?_
  rintro ⟨hside, hid, hprimary⟩
  exact hprimary (hid ▸ hkeys.mpr hsettled a ha hside)

/-- Documents with notes and a cover, the key of which is an identifier. -/
def Call.documents : List Call :=
  [.belongsTo "owner" "User", .primaryKey "uuid" (.custom "binary_id"), .hasMany "notes" "Note",
    .field "title" .string, .hasOne "cover" "Cover"]

/-- Notes and cover are found by the identifier, the owner by a field that is declared for it. -/
theorem ownerKeys_settled_documents :
    Call.Settled Call.documents ∧
    (ofCalls "Doc" "docs" Call.documents).associations.map (·.ownerKey) =
      ["owner_id", "uuid", "uuid"] ∧
    (∀ a ∈ (ofCalls "Doc" "docs" Call.documents).associations, a.kind.isOwnerSide = true →
      (ofCalls "Doc" "docs" Call.documents).primaryKey = some a.ownerKey) ∧
    ∀ a ∈ (ofCalls "Doc" "docs" Call.documents).associations, a.kind.isChain = false →
      (ofCalls "Doc" "docs" Call.documents).Declares a.ownerKey := by
  have hsettled : Call.Settled Call.documents := by
    intro before c after hcalls howns
    have hlength := congrArg List.length hcalls
    -- the call is one of five, which the calls before it tell
    rcases before with _ | ⟨_, _ | ⟨_, _ | ⟨_, _ | ⟨_, _ | ⟨_, before⟩⟩⟩⟩⟩
    · cases hcalls
      cases howns
    · cases hcalls
      cases howns
    · cases hcalls
      rfl
    · cases hcalls
      cases howns
    · cases hcalls
      rfl
    · simp [Call.documents] at hlength
  obtain ⟨hkeys, hdeclared, -⟩ := ownerKeys_settled "Doc" "docs" Call.documents
  exact ⟨hsettled, by decide +kernel, hkeys.mpr hsettled, hdeclared hsettled⟩

/-- Notes that are added before the identifier is declared are still looked for by an `id`, which is
neither the primary key nor declared any more. -/
theorem ownerKeys_unsettled :
    ∃ calls : List Call, ∃ a ∈ (ofCalls "Doc" "docs" calls).associations,
      a.kind.isOwnerSide = true ∧ (ofCalls "Doc" "docs" calls).primaryKey ≠ some a.ownerKey ∧
        ¬ (ofCalls "Doc" "docs" calls).Declares a.ownerKey := by
  refine ⟨[.hasMany "notes" "Note", .primaryKey "uuid" (.custom "binary_id")], _,
    List.mem_singleton_self _, rfl, by decide +kernel, ?_⟩
  rw [declares_iff]
  decide +kernel

end Schema

end QueryPlanner
