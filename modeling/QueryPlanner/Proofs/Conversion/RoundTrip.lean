import QueryPlanner.Proofs.Conversion.Builtin

/-!
# Casting what has been cast

Casting and dumping are two tables.  For the built-in types each undoes the other on logical values,
which are what casting yields: such a value is cast to itself, it has a stored form, and this form
is cast to the value again.

* `Conversions.Settled` — a value of a type that casting and dumping agree on
* `Conversions.Settled.list` — so is a list of such values
* `FieldType.Builtin.settled_of_cast` — casting to a built-in type yields such a value
* `FieldType.Builtin.ne_null` — and it stores nothing but null as null
-/

namespace QueryPlanner

namespace Conversions

variable {c : Conversions} {type : FieldType} {v w : Value}

/-- A value that is cast to itself, and that has a stored form which is cast to it. -/
def Settled (c : Conversions) (type : FieldType) (w : Value) : Prop :=
  c.cast type w = .ok w ∧ ∃ stored, c.dump type w = .ok stored ∧ c.cast type stored = .ok w

theorem cast_list (element : FieldType) (items : List Value) :
    c.cast (.array element) (.list items) = Value.list <$> items.mapM (c.cast element) := by
  rw [cast, map_eq_pure_bind]
  rfl

theorem dump_list (element : FieldType) (items : List Value) :
    c.dump (.array element) (.list items) = Value.list <$> items.mapM (c.dump element) := by
  rw [dump, dumpWith, map_eq_pure_bind]
  rfl

theorem orInvalid_eq_ok {v? : Option Value} : orInvalid type v? = .ok v ↔ v? = some v := by
  cases v? <;> simp [orInvalid]

theorem Settled.null (c : Conversions) (type : FieldType) : c.Settled type .null :=
  ⟨c.cast_null type, .null, c.dump_null type, c.cast_null type⟩

theorem Settled.any (c : Conversions) (v : Value) : c.Settled .any v := by
  cases v <;> exact ⟨rfl, _, rfl, rfl⟩

/-- A list of values that casting and dumping agree on is such a value. -/
theorem Settled.list {element : FieldType} {items : List Value}
    (h : ∀ w ∈ items, c.Settled element w) : c.Settled (.array element) (.list items) := by
  have hitems : items.mapM (c.cast element) = .ok items ∧
      ∃ stored, items.mapM (c.dump element) = .ok stored ∧
        stored.mapM (c.cast element) = .ok items := by
    induction items with
    | nil => exact ⟨rfl, [], rfl, rfl⟩
    | cons w items ih =>
      obtain ⟨⟨hcast, stored, hdump, hback⟩, hrest⟩ := List.forall_mem_cons.mp h
      obtain ⟨hcasts, storeds, hdumps, hbacks⟩ := ih hrest
      refine ⟨?_, stored :: storeds, ?_, ?_⟩
      · rw [List.mapM_cons, hcast, hcasts]
        rfl
      · rw [List.mapM_cons, hdump, hdumps]
        rfl
      · rw [List.mapM_cons, hback, hbacks]
        rfl
  obtain ⟨hcast, stored, hdump, hback⟩ := hitems
  refine ⟨?_, .list stored, ?_, ?_⟩
  · rw [cast_list, hcast]
    rfl
  · rw [dump_list, hdump]
    rfl
  · rw [cast_list, hback]
    rfl

/-- An identifier in its usual form is stored as its bytes, from which it is read again. -/
theorem Settled.identifier (hfind : c.find "binary_id" = .ok .binaryId) (u : Uuid) :
    c.Settled (.custom "binary_id") (.string u.render) := by
  refine ⟨?_, .binary u.bytes, ?_, ?_⟩
  · rw [cast_binaryId hfind, Uuid.read_render]
    rfl
  · rw [dump, dump_binaryId hfind, Uuid.read_render]
    rfl
  · simp [cast, hfind, CustomType.binaryId, Uuid.ofBytes?, u.length_eq, CustomType.requireUuid,
      bind, Except.bind]

end Conversions

/-- What a traversal yields comes from its elements. -/
theorem Except.mem_of_mapM {α β ε : Type} {f : α → Except ε β} :
    ∀ {as : List α} {bs : List β}, as.mapM f = .ok bs → ∀ b ∈ bs, ∃ a ∈ as, f a = .ok b
  | [], _, h, b, hb => by
    cases h
    cases hb
  | a :: as, bs, h, b, hb => by
    rw [List.mapM_cons] at h
    cases ha : f a with
    | error e => simp [ha, bind, Except.bind] at h
    | ok first =>
      cases has : as.mapM f with
      | error e => simp [ha, has, bind, Except.bind] at h
      | ok rest =>
        simp only [ha, has, bind, Except.bind, pure, Except.pure, Except.ok.injEq] at h
        rw [← h] at hb
        rcases List.mem_cons.mp hb with rfl | hb
        · exact ⟨a, List.mem_cons_self, ha⟩
        · obtain ⟨a', ha', heq⟩ := mem_of_mapM has b hb
          exact ⟨a', List.mem_cons_of_mem a ha', heq⟩

/-- A step that yields what another one does carries the traversals with it. -/
theorem Except.mapM_of_imp {α β ε : Type} {f g : α → Except ε β}
    (h : ∀ a b, f a = .ok b → g a = .ok b) : ∀ {as : List α} {bs : List β},
      as.mapM f = .ok bs → as.mapM g = .ok bs
  | [], _, hbs => hbs
  | a :: as, bs, hbs => by
    rw [List.mapM_cons] at hbs ⊢
    cases hb : f a with
    | error e => simp [hb, bind, Except.bind] at hbs
    | ok b =>
      cases hrest : as.mapM f with
      | error e => simp [hb, hrest, bind, Except.bind] at hbs
      | ok rest => rwa [h a b hb, mapM_of_imp h hrest, ← hb, ← hrest]

open Conversions in
/-- **What is cast to a built-in type is settled**: it is cast to itself, and to its stored form and
back. -/
theorem FieldType.Builtin.settled_of_cast {c : Conversions} {type : FieldType}
    (h : type.Builtin c) : ∀ {v w : Value}, c.cast type v = .ok w → c.Settled type w := by
  induction h with
  | any => exact fun _ => .any c _
  | id | integer | float | boolean =>
    intro v w hcast
    cases v with
    | string s =>
      obtain ⟨_, -, rfl⟩ := Option.map_eq_some_iff.mp (orInvalid_eq_ok.mp hcast)
      exact ⟨rfl, _, rfl, rfl⟩
    | _ => cases hcast <;> exact ⟨rfl, _, rfl, rfl⟩
  | string | binary | map =>
    intro v w hcast
    cases v <;> cases hcast <;> exact ⟨rfl, _, rfl, rfl⟩
  | @array element _ ih =>
    intro v w hcast
    cases v with
    | null =>
      cases hcast
      exact .null c _
    | list items =>
      rw [cast_list] at hcast
      cases hitems : items.mapM (c.cast element) with
      | error e => simp [hitems] at hcast
      | ok ws =>
        rw [hitems] at hcast
        cases hcast
        refine .list fun w hw => ?_
        obtain ⟨item, -, hitem⟩ := Except.mem_of_mapM hitems w hw
        exact ih hitem
    | _ => cases hcast
  | binaryId hfind =>
    intro v w hcast
    cases v with
    | null =>
      cases hcast
      exact .null c _
    | string text =>
      rw [cast_binaryId hfind] at hcast
      cases hread : CustomType.requireUuid (Uuid.read text) with
      | error e => simp [hread, Except.map] at hcast
      | ok u =>
        rw [hread] at hcast
        cases hcast
        exact .identifier hfind u
    | binary bytes =>
      simp only [Conversions.cast, hfind, CustomType.binaryId, bind, Except.bind] at hcast
      cases hread : CustomType.requireUuid (Uuid.ofBytes? bytes) with
      | error e => simp [hread] at hcast
      | ok u =>
        rw [hread] at hcast
        cases hcast
        exact .identifier hfind u
    | _ => simp [Conversions.cast, hfind, CustomType.binaryId, bind, Except.bind] at hcast

/-! ### Null -/

namespace FieldType.Builtin

variable {c : Conversions} {type : FieldType} {v logical stored : Value}

/-- Only null is cast to null. -/
theorem eq_null_of_cast (h : type.Builtin c) (hcast : c.cast type v = .ok .null) : v = .null := by
  cases h with
  | id | integer | float | boolean =>
    cases v with
    | string text =>
      obtain ⟨_, -, heq⟩ := Option.map_eq_some_iff.mp (Conversions.orInvalid_eq_ok.mp hcast)
      cases heq
    | _ => cases hcast <;> rfl
  | @array element =>
    cases v with
    | list items =>
      rw [Conversions.cast_list] at hcast
      cases hitems : items.mapM (c.cast element) <;> simp [hitems] at hcast
    | _ => cases hcast <;> rfl
  | binaryId hfind =>
    cases v with
    | null => rfl
    | string text =>
      rw [Conversions.cast_binaryId hfind] at hcast
      cases hread : CustomType.requireUuid (Uuid.read text) <;> simp [hread, Except.map] at hcast
    | binary bytes =>
      simp only [Conversions.cast, hfind, CustomType.binaryId, bind, Except.bind] at hcast
      cases hread : CustomType.requireUuid (Uuid.ofBytes? bytes) <;> simp [hread] at hcast
    | _ => simp [Conversions.cast, hfind, CustomType.binaryId, bind, Except.bind] at hcast
  | _ =>
    cases v <;> cases hcast
    rfl

/-- **Only null is stored as null** with a built-in type. -/
theorem ne_null (h : type.Builtin c) (hcast : c.cast type v = .ok logical)
    (hdump : c.dump type logical = .ok stored) (hv : v ≠ .null) : stored ≠ .null := by
  rintro rfl
  obtain ⟨-, stored', hstored, hback⟩ := h.settled_of_cast hcast
  obtain rfl := Except.ok.inj (hdump.symm.trans hstored)
  rw [Conversions.cast_null] at hback
  obtain rfl := Except.ok.inj hback
  exact hv (h.eq_null_of_cast hcast)

end FieldType.Builtin

end QueryPlanner
