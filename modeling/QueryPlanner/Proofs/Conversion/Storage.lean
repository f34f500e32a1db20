import Mathlib.Data.List.Nodup
import Mathlib.Data.List.Perm.Subperm
import Mathlib.Logic.Relation
import QueryPlanner.Proofs.Conversion.RoundTrip

/-!
# What is stored has the shape of its storage type

A custom type may dump a value to anything at all, but what it dumps is dumped once more, with its
storage type.  This may be a custom type in turn, so dumping follows a chain of types, at the end of
which stands one that is not custom and that lets only values of its own shape pass.

* `Conversions.Shapes` — the values that are stored with a type
* `Conversions.shapes_of_dump` — a stored form is null or such a value
* `Conversions.Grounded` — no storage types form a cycle
* `Conversions.dump_custom`, `Conversions.exists_endsIn` — then dumping follows the chain to its end
* `Conversions.dumpCustom_of_le` — elsewhere a limit may refuse a value, but changes no stored form
-/

namespace QueryPlanner

/-- The custom type that a type is made of, if it is. -/
def FieldType.custom? : FieldType → Option String
  | .custom name => some name
  | .array element => element.custom?
  | _ => none

namespace Conversions

variable {c : Conversions}

/-! ### Shapes -/

/-- The shape of what is stored with a type: a custom type has that of its storage type, and lists
may hold nulls. -/
inductive Shapes (c : Conversions) : FieldType → Value → Prop
  | any (v : Value) : Shapes c .any v
  | id (i : Int) : Shapes c .id (.int i)
  | integer (i : Int) : Shapes c .integer (.int i)
  | float (x : Binary64) : Shapes c .float (.float x)
  | boolean (b : Bool) : Shapes c .boolean (.bool b)
  | string (text : String) : Shapes c .string (.string text)
  | binary (bytes : List UInt8) : Shapes c .binary (.binary bytes)
  | map (entries : List (String × Value)) : Shapes c .map (.map entries)
  | array {element : FieldType} {items : List Value}
    (members : ∀ item ∈ items, item ≠ .null → Shapes c element item) :
    Shapes c (.array element) (.list items)
  | custom {name : String} {custom : CustomType} {v : Value} (found : c.find name = .ok custom)
    (stored : Shapes c custom.storage v) : Shapes c (.custom name) v

/-- A type whose chain of storage types ends in a type that is not made of a custom one. -/
inductive EndsIn (c : Conversions) : FieldType → FieldType → Prop
  | ground {type : FieldType} (plain : type.custom? = none) : EndsIn c type type
  | array {element final : FieldType} (rest : EndsIn c element final) :
    EndsIn c (.array element) (.array final)
  | custom {name : String} {custom : CustomType} {final : FieldType}
    (found : c.find name = .ok custom) (rest : EndsIn c custom.storage final) :
    EndsIn c (.custom name) final

theorem EndsIn.custom?_eq_none {type final : FieldType} (h : c.EndsIn type final) :
    final.custom? = none := by
  induction h with
  | ground plain => exact plain
  | array _ ih => exact ih
  | custom _ _ ih => exact ih

theorem shapes_array_iff {element : FieldType} {v : Value} : c.Shapes (.array element) v ↔
    ∃ items, v = .list items ∧ ∀ item ∈ items, item ≠ .null → c.Shapes element item := by
  constructor
  · intro h
    cases h with
    | array members => exact ⟨_, rfl, members⟩
  · rintro ⟨items, rfl, members⟩
    exact .array members

theorem shapes_custom_iff {name : String} {custom : CustomType} {v : Value}
    (found : c.find name = .ok custom) :
    c.Shapes (.custom name) v ↔ c.Shapes custom.storage v := by
  constructor
  · intro h
    cases h with
    | custom found' stored =>
      obtain rfl := Except.ok.inj (found.symm.trans found')
      exact stored
  · exact .custom found

/-- What is stored with a type has the shape of the type that its chain ends in. -/
theorem EndsIn.shapes_iff {type final : FieldType} (h : c.EndsIn type final) :
    ∀ {v : Value}, c.Shapes type v ↔ c.Shapes final v := by
  induction h with
  | ground => exact Iff.rfl
  | array _ ih =>
    intro v
    rw [shapes_array_iff, shapes_array_iff]
    exact exists_congr fun items => and_congr_right fun _ =>
      forall₂_congr fun item _ => imp_congr_right fun _ => ih
  | custom found _ ih => exact (shapes_custom_iff found).trans ih

/-! ### Stored forms -/

/-- Whatever custom types are dumped to, if it has the shape that they are stored with, the stored
forms of all types have the shapes that these are stored with. -/
theorem shapes_of_dumpWith {custom : String → Value → Except ConversionError Value}
    (hcustom : ∀ name v stored, custom name v = .ok stored →
      stored = .null ∨ c.Shapes (.custom name) stored) (type : FieldType) :
    ∀ v stored, dumpWith custom type v = .ok stored → stored = .null ∨ c.Shapes type stored := by
  induction type with
  | any =>
    intro v stored _
    exact .inr (.any stored)
  | id | integer | float | boolean | string | binary | map =>
    intro v stored h
    cases v <;> cases h <;> first | exact .inl rfl | exact .inr (by constructor)
  | array element ih =>
    intro v stored h
    cases v with
    | null =>
      cases h
      exact .inl rfl
    | list items =>
      rw [dumpWith] at h
      cases hitems : items.mapM (dumpWith custom element) with
      | error e => simp [hitems, bind, Except.bind] at h
      | ok dumped =>
        rw [hitems] at h
        cases h
        refine .inr (.array fun item hitem hne => ?_)
        obtain ⟨given, -, hgiven⟩ := Except.mem_of_mapM hitems item hitem
        exact (ih given item hgiven).resolve_left hne
    | _ => cases h
  | custom name =>
    intro v stored h
    cases v with
    | null =>
      cases h
      exact .inl rfl
    | _ => exact hcustom name _ stored h

/-- What is stored with a custom type is its own dump, dumped with its storage type. -/
theorem dumpCustom_eq_ok_iff {depth : Nat} {name : String} {v stored : Value} :
    c.dumpCustom (depth + 1) name v = .ok stored ↔ ∃ custom dumped, c.find name = .ok custom ∧
      custom.dump v = .ok dumped ∧
        dumpWith (c.dumpCustom depth) custom.storage dumped = .ok stored := by
  rw [dumpCustom]
  cases hfound : c.find name with
  | error e => simp [bind, Except.bind]
  | ok custom => cases hdump : custom.dump v <;> simp [hdump, bind, Except.bind]

/-- However far chains of storage types are followed, custom types are stored as what these end
in. -/
theorem shapes_of_dumpCustom (depth : Nat) : ∀ name v stored,
    c.dumpCustom depth name v = .ok stored → stored = .null ∨ c.Shapes (.custom name) stored := by
  induction depth with
  | zero => exact nofun
  | succ depth ih =>
    intro name v stored h
    obtain ⟨custom, dumped, hfound, -, hstored⟩ := dumpCustom_eq_ok_iff.mp h
    -- the dump of the storage type lets nothing else pass
    have hshape := shapes_of_dumpWith ih custom.storage dumped stored hstored
    exact hshape.imp_right (.custom hfound)

/-- **A stored form has the shape of what its type is stored as**, or is null. -/
theorem shapes_of_dump {type : FieldType} {v stored : Value} (h : c.dump type v = .ok stored) :
    stored = .null ∨ c.Shapes type stored :=
  shapes_of_dumpWith (shapes_of_dumpCustom _) type v stored h

/-! ### Chains of storage types -/

/-- The first custom type is stored with a type that is made of the second one. -/
def StoresThrough (c : Conversions) (name inner : String) : Prop :=
  ∃ custom, c.find name = .ok custom ∧ custom.storage.custom? = some inner

/-- No custom type is stored, by way of others, with a type that is made of itself. -/
def Grounded (c : Conversions) : Prop :=
  ∀ name, ¬ Relation.TransGen c.StoresThrough name name

theorem mem_of_find {name : String} {custom : CustomType} (h : c.find name = .ok custom) :
    name ∈ c.customTypes.map (·.name) := by
  unfold find at h
  split at h
  · rename_i found hfound
    have hname := List.find?_some hfound
    exact List.mem_map.mpr ⟨found, List.mem_of_find?_eq_some hfound, eq_of_beq hname⟩
  · cases h

/-- A type is dumped alike by whatever dumps the custom type alike that it is made of. -/
theorem dumpWith_congr {f g : String → Value → Except ConversionError Value} {type : FieldType}
    (h : ∀ name, type.custom? = some name → f name = g name) :
    dumpWith f type = dumpWith g type := by
  induction type with
  | array element ih =>
    funext v
    cases v with
    | list items => rw [dumpWith, dumpWith, ih h]
    | _ => rfl
  | custom name =>
    funext v
    cases v with
    | null => rfl
    | _ => exact congrFun (h name rfl) _
  | _ =>
    funext v
    cases v <;> rfl

/-- What is stored if custom types are dumped in one way is stored just so in another way that
dumps as much. -/
theorem dumpWith_of_imp {f g : String → Value → Except ConversionError Value}
    (h : ∀ name v stored, f name v = .ok stored → g name v = .ok stored) {type : FieldType} :
    ∀ {v stored : Value}, dumpWith f type v = .ok stored → dumpWith g type v = .ok stored := by
  induction type with
  | array element ih =>
    intro v stored hv
    cases v with
    | list items =>
      rw [dumpWith] at hv ⊢
      cases hitems : items.mapM (dumpWith f element) with
      | error e => simp [hitems, bind, Except.bind] at hv
      | ok dumped => rwa [Except.mapM_of_imp (fun _ _ => ih) hitems, ← hitems]
    | _ => exact hv
  | custom name =>
    intro v stored hv
    cases v with
    | null => exact hv
    | _ => exact h name _ stored hv
  | _ =>
    intro v stored hv
    cases v <;> exact hv

/-- **The limit only refuses.**  What is stored within one is stored just so within a greater
one. -/
theorem dumpCustom_of_le {n : Nat} : ∀ {depth : Nat}, n ≤ depth → ∀ {name : String}
    {v stored : Value}, c.dumpCustom n name v = .ok stored →
      c.dumpCustom depth name v = .ok stored := by
  induction n with
  | zero => exact nofun
  | succ n ih =>
    intro depth hdepth name v stored h
    cases depth with
    | zero => omega
    | succ depth =>
      obtain ⟨custom, dumped, hfound, hdump, hstored⟩ := dumpCustom_eq_ok_iff.mp h
      have hmore := dumpWith_of_imp (fun _ _ _ => ih (Nat.le_of_succ_le_succ hdepth)) hstored
      exact dumpCustom_eq_ok_iff.mpr ⟨custom, dumped, hfound, hdump, hmore⟩

/-- The chain of storage types of a custom type ends after so many custom types at most. -/
inductive EndsWithin (c : Conversions) : Nat → String → Prop
  | step {n : Nat} {name : String}
    (rest : ∀ inner, c.StoresThrough name inner → EndsWithin c n inner) : EndsWithin c (n + 1) name

/-- A chain that has come to `name` by way of `visited` goes on for as many custom types at most as
there are others, and one that need not be there. -/
theorem Grounded.endsWithin_of_visited (hc : c.Grounded) : ∀ (n : Nat) (visited : List String)
    (name : String), visited.Nodup → (∀ x ∈ visited, x ∈ c.customTypes.map (·.name) ∧
      Relation.TransGen c.StoresThrough x name) →
    c.customTypes.length < n + visited.length → c.EndsWithin n name := by
  intro n
  induction n with
  | zero =>
    intro visited name hnodup hvisited hbound
    have hlength := (hnodup.subperm fun x hx => (hvisited x hx).1).length_le
    rw [List.length_map] at hlength
    omega
  | succ n ih =>
    intro visited name hnodup hvisited hbound
    refine .step fun inner hstep => ?_
    -- coming back to a visited type would close a cycle
    have hfresh : name ∉ visited := fun hmem => hc name (hvisited name hmem).2
    refine ih (name :: visited) inner (List.nodup_cons.mpr ⟨hfresh, hnodup⟩) ?_
      (by rw [List.length_cons]; omega)
    intro x hx
    rcases List.mem_cons.mp hx with rfl | hx
    · have ⟨custom, hfound, _⟩ := hstep
      exact ⟨mem_of_find hfound, .single hstep⟩
    · exact ⟨(hvisited x hx).1, (hvisited x hx).2.tail hstep⟩

/-- Without cycles a chain visits each custom type at most once. -/
theorem Grounded.endsWithin (hc : c.Grounded) (name : String) :
    c.EndsWithin (c.customTypes.length + 1) name :=
  hc.endsWithin_of_visited _ [] name List.nodup_nil (List.forall_mem_nil _)
    (by rw [List.length_nil]; omega)

/-- Where a chain ends, it makes no difference how much further it may be followed. -/
theorem EndsWithin.dumpCustom_eq {n : Nat} {name : String} (h : c.EndsWithin n name) :
    ∀ depth, n ≤ depth → c.dumpCustom depth name = c.dumpCustom n name := by
  induction h with
  | @step n name _ ih =>
    intro depth hdepth
    cases depth with
    | zero => omega
    | succ depth =>
      funext v
      rw [dumpCustom, dumpCustom]
      cases hfound : c.find name with
      | error e => rfl
      | ok custom =>
        have hstorage : dumpWith (c.dumpCustom depth) custom.storage =
            dumpWith (c.dumpCustom n) custom.storage :=
          dumpWith_congr fun inner hinner =>
            ih inner ⟨custom, hfound, hinner⟩ depth (Nat.le_of_succ_le_succ hdepth)
        exact congrArg (custom.dump v >>= ·) hstorage

/-- **Dumping follows the chain to its end.**  Where no storage types form a cycle, a value of a
custom type is stored as what its own dump yields is stored with the storage type. -/
theorem dump_custom (hc : c.Grounded) (name : String) {v : Value} (hv : v ≠ .null) :
    c.dump (.custom name) v = (do
      let custom ← c.find name
      let stored ← custom.dump v
      c.dump custom.storage stored) := by
  have hdump : c.dump (.custom name) v = c.dumpCustom (c.customTypes.length + 1) name v := by
    cases v with
    | null => exact absurd rfl hv
    | _ => rfl
  have hends := hc.endsWithin name
  rw [hdump, ← hends.dumpCustom_eq (c.customTypes.length + 2) (Nat.le_succ _), dumpCustom]
  rfl

/-- A type ends where the custom type that it is made of ends. -/
theorem exists_endsIn_of_custom? {type : FieldType}
    (h : ∀ name, type.custom? = some name → ∃ final, c.EndsIn (.custom name) final) :
    ∃ final, c.EndsIn type final := by
  induction type with
  | array element ih =>
    obtain ⟨final, hfinal⟩ := ih h
    exact ⟨.array final, .array hfinal⟩
  | custom name => exact h name rfl
  | _ => exact ⟨_, .ground rfl⟩

/-- Where all custom types that types are made of are known and no storage types form a cycle, the
chain of every type comes to an end. -/
theorem exists_endsIn (hc : c.Grounded)
    (hknown : ∀ name inner, c.StoresThrough name inner → ∃ custom, c.find inner = .ok custom)
    {type : FieldType}
    (htype : ∀ name, type.custom? = some name → ∃ custom, c.find name = .ok custom) :
    ∃ final, c.EndsIn type final := by
  have hends : ∀ n name, c.EndsWithin n name → (∃ custom, c.find name = .ok custom) →
      ∃ final, c.EndsIn (.custom name) final := by
    intro n name hwithin
    induction hwithin with
    | @step _ name _ ih =>
      rintro ⟨custom, hfound⟩
      obtain ⟨final, hfinal⟩ := exists_endsIn_of_custom? fun inner hinner =>
        have hstep : c.StoresThrough name inner := ⟨custom, hfound, hinner⟩
        ih inner hstep (hknown name inner hstep)
      exact ⟨final, .custom hfound hfinal⟩
  exact exists_endsIn_of_custom? fun name hname =>
    hends _ name (hc.endsWithin name) (htype name hname)

end Conversions

end QueryPlanner
