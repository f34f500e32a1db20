import Mathlib.Data.List.Basic
import QueryPlanner.Conversion.BinaryId

/-!
# Casting what can be stored

Values come into a query written out, and are then only dumped, or interpolated, and are then cast
first.  For the types that are built in it makes no difference: whatever can be dumped can be cast,
and dumping what it is cast to yields the same stored form.

* `FieldType.Builtin` — the primitive types, arrays of built-in ones, and `binary_id`
* `Uuid.read_render` — an identifier is read back from its text
* `FieldType.Builtin.cast_of_dump` — a value with a stored form is cast to one with the same form
-/

namespace QueryPlanner

/-! ### Identifiers -/

namespace Uuid

/-- Each of the sixteen digits has its own value. -/
theorem hexValue?_digitChar : ∀ n < 16, Text.hexValue? (Nat.digitChar n) = some n := by decide

theorem length_byteDigits (b : UInt8) : (byteDigits b).length = 2 := rfl

theorem length_flatMap_byteDigits (bytes : List UInt8) :
    (bytes.flatMap byteDigits).length = 2 * bytes.length := by
  simp [List.length_flatMap, length_byteDigits, Nat.mul_comm]

/-- Bytes are read back from their digits. -/
theorem hexBytes?_digits (bytes : List UInt8) :
    hexBytes? (bytes.flatMap byteDigits) = some bytes := by
  induction bytes with
  | nil => rfl
  | cons b bytes ih =>
    have hb : b.toNat < 256 := b.toNat_lt
    have hhigh := hexValue?_digitChar (b.toNat / 16) (by omega)
    have hlow := hexValue?_digitChar (b.toNat % 16) (by omega)
    have hvalue : 16 * (b.toNat / 16) + b.toNat % 16 = b.toNat := Nat.div_add_mod ..
    simp only [List.flatMap_cons, byteDigits, List.cons_append, List.nil_append, hexBytes?, hhigh,
      hlow, ih, hvalue, UInt8.ofNat_toNat, Option.bind_eq_bind, Option.bind_some]

/-- Hyphens between the groups are taken out again. -/
theorem ungroup?_groups {a b c d e : List Char} (ha : a.length = 8) (hb : b.length = 4)
    (hc : c.length = 4) (hd : d.length = 4) (he : e.length = 12) :
    ungroup? (a ++ '-' :: b ++ '-' :: c ++ '-' :: d ++ '-' :: e) =
      some (a ++ b ++ c ++ d ++ e) := by
  have hhyphens : ∀ i ∈ [8, 13, 18, 23],
      (a ++ '-' :: b ++ '-' :: c ++ '-' :: d ++ '-' :: e)[i]? = some '-' := by
    simp [List.getElem?_append, ha, hb, hc, hd]
  simp only [List.forall_mem_cons] at hhyphens
  rw [ungroup?, if_pos ⟨by simp [ha, hb, hc, hd, he], hhyphens.1, hhyphens.2.1, hhyphens.2.2.1,
    hhyphens.2.2.2.1⟩]
  simp (disch := omega) [List.drop_append, List.drop_eq_nil_of_le, ha, hb, hc, hd]

/-- **An identifier is read back from its text.** -/
theorem read_render (u : Uuid) : read u.render = some u := by
  have hdigits : (u.bytes.flatMap byteDigits).length = 32 := by
    rw [length_flatMap_byteDigits, u.length_eq]
  have hbytes := hexBytes?_digits u.bytes
  generalize hcs : u.bytes.flatMap byteDigits = cs at hdigits hbytes
  have hungroup := ungroup?_groups (a := cs.take 8) (b := (cs.drop 8).take 4)
    (c := (cs.drop 12).take 4) (d := (cs.drop 16).take 4) (e := cs.drop 20)
    (by simp [hdigits]) (by simp [hdigits]) (by simp [hdigits]) (by simp [hdigits])
    (by simp [hdigits])
  have hjoined : cs.take 8 ++ (cs.drop 8).take 4 ++ (cs.drop 12).take 4 ++ (cs.drop 16).take 4 ++
      cs.drop 20 = cs := by
    have hgroup : ∀ i n, (cs.drop i).take n ++ cs.drop (i + n) = cs.drop i := by
      intro i n
      rw [← List.drop_drop, List.take_append_drop]
    simp only [List.append_assoc]
    rw [hgroup 16 4, hgroup 12 4, hgroup 8 4, List.take_append_drop]
  rw [hjoined] at hungroup
  simp only [read, render, hcs]
  generalize hgrouped : cs.take 8 ++ '-' :: (cs.drop 8).take 4 ++ '-' :: (cs.drop 12).take 4 ++
    '-' :: (cs.drop 16).take 4 ++ '-' :: cs.drop 20 = grouped at hungroup
  have hlength : grouped.length = 36 := by simp [← hgrouped, hdigits]
  have hunwrap : unwrap grouped = grouped := by simp [unwrap, hlength]
  rw [String.toList_ofList, if_neg (by omega), hunwrap, hungroup]
  simp [hbytes, ofBytes?, u.length_eq]

end Uuid

/-! ### Values of built-in types -/

/-- Null is cast to null, whatever the type. -/
theorem Conversions.cast_null (conversions : Conversions) (type : FieldType) :
    conversions.cast type .null = .ok .null := by
  cases type <;> rfl

/-- Null has a stored form of every type: null. -/
theorem Conversions.dump_null (conversions : Conversions) (type : FieldType) :
    conversions.dump type .null = .ok .null := by
  cases type <;> rfl

/-- A type that is built in: a primitive one, an array of built-in ones at any depth, or
`binary_id`, where that name has its own meaning. -/
inductive FieldType.Builtin (c : Conversions) : FieldType → Prop
  | any : Builtin c .any
  | id : Builtin c .id
  | integer : Builtin c .integer
  | float : Builtin c .float
  | boolean : Builtin c .boolean
  | string : Builtin c .string
  | binary : Builtin c .binary
  | map : Builtin c .map
  | array {element} (h : Builtin c element) : Builtin c (.array element)
  | binaryId (h : c.find "binary_id" = .ok .binaryId) : Builtin c (.custom "binary_id")

namespace Conversions

variable {c : Conversions} (hfind : c.find "binary_id" = .ok .binaryId)
include hfind

/-- A text is cast to the identifier that it names, written in the usual form. -/
theorem cast_binaryId (text : String) : c.cast (.custom "binary_id") (.string text) =
    (CustomType.requireUuid (Uuid.read text)).map fun u => .string u.render := by
  simp only [cast, hfind, CustomType.binaryId, bind, Except.bind]
  cases CustomType.requireUuid (Uuid.read text) <;> rfl

/-- A text is stored as the bytes of the identifier that it names. -/
theorem dump_binaryId (depth : Nat) (text : String) :
    dumpWith (c.dumpCustom (depth + 1)) (.custom "binary_id") (.string text) =
      (CustomType.requireUuid (Uuid.read text)).map fun u => .binary u.bytes := by
  simp only [dumpWith, dumpCustom, hfind, CustomType.binaryId, bind, Except.bind]
  cases CustomType.requireUuid (Uuid.read text) <;> rfl

end Conversions

/-- What each value of a list goes through, the whole list goes through. -/
theorem Except.mapM_through {α β ε : Type} {f : α → Except ε β} {g : α → Except ε α}
    (h : ∀ a b, f a = .ok b → ∃ a', g a = .ok a' ∧ f a' = .ok b) :
    ∀ {as : List α} {bs : List β}, as.mapM f = .ok bs →
      ∃ as', as.mapM g = .ok as' ∧ as'.mapM f = .ok bs
  | [], _, hbs => ⟨[], rfl, hbs⟩
  | a :: as, _, hbs => by
    rw [List.mapM_cons] at hbs
    cases hb : f a with
    | error e => simp [hb, bind, Except.bind] at hbs
    | ok b =>
      cases hrest : as.mapM f with
      | error e => simp [hb, hrest, bind, Except.bind] at hbs
      | ok bs =>
        obtain ⟨a', ha', hb'⟩ := h a b hb
        obtain ⟨as', has', hbs'⟩ := mapM_through h hrest
        refine ⟨a' :: as', ?_, ?_⟩
        · rw [List.mapM_cons, ha', has']
          rfl
        · rw [List.mapM_cons, hb', hbs', ← hbs, hb, hrest]

namespace FieldType.Builtin

variable {c : Conversions} {type : FieldType}

/-- A value with a stored form, whatever chains of storage types are followed to. -/
theorem cast_of_dumpWith (h : type.Builtin c) (depth : Nat) :
    ∀ {v stored : Value}, Conversions.dumpWith (c.dumpCustom (depth + 1)) type v = .ok stored →
      ∃ logical, c.cast type v = .ok logical ∧
        Conversions.dumpWith (c.dumpCustom (depth + 1)) type logical = .ok stored := by
  induction h with
  | @array element _ ih =>
    intro v stored hstored
    cases v with
    | null => exact ⟨.null, rfl, hstored⟩
    | list items =>
      cases hitems : items.mapM
          (Conversions.dumpWith (c.dumpCustom (depth + 1)) element) with
      | error e => simp [Conversions.dumpWith, hitems, bind, Except.bind] at hstored
      | ok dumped =>
        obtain ⟨logical, hcast, hdump⟩ := Except.mapM_through (fun _ _ => ih) hitems
        refine ⟨.list logical, ?_, ?_⟩
        · simp [Conversions.cast, hcast, bind, Except.bind]
        · simpa [Conversions.dumpWith, hitems, hdump, bind, Except.bind] using hstored
    | _ => cases hstored
  | binaryId hfind =>
    intro v stored hstored
    cases v with
    | null => exact ⟨.null, rfl, hstored⟩
    | string text =>
      rw [Conversions.dump_binaryId hfind] at hstored
      cases hread : CustomType.requireUuid (Uuid.read text) with
      | error e => simp [hread, Except.map] at hstored
      | ok u =>
        refine ⟨.string u.render, by rw [Conversions.cast_binaryId hfind, hread]; rfl, ?_⟩
        rw [hread] at hstored
        rw [Conversions.dump_binaryId hfind, Uuid.read_render]
        exact hstored
    | _ => simp [Conversions.dumpWith, Conversions.dumpCustom, hfind, CustomType.binaryId, bind,
        Except.bind] at hstored
  | _ =>
    intro v stored hstored
    cases v <;> cases hstored <;> exact ⟨_, rfl, rfl⟩

/-- **What can be stored can be cast**, and the logical value has the same stored form. -/
theorem cast_of_dump (h : type.Builtin c) {v stored : Value}
    (hstored : c.dump type v = .ok stored) :
    ∃ logical, c.cast type v = .ok logical ∧ c.dump type logical = .ok stored :=
  h.cast_of_dumpWith _ hstored

end FieldType.Builtin

end QueryPlanner
