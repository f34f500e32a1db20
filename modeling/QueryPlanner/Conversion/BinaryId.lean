import QueryPlanner.Conversion.Basic
import QueryPlanner.Text.Uuid

/-!
# Identifiers stored as bytes

The custom type `binary_id`: a grouped hexadecimal text as a logical value, sixteen bytes in store.

* `Conversions.builtin` — the table that holds only this type
-/

namespace QueryPlanner

namespace CustomType

/-- Read an identifier, or refuse the value in the name of `binary_id`. -/
def requireUuid : Option Uuid → Except ConversionError Uuid
  | some u => .ok u
  | none => .error (.invalid (.custom "binary_id"))

/-- An identifier that is a text to the program and sixteen bytes in store. -/
def binaryId : CustomType where
  name := "binary_id"
  storage := .binary
  cast
    | .string s => do
      let u ← requireUuid (Uuid.read s)
      .ok (.string u.render)
    | .binary bytes => do
      let u ← requireUuid (Uuid.ofBytes? bytes)
      .ok (.string u.render)
    | _ => .error (.invalid (.custom "binary_id"))
  dump
    | .string s => do
      let u ← requireUuid (Uuid.read s)
      .ok (.binary u.bytes)
    | _ => .error (.invalid (.custom "binary_id"))

end CustomType

namespace Conversions

/-- The primitive types and `binary_id`. -/
def builtin : Conversions := ⟨[.binaryId]⟩

end Conversions

end QueryPlanner
