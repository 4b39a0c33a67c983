import Yoink.Core.Doc
import Mathlib.Algebra.Group.Int.Defs
import Mathlib.Tactic.Common

/-!
# Entries as array items

An entry is stored as one `Any` value: `toAny` builds it and `fromAny` reads it back, filling
in what a foreign value leaves out.
-/

namespace Yoink

/-- The values an item of a yrs array may hold. A map is read through its first entry for a
key. -/
inductive Any where
  | null
  | undefined
  | bool (b : Bool)
  | number (n : Float)
  | bigInt (n : Int)
  | string (s : String)
  | buffer (bytes : List UInt8)
  | array (items : List Any)
  | map (fields : List (String × Any))

/-- `u64::cast_signed`. -/
def castSigned (n : Nat) : Int := Int.bmod n (2 ^ 64)

/-- `i64::cast_unsigned`. -/
def castUnsigned (n : Int) : Nat := (n % 2 ^ 64).toNat

theorem castUnsigned_castSigned {n : Nat} (h : n < 2 ^ 64) : castUnsigned (castSigned n) = n := by
  unfold castUnsigned castSigned
  rw [Int.bmod_def]
  split <;> omega

namespace ClipEntry

def toAny (entry : ClipEntry) : Any :=
  .map [("id", .string entry.id), ("device_id", .string entry.deviceId),
    ("device_name", .string entry.deviceName), ("text", .string entry.text),
    ("created_at_ms", .bigInt (castSigned entry.createdAtMs))]

/-- The string under `key`. -/
def getStr (fields : List (String × Any)) (key : String) : Option String :=
  match fields.lookup key with
  | some (.string s) => some s
  | _ => none

/-- The timestamp, which a foreign writer may have stored as a number or left out. -/
def getCreatedAt (fields : List (String × Any)) : Nat :=
  match fields.lookup "created_at_ms" with
  | some (.bigInt n) => castUnsigned n
  | some (.number n) => n.toUInt64.toNat
  | _ => 0

def fromAny : Any → Option ClipEntry
  | .map fields => do
    let id ← getStr fields "id"
    let deviceId ← getStr fields "device_id"
    let deviceName := (getStr fields "device_name").getD ""
    let text ← getStr fields "text"
    return ⟨id, deviceId, deviceName, text, getCreatedAt fields⟩
  | _ => none

/-- Whatever `to_any` writes can be read. -/
theorem fromAny_toAny_eq (entry : ClipEntry) :
    fromAny entry.toAny =
      some { entry with createdAtMs := castUnsigned (castSigned entry.createdAtMs) } := by
  simp [fromAny, toAny, getStr, getCreatedAt, List.lookup_cons]

/-- An entry survives the way into the array and back. -/
theorem fromAny_toAny {entry : ClipEntry} (h : entry.createdAtMs < 2 ^ 64) :
    fromAny entry.toAny = some entry := by
  rw [fromAny_toAny_eq, castUnsigned_castSigned h]

end ClipEntry

end Yoink
