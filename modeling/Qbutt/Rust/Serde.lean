import Qbutt.Qt.Json

/-!
# Derived serialisation

The value trees that derived `Serialize` and `Deserialize` implementations exchange: a structure is an
object, an enumeration is a string or an object with one field that names the variant.  Reading covers
the forms that writing produces.
-/

namespace Qbutt.Serde

/-- The fields of a structure with `deny_unknown_fields`: they are known, and none is given twice. -/
def fields (known : List String) : Json → Option JsonObject
  | .object o =>
    if (JsonObject.keys o).Nodup ∧ ∀ key ∈ JsonObject.keys o, key ∈ known then some o else none
  | _ => none

/-- A variant with data: its name and the data. -/
def variant : Json → Option (String × Json)
  | .object [field] => some field
  | _ => none

def string : Json → Option String
  | .string value => some value
  | _ => none

def bool : Json → Option Bool
  | .bool value => some value
  | _ => none

def u32 : Json → Option UInt32
  | .number value =>
    if value.den = 1 ∧ 0 ≤ value.num ∧ value.num < 2 ^ 32 then some (.ofNat value.num.toNat) else none
  | _ => none

def option {α : Type} (read : Json → Option α) : Json → Option (Option α)
  | .null => some none
  | value => (read value).map some

/-- `Vec<T>`. -/
def list {α : Type} (read : Json → Option α) : Json → Option (List α)
  | .array items => items.mapM read
  | _ => none

structure Codec (α : Type) where
  write : α → Json
  read : Json → Option α
  read_write : ∀ a, read (write a) = some a

variable {α : Type}

theorem list_map {read : Json → Option α} {write : α → Json} (h : ∀ a, read (write a) = some a)
    (as : List α) : list read (.array (as.map write)) = some as := by
  show (as.map write).mapM read = some as
  induction as with
  | nil => rfl
  | cons a as ih =>
    rw [List.map_cons, List.mapM_cons, h a, ih]
    rfl

theorem u32_number (n : UInt32) : u32 (.number n.toNat) = some n := by
  have hlt : (n.toNat : ℤ) < 2 ^ 32 := by exact_mod_cast n.toNat_lt
  rw [u32, if_pos ⟨Rat.den_natCast n.toNat, by simp, by simpa using hlt⟩]
  simp

end Qbutt.Serde
