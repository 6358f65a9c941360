import TableStore.Value.Basic

/-!
Equality of values: two values are equal exactly when they have the same key, and numbers that
are the same real number share a key whichever kind they are stored as.
-/

namespace TableStore

/-- What a value is compared by: all NaNs are one, and a whole number is an integer if it fits. -/
inductive Key where
  | nan
  | integer (number : Int64)
  | float (number : Binary64)
  | text (bytes : Bytes)
deriving DecidableEq

namespace Key

/-- A key as a list of numbers, its kind first. -/
def code : Key → List Nat
  | .nan => [0]
  | .integer number => [1, (number.toInt - Int64.minValue.toInt).toNat]
  | .float number => [2, number.bits.toNat]
  | .text bytes => 3 :: bytes.map UInt8.toNat

/-- Different keys have different codes. -/
theorem code_injective {left right : Key} (same : left.code = right.code) : left = right := by
  -- The kinds are told apart by the first number of the code.
  cases left <;> cases right <;> simp [code] at same <;> try rfl
  case integer.integer left right =>
    have leftRange := left.le_toInt
    have rightRange := right.le_toInt
    congr 1
    exact Int64.toInt_inj.1 (by omega)
  case float.float left right =>
    cases left
    cases right
    simpa [UInt64.toNat_inj] using same
  case text.text left right =>
    congr 1
    exact (List.map_inj_right fun _ _ => UInt8.toNat_inj.1).1 same

/-- Keys are ordered by kind, and within a kind by number or by bytes. -/
instance : Ord Key := ⟨compareOn code⟩

instance : Std.TransOrd Key := inferInstanceAs (Std.TransCmp (compareOn code))

instance : Std.LawfulEqOrd Key where
  eq_of_compare {left right} same :=
    have codes : compare left.code right.code = .eq := same
    code_injective (Std.LawfulEqCmp.compare_eq_iff_eq.1 codes)

end Key

/-- What a platform hashes integers, numbers and texts to. -/
structure Hashes where
  integer : Int64 → UInt64
  float : Binary64 → UInt64
  text : Bytes → UInt64

namespace Value

/-- The key that a value is compared by. -/
def key : Value → Key
  | .integer number => .integer number
  | .float number =>
    -- A NaN has no number, and is compared as one of its kind.
    if number.isNaN then .nan
    -- A float that is a 64-bit integer shares its key with the integer.
    else match number.toInt64? with
      | some whole => .integer whole
      | none => .float number
  | .text bytes => .text bytes

/-- Values are equal when their keys are. -/
instance : BEq Value := ⟨fun left right => left.key == right.key⟩

/-- Equality of values is equality of their keys. -/
theorem beq_iff {left right : Value} : (left == right) = true ↔ left.key = right.key := by
  -- The comparison of values is defined as that of their keys.
  show (left.key == right.key) = true ↔ _
  exact beq_iff_eq

instance : EquivBEq Value where
  rfl := beq_iff.2 rfl
  symm same := beq_iff.2 (beq_iff.1 same).symm
  trans first second := beq_iff.2 ((beq_iff.1 first).trans (beq_iff.1 second))

/-- The hash that all NaNs share. -/
def nanHash : UInt64 := 0x7FF8000000000000

/-- The hash of a value: a number that is a whole one is hashed as the integer that it equals. -/
def hashBy (hashes : Hashes) : Value → UInt64
  | .integer number => hashes.integer number
  | .float number =>
    -- The cases are those of the key, so that equal values are hashed alike.
    if number.isNaN then nanHash
    else match number.toInt64? with
      | some whole => hashes.integer whole
      | none => hashes.float number
  | .text bytes => hashes.text bytes

/-- Values are hashed by the hashes that their kinds have on this platform. -/
instance : Hashable Value := ⟨hashBy ⟨hash, fun number => hash number.bits, hash⟩⟩

/-- Equal values have equal hashes: a hash is a function of the key. -/
theorem hashBy_eq_of_beq (hashes : Hashes) {left right : Value} (same : (left == right) = true) :
    left.hashBy hashes = right.hashBy hashes := by
  -- Each kind of key is hashed in one way, whichever kind of value the key belongs to.
  have hashed (value : Value) : value.hashBy hashes = match value.key with
      | .nan => nanHash
      | .integer number => hashes.integer number
      | .float number => hashes.float number
      | .text bytes => hashes.text bytes := by
    cases value with
    | integer number => rfl
    | text bytes => rfl
    | float number =>
      simp only [hashBy, key]
      split
      · rfl
      · cases number.toInt64? <;> rfl
  rw [hashed, hashed, beq_iff.1 same]

instance : LawfulHashable Value where
  hash_eq _ _ same := hashBy_eq_of_beq _ same

end Value

end TableStore
