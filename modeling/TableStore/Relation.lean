import TableStore.Statement.Basic
import TableStore.Value.Key

/-! Rows under named columns, as tables hold them and as queries answer with them. -/

namespace TableStore

/-- One value for each column. -/
abbrev Row := List Value

/-- The value of a row in a column. -/
def Row.valueAt (row : Row) (position : Nat) : Value := row.getD position default

/-- Rows under the names of their columns, in order. -/
structure Relation where
  columns : List Bytes
  rows : List Row
deriving DecidableEq

/--
Whether a row under named columns has the value of a condition; none has if the column is unknown.
-/
def Condition.holdsFor (condition : Condition) (columns : List Bytes) (row : Row) : Bool :=
  (columns.idxOf? condition.column).any fun position => row.valueAt position == condition.value

namespace Relation

/-- The position of the first column of a name. -/
def position? (relation : Relation) (column : Bytes) : Option Nat := relation.columns.idxOf? column

/-- The rows that meet a condition, or all of them without one. -/
def restrict (relation : Relation) (condition : Option Condition) : Relation :=
  match condition with
  | none => relation
  | some condition =>
    match relation.position? condition.column with
    | none => { relation with rows := [] }
    | some position =>
      -- The key of the condition is found once and not for every row.
      let key := condition.value.key
      { relation with rows := relation.rows.filter fun row => (row.valueAt position).key == key }

/-- The rows that are left are those that the condition holds for. -/
theorem restrict_some (relation : Relation) (condition : Condition) :
    relation.restrict (some condition) =
      { relation with rows := relation.rows.filter (condition.holdsFor relation.columns) } := by
  cases found : relation.columns.idxOf? condition.column with
  | none =>
    have never : condition.holdsFor relation.columns = fun _ => false := by
      funext row
      simp [Condition.holdsFor, found]
    simp [restrict, position?, found, never]
  | some position =>
    -- Equality of values is equality of their keys.
    have byKey : condition.holdsFor relation.columns =
        fun row => (row.valueAt position).key == condition.value.key := by
      funext row
      simp only [Condition.holdsFor, found, Option.any_some]
      rfl
    simp only [restrict, position?, found, byKey]

/-- The columns that are asked for, or the first one that there is not. -/
def project (relation : Relation) : Projection → Except Bytes Relation
  | .every => .ok relation
  | .named columns => do
    -- The columns are looked up from left to right, and the first that is missing is told.
    let positions ← columns.mapM fun column =>
      (relation.position? column).elim (.error column) .ok
    return { columns, rows := relation.rows.map fun row => positions.map row.valueAt }

end Relation

end TableStore
