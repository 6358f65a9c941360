import Std.Data.ExtTreeMap
import TableStore.Relation

/-! Indexes from the values of a column to the rows that hold them. -/

namespace TableStore

/-- For each value of a column that may not repeat, the position of the row that holds it. -/
structure KeyIndex where
  column : Bytes
  position : Nat
  entries : Std.ExtTreeMap Key Nat

namespace KeyIndex

/-- The index of a column before there are rows. -/
def empty (column : Bytes) (position : Nat) : KeyIndex := { column, position, entries := ∅ }

/-- The value of a row that the index is about. -/
def valueOf (index : KeyIndex) (row : Row) : Value := row.valueAt index.position

/-- The position of the row that holds a value. -/
def lookup (index : KeyIndex) (value : Value) : Option Nat := index.entries[value.key]?

/-- The index with one more row, which takes the place of an earlier one of the same value. -/
def insert (index : KeyIndex) (row : Row) (rowPosition : Nat) : KeyIndex :=
  { index with entries := index.entries.insert (index.valueOf row).key rowPosition }

/-- The index of a list of rows by their positions. -/
def rebuild (index : KeyIndex) (rows : List Row) : KeyIndex :=
  rows.zipIdx.foldl (fun index (row, rowPosition) => index.insert row rowPosition)
    (empty index.column index.position)

end KeyIndex

end TableStore
