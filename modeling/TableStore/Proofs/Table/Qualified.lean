import TableStore.Database.Join
import TableStore.Proofs.Result

/-!
Qualified names: a table, a period and a column. Main statement: the names of two tables are never
confused, so that the position of a name in a joined row is that of the column which it denotes.
-/

namespace TableStore

namespace Table

/-- A column under the name of its table. -/
def qualify (table : Table) (column : Bytes) : Bytes := table.name ++ period :: column

/-- The value of a row in a column. -/
def cell? (table : Table) (row : Row) (column : Bytes) : Option Value :=
  (table.columnIndex? column).bind (row[·]?)

/-- The qualified names of the columns of two tables. -/
inductive Names (left right : Table) : Bytes → Prop
  | left {column : Bytes} (present : column ∈ left.columnNames) :
      Names left right (left.qualify column)
  | right {column : Bytes} (present : column ∈ right.columnNames) :
      Names left right (right.qualify column)

/-- The value that a qualified name denotes, given a row of each table. -/
inductive Denotes (left right : Table) (leftRow rightRow : Row) : Bytes → Value → Prop
  | left {column : Bytes} {value : Value} (cell : left.cell? leftRow column = some value) :
      Denotes left right leftRow rightRow (left.qualify column) value
  | right {column : Bytes} {value : Value} (cell : right.cell? rightRow column = some value) :
      Denotes left right leftRow rightRow (right.qualify column) value

/-- Two tables whose qualified names can be told apart. -/
structure Apart (left right : Table) : Prop where
  leftPlain : period ∉ left.name
  rightPlain : period ∉ right.name
  different : left.name ≠ right.name

variable {left right : Table} {leftRow rightRow : Row}

/-- A name without periods ends at the first period of a qualified name. -/
theorem qualify_inj {table other : Table} (plain : period ∉ table.name)
    (otherPlain : period ∉ other.name) {column otherColumn : Bytes}
    (same : table.qualify column = other.qualify otherColumn) :
    table.name = other.name ∧ column = otherColumn := by
  -- Both readings cut the same text at its first period.
  have cut : splitAtFirst? period (table.qualify column) = some (table.name, column) :=
    splitAtFirst?_eq_some_iff.2 ⟨rfl, plain⟩
  have otherCut : splitAtFirst? period (table.qualify column) = some (other.name, otherColumn) :=
    splitAtFirst?_eq_some_iff.2 ⟨same, otherPlain⟩
  exact Prod.mk.inj (Option.some.inj (cut.symm.trans otherCut))

/-- The qualified names are the names of the columns, each behind the name of the table. -/
theorem qualifiedNames_eq (table : Table) :
    table.qualifiedNames = table.columnNames.map table.qualify := rfl

/-- There is one qualified name for each column. -/
theorem length_qualifiedNames (table : Table) :
    table.qualifiedNames.length = table.columns.length := by
  -- Qualifying goes from name to name and drops none.
  simp [qualifiedNames, columnNames]

/-- A table has its qualified names in the order of its columns. -/
theorem idxOf?_qualifiedNames (table : Table) (column : Bytes) :
    table.qualifiedNames.idxOf? (table.qualify column) = table.columnIndex? column := by
  -- Two columns of one table have the same qualified name only if they have the same name.
  have sameTest : ((· == table.qualify column) ∘ table.qualify) = (· == column) := by
    funext other
    rw [Bool.eq_iff_iff]
    simp [qualify]
  rw [qualifiedNames_eq, List.idxOf?, List.findIdx?_map, sameTest]
  rfl

/-- A name of one table is not among the names of the other. -/
theorem Apart.qualify_notMem (apart : Apart left right) (column : Bytes) :
    right.qualify column ∉ left.qualifiedNames := by
  -- A common name would have the same part in front of its period, which is the table's name.
  rw [qualifiedNames_eq, List.mem_map]
  intro member
  rcases member with ⟨other, -, same⟩
  exact apart.different (qualify_inj apart.leftPlain apart.rightPlain same).1

/-- Tables are apart in either order. -/
theorem Apart.symm (apart : Apart left right) : Apart right left :=
  -- The condition is symmetric but for the order of its parts.
  ⟨apart.rightPlain, apart.leftPlain, apart.different.symm⟩

/-- A name of the left table is found at the position of its column. -/
theorem Apart.idxOf?_left (apart : Apart left right) (column : Bytes) :
    (left.qualifiedNames ++ right.qualifiedNames).idxOf? (left.qualify column) =
      left.columnIndex? column := by
  -- The search ends among the names of the left table, and never finds one of the right.
  have absent := List.idxOf?_eq_none_iff.2 (apart.symm.qualify_notMem column)
  have present := left.idxOf?_qualifiedNames column
  rw [List.idxOf?] at absent present ⊢
  rw [List.findIdx?_append, absent, present, Option.map_none, Option.or_none]

/-- A name of the right table is found behind the columns of the left one. -/
theorem Apart.idxOf?_right (apart : Apart left right) (column : Bytes) :
    (left.qualifiedNames ++ right.qualifiedNames).idxOf? (right.qualify column) =
      (right.columnIndex? column).map (· + left.columns.length) := by
  -- The names of the left table are passed over.
  have absent := List.idxOf?_eq_none_iff.2 (apart.qualify_notMem column)
  have present := right.idxOf?_qualifiedNames column
  rw [List.idxOf?] at absent present ⊢
  rw [List.findIdx?_append, absent, present, Option.none_or, length_qualifiedNames]

/-- A column is among the names exactly if it has a position. -/
theorem mem_columnNames_iff {table : Table} {column : Bytes} :
    column ∈ table.columnNames ↔ (table.columnIndex? column).isSome = true := by
  -- The position is that of the name in the list.
  rw [columnIndex?, List.isSome_idxOf?]

/-- The names of two tables are those that a join knows. -/
theorem names_iff {name : Bytes} :
    Names left right name ↔ name ∈ left.qualifiedNames ++ right.qualifiedNames := by
  -- Both sides list the qualified columns of one table and then of the other.
  rw [List.mem_append, qualifiedNames_eq, qualifiedNames_eq, List.mem_map, List.mem_map]
  constructor
  · intro named
    rcases named with ⟨present⟩ | ⟨present⟩
    · exact .inl ⟨_, present, rfl⟩
    · exact .inr ⟨_, present, rfl⟩
  · intro listed
    rcases listed with ⟨column, present, rfl⟩ | ⟨column, present, rfl⟩
    · exact .left present
    · exact .right present

/-- A row that is wide enough has a value in every column. -/
theorem cell?_eq {table : Table} {row : Row} (wide : row.length = table.columns.length)
    (column : Bytes) : table.cell? row column = (table.columnIndex? column).map row.valueAt := by
  rw [cell?]
  cases found : table.columnIndex? column with
  | none => rfl
  | some position =>
    -- The position lies within the row, so that no default value is read.
    obtain ⟨within, -⟩ := List.idxOf?_eq_some_iff.1 found
    have inside : position < row.length := by simpa [columnNames, wide] using within
    rw [Option.bind_some, Option.map_some, List.getElem?_eq_getElem inside, Row.valueAt,
      List.getD_eq_getElem?_getD, List.getElem?_eq_getElem inside, Option.getD_some]

/-- A joined row has, at the position of a name, the value that the name denotes. -/
theorem Apart.denotes_iff (apart : Apart left right)
    (leftWide : leftRow.length = left.columns.length)
    (rightWide : rightRow.length = right.columns.length) {name : Bytes} {value : Value} :
    Denotes left right leftRow rightRow name value ↔
      ((left.qualifiedNames ++ right.qualifiedNames).idxOf? name).map
        (leftRow ++ rightRow).valueAt = some value := by
  -- Columns of the left table come first in the row, as they do among the names.
  have atLeft : ∀ column, (left.columnIndex? column).map (leftRow ++ rightRow).valueAt =
      left.cell? leftRow column := by
    intro column
    rw [cell?_eq leftWide]
    refine Option.map_congr fun position found => ?_
    obtain ⟨within, -⟩ := List.idxOf?_eq_some_iff.1 found
    have inside : position < leftRow.length := by simpa [columnNames, leftWide] using within
    simp [Row.valueAt, List.getElem?_append_left inside]
  have atRight : ∀ column, ((right.columnIndex? column).map (· + left.columns.length)).map
      (leftRow ++ rightRow).valueAt = right.cell? rightRow column := by
    intro column
    rw [cell?_eq rightWide, Option.map_map]
    refine Option.map_congr fun position _ => ?_
    have behind : (leftRow ++ rightRow)[position + leftRow.length]? = rightRow[position]? := by
      rw [List.getElem?_append_right (Nat.le_add_left ..), Nat.add_sub_cancel]
    simp [Row.valueAt, ← leftWide, behind]
  constructor
  · intro denotes
    rcases denotes with ⟨cell⟩ | ⟨cell⟩
    · rw [apart.idxOf?_left, atLeft, cell]
    · rw [apart.idxOf?_right, atRight, cell]
  · -- A name that is found belongs to one of the tables.
    intro denoted
    obtain ⟨position, found, -⟩ := Option.map_eq_some_iff.1 denoted
    obtain ⟨within, named, -⟩ := List.idxOf?_eq_some_iff.1 found
    have member : name ∈ left.qualifiedNames ++ right.qualifiedNames :=
      named ▸ List.getElem_mem within
    cases names_iff.2 member with
    | @left column present =>
      rw [apart.idxOf?_left, atLeft] at denoted
      exact .left denoted
    | @right column present =>
      rw [apart.idxOf?_right, atRight] at denoted
      exact .right denoted

/-- A name denotes at most one value in two rows. -/
theorem Apart.denotes_unique (apart : Apart left right)
    (leftWide : leftRow.length = left.columns.length)
    (rightWide : rightRow.length = right.columns.length) {name : Bytes} {first second : Value}
    (denotesFirst : Denotes left right leftRow rightRow name first)
    (denotesSecond : Denotes left right leftRow rightRow name second) : first = second := by
  -- The name is looked up in the pair of rows, and a look-up has one result.
  rw [apart.denotes_iff leftWide rightWide] at denotesFirst denotesSecond
  exact Option.some.inj (denotesFirst.symm.trans denotesSecond)

/-- A name of the left table denotes what the left row has in the column. -/
theorem Apart.cell?_left (apart : Apart left right) {column : Bytes} {value : Value}
    (denotes : Denotes left right leftRow rightRow (left.qualify column) value) :
    left.cell? leftRow column = some value := by
  -- The name is made a variable, so that it can come from either table.
  generalize named : left.qualify column = name at denotes
  cases denotes with
  -- Both names are of the left table, whose columns differ if the names do.
  | left cell =>
    obtain rfl := (qualify_inj apart.leftPlain apart.leftPlain named).2
    exact cell
  -- A name of the right table begins with another table's name.
  | right cell =>
    exact absurd (qualify_inj apart.leftPlain apart.rightPlain named).1 apart.different

/-- It does not matter which of the tables comes first. -/
theorem Denotes.symm {name : Bytes} {value : Value}
    (denotes : Denotes left right leftRow rightRow name value) :
    Denotes right left rightRow leftRow name value := by
  -- A cell of the one side becomes a cell of the other.
  cases denotes with
  | left cell => exact .right cell
  | right cell => exact .left cell

/-- All columns of a row have the values that the row lists. -/
theorem forall₂_cell? {table : Table} {row : Row} (unrepeated : table.columnNames.Nodup)
    (wide : row.length = table.columns.length) :
    List.Forall₂ (fun column value => table.cell? row column = some value)
      table.columnNames row := by
  rw [List.forall₂_iff_get]
  refine ⟨by simp [columnNames, wide], fun position within inside => ?_⟩
  have located : table.columnIndex? (table.columnNames.get ⟨position, within⟩) = some position := by
    rw [columnIndex?, List.idxOf?_eq_some_iff]
    refine ⟨within, rfl, fun earlier before same => ?_⟩
    -- An earlier column of the same name would be a repetition.
    have apart := List.pairwise_iff_getElem.1 unrepeated earlier position (by omega) within before
    exact apart (by simpa using same)
  rw [cell?, located, Option.bind_some]
  exact List.getElem?_eq_getElem inside

/-- All names of two tables denote the values that the two rows list. -/
theorem forall₂_denotes (leftUnrepeated : left.columnNames.Nodup)
    (rightUnrepeated : right.columnNames.Nodup)
    (leftWide : leftRow.length = left.columns.length)
    (rightWide : rightRow.length = right.columns.length) :
    List.Forall₂ (Denotes left right leftRow rightRow)
      (left.qualifiedNames ++ right.qualifiedNames) (leftRow ++ rightRow) := by
  -- The names of each table go with the row of that table.
  refine List.rel_append ?_ ?_
  · rw [qualifiedNames_eq, List.forall₂_map_left_iff]
    exact (forall₂_cell? leftUnrepeated leftWide).imp fun column value cell => .left cell
  · rw [qualifiedNames_eq, List.forall₂_map_left_iff]
    exact (forall₂_cell? rightUnrepeated rightWide).imp fun column value cell => .right cell

/-- Names that are all found denote the values at their positions. -/
theorem Apart.forall₂_denotes_named (apart : Apart left right)
    (leftWide : leftRow.length = left.columns.length)
    (rightWide : rightRow.length = right.columns.length) {names : List Bytes}
    (exist : ∀ name ∈ names, Names left right name) :
    List.Forall₂ (Denotes left right leftRow rightRow) names
      ((names.filterMap (left.qualifiedNames ++ right.qualifiedNames).idxOf?).map
        (leftRow ++ rightRow).valueAt) := by
  induction names with
  | nil => exact .nil
  | cons name names ih =>
    -- The first name is found, and the position gives the value that it denotes.
    have member := names_iff.1 (exist name List.mem_cons_self)
    obtain ⟨position, found⟩ := Option.isSome_iff_exists.1 (List.isSome_idxOf?.2 member)
    simp only [List.filterMap_cons, found, List.map_cons]
    refine .cons ?_ (ih fun other among => exist other (List.mem_cons_of_mem name among))
    rw [apart.denotes_iff leftWide rightWide, found, Option.map_some]

/-- Whether a condition names a column of the table and the row has an equal value there. -/
def holdsIn (table : Table) (condition : Condition) (row : Row) : Bool :=
  -- A condition on an unqualified name holds in no row.
  table.columnNames.any fun column =>
    table.qualify column == condition.column &&
      (table.cell? row column).any (· == condition.value)

/--
A row meets a condition on a qualified name if it has an equal value in a column of that name.
-/
theorem holdsIn_iff {table : Table} {condition : Condition} {row : Row} :
    table.holdsIn condition row = true ↔
      ∃ column value, table.qualify column = condition.column ∧
        table.cell? row column = some value ∧ (value == condition.value) = true := by
  -- The check goes through the names of the columns and compares the value of each.
  simp only [holdsIn, List.any_eq_true, Bool.and_eq_true, beq_iff_eq, Option.any_eq_true]
  constructor
  · intro held
    rcases held with ⟨column, -, named, value, cell, same⟩
    exact ⟨column, value, named, cell, same⟩
  · intro held
    rcases held with ⟨column, value, named, cell, same⟩
    -- A column without a position has no value.
    obtain ⟨position, found, -⟩ := Option.bind_eq_some_iff.1 cell
    have present := mem_columnNames_iff.2 (Option.isSome_of_eq_some found)
    exact ⟨column, present, named, value, cell, same⟩

/-- A condition holds for a joined row if it holds in either of the rows that it is made of. -/
theorem Apart.holdsFor_eq (apart : Apart left right)
    (leftWide : leftRow.length = left.columns.length)
    (rightWide : rightRow.length = right.columns.length) (condition : Condition) :
    condition.holdsFor (left.qualifiedNames ++ right.qualifiedNames) (leftRow ++ rightRow) =
      (left.holdsIn condition leftRow || right.holdsIn condition rightRow) := by
  -- The condition holds if its name denotes an equal value.
  have denoted : condition.holdsFor (left.qualifiedNames ++ right.qualifiedNames)
        (leftRow ++ rightRow) = true ↔
      ∃ value, Denotes left right leftRow rightRow condition.column value ∧
        (value == condition.value) = true := by
    simp only [Condition.holdsFor, apart.denotes_iff leftWide rightWide, Option.any_eq_true,
      Option.map_eq_some_iff]
    grind
  rw [Bool.eq_iff_iff, denoted, Bool.or_eq_true, holdsIn_iff, holdsIn_iff]
  constructor
  · intro denoted
    rcases denoted with ⟨value, denotes, same⟩
    generalize condition.column = name at denotes ⊢
    cases denotes with
    | @left column value cell => exact .inl ⟨column, value, rfl, cell, same⟩
    | @right column value cell => exact .inr ⟨column, value, rfl, cell, same⟩
  · intro held
    rcases held with ⟨column, value, named, cell, same⟩ | ⟨column, value, named, cell, same⟩
    · exact ⟨value, named ▸ .left cell, same⟩
    · exact ⟨value, named ▸ .right cell, same⟩

end Table

end TableStore
