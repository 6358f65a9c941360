import Mathlib.Data.List.Induction
import Mathlib.Data.List.Nodup
import TableStore.Table.KeyIndex

/-! Exact indexes: every row is found by its own value, and nothing else is in the index. -/

namespace TableStore

namespace KeyIndex

/-- The keys that rows have in the column of an index, in the order of the rows. -/
def keysOf (index : KeyIndex) (rows : List Row) : List Key :=
  rows.map fun row => (index.valueOf row).key

/-- An index that answers for rows without equal values as a search through them would. -/
structure Exact (index : KeyIndex) (rows : List Row) : Prop where
  distinct : (index.keysOf rows).Nodup
  found : ∀ key, index.entries[key]? = (index.keysOf rows).idxOf? key
  size : index.entries.size = rows.length

/-- There are as many keys as rows. -/
@[simp] theorem length_keysOf (index : KeyIndex) (rows : List Row) :
    (index.keysOf rows).length = rows.length := by
  -- Each row has one key.
  simp [keysOf]

/-- The key of a row added at the end comes last. -/
theorem keysOf_concat (index : KeyIndex) (rows : List Row) (row : Row) :
    index.keysOf (rows ++ [row]) = index.keysOf rows ++ [(index.valueOf row).key] := by
  -- The keys of two lists in a row are those of the one behind those of the other.
  simp [keysOf]

/-- A value that some row holds is one of the keys. -/
theorem mem_keysOf {index : KeyIndex} {rows : List Row} {value : Value} :
    value.key ∈ index.keysOf rows ↔ ∃ row ∈ rows, (index.valueOf row == value) = true := by
  -- Values have one key exactly if they are equal.
  simp only [keysOf, List.mem_map, Value.beq_iff]

/-- The keys depend on the position of the column alone. -/
theorem keysOf_congr {index other : KeyIndex} (same : index.position = other.position)
    (rows : List Row) : index.keysOf rows = other.keysOf rows := by
  -- A key is read from the row at that position.
  simp [keysOf, valueOf, same]

/-- The index of no rows is exact. -/
theorem exact_empty (column : Bytes) (position : Nat) : (empty column position).Exact [] where
  distinct := List.nodup_nil
  found key := by simp [empty, keysOf]
  size := by simp [empty]

/-- One more row keeps an index exact if no earlier row has its value. -/
theorem Exact.insert {index : KeyIndex} {rows : List Row} {row : Row} (exact : index.Exact rows)
    (fresh : (index.valueOf row).key ∉ index.keysOf rows) :
    (index.insert row rows.length).Exact (rows ++ [row]) where
  distinct := by
    show (index.keysOf (rows ++ [row])).Nodup
    -- The key is none of those that the rows had before.
    rw [keysOf_concat, ← List.concat_eq_append]
    exact exact.distinct.concat fresh
  found key := by
    show (index.entries.insert (index.valueOf row).key rows.length)[key]? =
      (index.keysOf (rows ++ [row])).idxOf? key
    rw [keysOf_concat, Std.ExtTreeMap.getElem?_insert, exact.found]
    -- The new key is found at the end, and every other key where it was.
    by_cases same : (index.valueOf row).key = key
    · subst same
      have absent := List.idxOf?_eq_none_iff.2 fresh
      simp only [List.idxOf?] at absent ⊢
      simp [List.findIdx?_append, absent]
    · simp [List.idxOf?, List.findIdx?_append, same]
  size := by
    show (index.entries.insert (index.valueOf row).key rows.length).size = (rows ++ [row]).length
    -- The entry is a new one, and does not overwrite another.
    have absent : index.entries.contains (index.valueOf row).key = false := by
      rw [Std.ExtTreeMap.contains_eq_isSome_getElem?, exact.found, List.idxOf?_eq_none_iff.2 fresh]
      rfl
    simp [Std.ExtTreeMap.size_insert, absent, exact.size]

/-- An index is exact for all rows that have the same keys in the same order. -/
theorem Exact.congr {index : KeyIndex} {rows other : List Row} (exact : index.Exact rows)
    (same : index.keysOf other = index.keysOf rows) : index.Exact other where
  -- Each condition speaks of the rows through their keys.
  distinct := same ▸ exact.distinct
  found key := by rw [exact.found, same]
  size := by rw [exact.size, ← length_keysOf index rows, ← same, length_keysOf]

/-- Two exact indexes on one column are the same for the same rows. -/
theorem Exact.ext {index other : KeyIndex} {rows : List Row} (exact : index.Exact rows)
    (otherExact : other.Exact rows) (sameColumn : index.column = other.column)
    (samePosition : index.position = other.position) : index = other := by
  -- Both tell the first position of each key, so that they hold the same entries.
  have sameEntries : index.entries = other.entries := by
    refine Std.ExtTreeMap.ext_getElem? fun key => ?_
    rw [exact.found, otherExact.found, keysOf_congr samePosition]
  cases index
  cases other
  congr

/-- Rebuilding inserts the rows one after another. -/
theorem rebuild_concat (index : KeyIndex) (rows : List Row) (row : Row) :
    index.rebuild (rows ++ [row]) = (index.rebuild rows).insert row rows.length := by
  -- The last row is inserted last, under its own position.
  simp [rebuild, List.zipIdx_append]

/-- Rebuilding keeps the column and its position. -/
theorem rebuild_declared (index : KeyIndex) (rows : List Row) :
    (index.rebuild rows).column = index.column ∧
      (index.rebuild rows).position = index.position := by
  -- Taking the last row off, the insertion changes the entries alone.
  induction rows using List.reverseRecOn with
  | nil => exact ⟨rfl, rfl⟩
  | append_singleton rows row ih => rwa [rebuild_concat]

/-- Rebuilding forgets what the index held. -/
@[simp] theorem rebuild_rebuild (index : KeyIndex) (first second : List Row) :
    (index.rebuild first).rebuild second = index.rebuild second := by
  -- Rebuilding starts from no entries, and the column is still the same one.
  obtain ⟨sameColumn, samePosition⟩ := rebuild_declared index first
  rw [rebuild, sameColumn, samePosition]
  rfl

/-- A rebuilt index is exact for rows without equal values. -/
theorem exact_rebuild {index : KeyIndex} {rows : List Row}
    (distinct : (index.keysOf rows).Nodup) : (index.rebuild rows).Exact rows := by
  -- The rows are inserted one after another, and each has a value that no row before it has.
  induction rows using List.reverseRecOn with
  | nil => exact exact_empty index.column index.position
  | append_singleton rows row ih =>
    have samePosition := (rebuild_declared index rows).2
    rw [keysOf_concat] at distinct
    rw [rebuild_concat]
    refine (ih distinct.of_append_left).insert ?_
    -- What is left is that the last row is fresh in the index of the others.
    rw [keysOf_congr samePosition]
    intro repeated
    have disjoint := List.disjoint_of_nodup_append distinct
    exact disjoint repeated (by simp [valueOf, samePosition])

/-- An exact index finds a value where its key first occurs among those of the rows. -/
theorem Exact.lookup_eq {index : KeyIndex} {rows : List Row} (exact : index.Exact rows)
    (value : Value) : index.lookup value = (index.keysOf rows).idxOf? value.key :=
  -- A look-up reads the entry of the key, and nothing else of the value.
  exact.found value.key

/-- Values that are equal are looked up alike, since they share their key. -/
theorem lookup_congr {first second : Value} (index : KeyIndex) (same : (first == second) = true) :
    index.lookup first = index.lookup second := by
  -- The lookup goes by the key of the value.
  rw [lookup, lookup, Value.beq_iff.1 same]

/-- An exact index finds every row at its own position. -/
theorem Exact.lookup_getElem {index : KeyIndex} {rows : List Row} (exact : index.Exact rows)
    {position : Nat} (within : position < rows.length) :
    index.lookup (index.valueOf rows[position]) = some position := by
  rw [exact.lookup_eq, List.idxOf?_eq_some_iff]
  refine ⟨by simpa using within, by simp [keysOf], ?_⟩
  -- An earlier row with the same key would be a repetition.
  intro earlier before
  have apart := List.pairwise_iff_getElem.1 exact.distinct earlier position
    (by simp; omega) (by simpa using within) before
  simpa [keysOf] using apart

/-- An exact index stores the positions of rows only. -/
theorem Exact.lt_of_found {index : KeyIndex} {rows : List Row} (exact : index.Exact rows)
    {key : Key} {position : Nat} (stored : index.entries[key]? = some position) :
    position < rows.length := by
  -- The position is that of a key among the keys, of which there is one for each row.
  rw [exact.found, List.idxOf?_eq_some_iff] at stored
  obtain ⟨within, -⟩ := stored
  simpa using within

/-- Rows that an exact index covers have equal values only at the same position. -/
theorem Exact.position_unique {index : KeyIndex} {rows : List Row} (exact : index.Exact rows)
    {first second : Nat} (firstWithin : first < rows.length) (secondWithin : second < rows.length)
    (same : (index.valueOf rows[first] == index.valueOf rows[second]) = true) :
    first = second := by
  -- Equal values share their key, so both look-ups are the same one.
  have firstFound := exact.lookup_getElem firstWithin
  have secondFound := exact.lookup_getElem secondWithin
  rw [index.lookup_congr same] at firstFound
  exact Option.some.inj (firstFound.symm.trans secondFound)

/-- An exact index finds a value exactly where a row holds it. -/
theorem Exact.lookup_eq_some_iff {index : KeyIndex} {rows : List Row} (exact : index.Exact rows)
    {value : Value} {position : Nat} :
    index.lookup value = some position ↔
      ∃ row, rows[position]? = some row ∧ (index.valueOf row == value) = true := by
  constructor
  · -- The index stores the position of a row with that key.
    intro found
    have within := exact.lt_of_found found
    rw [exact.lookup_eq, List.idxOf?_eq_some_iff] at found
    obtain ⟨_, same, -⟩ := found
    exact ⟨rows[position], List.getElem?_eq_getElem within,
      Value.beq_iff.2 (by simpa [keysOf] using same)⟩
  · -- A row is found by its own value, and so by every value with the same key.
    intro held
    rcases held with ⟨row, present, same⟩
    obtain ⟨within, rfl⟩ := List.getElem?_eq_some_iff.1 present
    have found := exact.lookup_getElem within
    rwa [index.lookup_congr same] at found

/-- An exact index holds a value exactly if a search through the rows finds it. -/
theorem Exact.lookup_isSome {index : KeyIndex} {rows : List Row} (exact : index.Exact rows)
    (value : Value) :
    (index.lookup value).isSome = rows.any fun row => index.valueOf row == value := by
  -- The value occurs among the keys exactly if some row holds an equal one.
  rw [Bool.eq_iff_iff, exact.lookup_eq, List.isSome_idxOf?, mem_keysOf, List.any_eq_true]

/-- The row that an exact index finds is the only one that a search through the rows finds. -/
theorem Exact.toList_lookup {index : KeyIndex} {rows : List Row} (exact : index.Exact rows)
    (value : Value) :
    ((index.lookup value).bind (rows[·]?)).toList = rows.filter (index.valueOf · == value) := by
  rw [exact.lookup_eq]
  have distinct := exact.distinct
  clear exact
  -- Of the index only the keys count from here on, and they go along with the rows.
  induction rows with
  | nil => rfl
  | cons row rows ih =>
    simp only [keysOf, List.map_cons, List.nodup_cons] at distinct
    obtain ⟨unrepeated, distinct⟩ := distinct
    rw [keysOf, List.map_cons, List.idxOf?_cons]
    by_cases same : (index.valueOf row == value) = true
    · -- No later row has the value as well.
      have noOther : rows.filter (index.valueOf · == value) = [] := by
        refine List.filter_eq_nil_iff.2 fun other among otherSame => unrepeated ?_
        rw [Value.beq_iff.1 same]
        exact mem_keysOf.2 ⟨other, among, otherSame⟩
      rw [List.filter_cons, if_pos same, noOther, if_pos (beq_iff_eq.2 (Value.beq_iff.1 same))]
      rfl
    · -- The first row is passed over by the index and by the search alike.
      have different : ¬((index.valueOf row).key == value.key) = true := same
      rw [List.filter_cons, if_neg same, if_neg different, Option.bind_map, ← ih distinct]
      rfl

/--
An index as a reader of the rows sees it: one entry for each row, which every row is found by, and
so no value in two rows.
-/
structure Mirrors (index : KeyIndex) (rows : Array Row) : Prop where
  size : index.entries.size = rows.size
  own : ∀ position (within : position < rows.size),
    index.lookup (index.valueOf rows[position]) = some position
  inside : ∀ (key : Key) (position : Nat), index.entries[key]? = some position →
    position < rows.size
  unrepeated : ∀ first second (firstWithin : first < rows.size) (secondWithin : second < rows.size),
    (index.valueOf rows[first] == index.valueOf rows[second]) = true → first = second

/-- An exact index mirrors the rows. -/
theorem Exact.mirrors {index : KeyIndex} {rows : Array Row} (exact : index.Exact rows.toList) :
    index.Mirrors rows where
  -- Each part is what an exact index finds, read for the positions of an array.
  size := exact.size
  own _ within := exact.lookup_getElem within
  inside _ _ stored := exact.lt_of_found stored
  unrepeated _ _ firstWithin secondWithin same :=
    exact.position_unique firstWithin secondWithin same

end KeyIndex

end TableStore
