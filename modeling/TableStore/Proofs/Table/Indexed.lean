import TableStore.Database.History
import TableStore.Proofs.Table.Effect
import TableStore.Proofs.Table.Writes

/-! Indexed tables: every index is exact for the rows, and no command changes that. -/

namespace TableStore

namespace Table

/-- The indexes of a table, the primary key before the unique columns. -/
def indexes (table : Table) : List KeyIndex := table.primary :: table.uniques

/-- A table whose rows have its width and whose indexes are exact for them. -/
structure Indexed (table : Table) : Prop where
  placed : ∀ index ∈ table.indexes, table.columnIndex? index.column = some index.position
  exact : ∀ index ∈ table.indexes, index.Exact table.rows.toList
  width : ∀ row ∈ table.rows.toList, row.length = table.columns.length

/-- The primary key is indexed. -/
theorem primary_mem_indexes (table : Table) : table.primary ∈ table.indexes :=
  List.mem_cons_self

/-- Every unique column is indexed. -/
theorem mem_indexes_of_mem_uniques {table : Table} {index : KeyIndex}
    (unique : index ∈ table.uniques) : index ∈ table.indexes :=
  List.mem_cons_of_mem _ unique

/-- Two indexed tables are the same if they are declared alike and have the same rows. -/
theorem Indexed.ext {table other : Table} (indexed : table.Indexed) (otherIndexed : other.Indexed)
    (declared : table.schema = other.schema) (sameRows : table.rows = other.rows) :
    table = other := by
  have columns : table.columns = other.columns := congrArg Schema.columns declared
  -- An index is on the first column of its name, and has an entry for each row.
  have same : ∀ {index otherIndex : KeyIndex}, index ∈ table.indexes →
      otherIndex ∈ other.indexes → index.column = otherIndex.column → index = otherIndex := by
    intro index otherIndex member otherMember sameColumn
    have otherExact := otherIndexed.exact otherIndex otherMember
    rw [← sameRows] at otherExact
    refine (indexed.exact index member).ext otherExact sameColumn ?_
    have placed := indexed.placed index member
    rw [columnIndex?, columnNames, columns, sameColumn] at placed
    exact Option.some.inj (placed.symm.trans (otherIndexed.placed otherIndex otherMember))
  have primary : table.primary = other.primary :=
    same table.primary_mem_indexes other.primary_mem_indexes (congrArg Schema.primaryKey declared)
  have sameUniques : table.uniques.map (·.column) = other.uniques.map (·.column) :=
    congrArg Schema.uniqueColumns declared
  have uniques : table.uniques = other.uniques := by
    refine List.ext_getElem (by simpa using congrArg List.length sameUniques) ?_
    intro position within otherWithin
    refine same (mem_indexes_of_mem_uniques (List.getElem_mem within))
      (mem_indexes_of_mem_uniques (List.getElem_mem otherWithin)) ?_
    simpa [within, otherWithin] using congrArg (·[position]?) sameUniques
  have name : table.name = other.name := congrArg Schema.name declared
  cases table
  cases other
  congr

/-- A new table has an empty index on every column that may not repeat. -/
theorem create_indexed {schema : Schema} {table : Table}
    (created : Table.create schema = .ok table) : table.Indexed := by
  simp only [Table.create, bind_eq_ok_iff, elim_eq_ok_iff] at created
  obtain ⟨primary, primaryFound, uniques, uniquesFound, built⟩ := created
  obtain rfl := Except.ok.inj built
  -- Each index is the empty one of a column that was found.
  have every : ∀ index ∈ primary :: uniques, ∃ column, schema.index? column = some index := by
    intro index member
    rcases List.mem_cons.1 member with rfl | member
    · exact ⟨_, primaryFound⟩
    · obtain ⟨column, -, found⟩ := exists_of_mem_mapM uniquesFound member
      exact ⟨column, by simpa using found⟩
  refine ⟨fun index member => ?_, fun index member => ?_, by simp⟩
  all_goals
    obtain ⟨column, found⟩ := every index member
    obtain ⟨position, located, rfl⟩ := Option.map_eq_some_iff.1 found
  · exact located
  · exact KeyIndex.exact_empty column position

/-- One more row goes into every index. -/
theorem indexes_push (table : Table) (row : Row) :
    (table.push row).indexes = table.indexes.map (·.insert row table.rows.size) := rfl

/-- Other rows are indexed anew. -/
theorem indexes_withRows (table : Table) (rows : Array Row) :
    (table.withRows rows).indexes = table.indexes.map (·.rebuild rows.toList) := rfl

/-- A row that repeats nothing has a new key in every index. -/
theorem Indexed.fresh_of_duplicate? {table : Table} (indexed : table.Indexed) {row : Row}
    (fresh : table.duplicate? row = none) {index : KeyIndex} (member : index ∈ table.indexes) :
    (index.valueOf row).key ∉ index.keysOf table.rows.toList := by
  -- The check has passed over this index, whichever of them it is.
  have untaken : (index.lookup (index.valueOf row)).isSome = false := by
    simp only [duplicate?] at fresh
    split at fresh
    · simp at fresh
    · rename_i primaryUntaken
      rcases List.mem_cons.1 member with rfl | member
      · simpa using primaryUntaken
      · simpa using List.find?_eq_none.1 (Option.map_eq_none_iff.1 fresh) index member
  -- So no row has the value, since the index would find it.
  rw [KeyIndex.mem_keysOf]
  rw [(indexed.exact index member).lookup_isSome] at untaken
  intro repeated
  rcases repeated with ⟨other, among, same⟩
  exact Bool.eq_false_iff.1 untaken (List.any_eq_true.2 ⟨other, among, same⟩)

/-- A row that has been converted has the width of the table. -/
theorem length_of_convertRow {table : Table} {values : List Value} {row : Row}
    (converted : table.convertRow values = .ok row) : row.length = table.columns.length := by
  unfold convertRow at converted
  split at converted
  · simp at converted
  · -- There is one value for each pair of a column and a value.
    rename_i sameLength
    rw [length_of_mapM_eq_ok converted, List.length_zip]
    omega

/-- Inserting a row that repeats nothing keeps the indexes exact. -/
theorem Indexed.push {table : Table} (indexed : table.Indexed) {row : Row}
    (wide : row.length = table.columns.length) (fresh : table.duplicate? row = none) :
    (table.push row).Indexed where
  placed index member := by
    rw [indexes_push] at member
    obtain ⟨old, oldMember, rfl⟩ := List.mem_map.1 member
    exact indexed.placed old oldMember
  exact index member := by
    rw [indexes_push] at member
    obtain ⟨old, oldMember, rfl⟩ := List.mem_map.1 member
    show (old.insert row table.rows.size).Exact (table.rows.push row).toList
    rw [Array.toList_push, ← Array.length_toList]
    exact (indexed.exact old oldMember).insert (indexed.fresh_of_duplicate? fresh oldMember)
  width other member := by
    simp only [Table.push, Array.toList_push, List.mem_append, List.mem_singleton] at member
    -- A row is one of those from before or the new one.
    rcases member with member | rfl
    · exact indexed.width other member
    · exact wide

/-- Rows without repeated values and of the right width can be indexed anew. -/
theorem Indexed.withRows {table : Table} (indexed : table.Indexed) {rows : Array Row}
    (distinct : ∀ index ∈ table.indexes, (index.keysOf rows.toList).Nodup)
    (wide : ∀ row ∈ rows.toList, row.length = table.columns.length) :
    (table.withRows rows).Indexed where
  placed index member := by
    rw [indexes_withRows] at member
    obtain ⟨old, oldMember, rfl⟩ := List.mem_map.1 member
    -- Rebuilding an index does not move it to another column.
    obtain ⟨sameColumn, samePosition⟩ := old.rebuild_declared rows.toList
    rw [sameColumn, samePosition]
    exact indexed.placed old oldMember
  exact index member := by
    rw [indexes_withRows] at member
    obtain ⟨old, oldMember, rfl⟩ := List.mem_map.1 member
    exact KeyIndex.exact_rebuild (distinct old oldMember)
  width := wide

/-- The positions of the rows that meet a condition. -/
theorem mem_targets {table : Table} {condition : Condition} {position : Nat} :
    position ∈ table.targets condition ↔
      ∃ row, table.rows.toList[position]? = some row ∧ table.meets condition row = true := by
  -- A target is a position that is kept when the rows are filtered together with their positions.
  simp only [targets, List.mem_map, List.mem_filter, Prod.exists, exists_eq_right,
    List.mem_zipIdx_iff_getElem?]

/-- There are as many positions as rows that meet the condition. -/
theorem length_targets (table : Table) (condition : Condition) :
    (table.targets condition).length =
      (table.rows.toList.filter (table.meets condition)).length := by
  -- Both count the rows that match, with their positions or without.
  rw [targets, List.length_map, ← List.countP_eq_length_filter, ← List.countP_eq_length_filter]
  conv => rhs; rw [← List.zipIdx_map_fst 0 table.rows.toList, List.countP_map]
  rfl

/--
A value that is to be written to the only matching row is held elsewhere exactly if a row that
does not match holds it.
-/
theorem Indexed.elsewhere_iff {table : Table} (indexed : table.Indexed) {condition : Condition}
    {target : Nat} (only : table.targets condition = [target]) {index : KeyIndex}
    (member : index ∈ table.indexes) (value : Value) :
    (∃ position, index.lookup value = some position ∧ position ≠ target) ↔
      ∃ row ∈ table.rows.toList, table.meets condition row = false ∧
        (index.valueOf row == value) = true := by
  have exact := indexed.exact index member
  constructor
  · intro elsewhere
    rcases elsewhere with ⟨position, found, other⟩
    obtain ⟨row, present, same⟩ := exact.lookup_eq_some_iff.1 found
    refine ⟨row, List.mem_of_getElem? present, ?_, same⟩
    -- If the row matched, its position would be the only target.
    by_contra matched
    have among : position ∈ table.targets condition :=
      mem_targets.2 ⟨row, present, by simpa using matched⟩
    rw [only, List.mem_singleton] at among
    exact other among
  · intro held
    rcases held with ⟨row, among, unmatched, same⟩
    obtain ⟨position, present⟩ := List.mem_iff_getElem?.1 among
    refine ⟨position, exact.lookup_eq_some_iff.2 ⟨row, present, same⟩, ?_⟩
    -- The only target matches, and this row does not.
    rintro rfl
    have matched : position ∈ table.targets condition := only ▸ List.mem_singleton_self position
    obtain ⟨row', present', meets⟩ := mem_targets.1 matched
    obtain rfl := Option.some.inj (present.symm.trans present')
    simp [meets] at unmatched

/-- Whether a value must not be written to the rows that meet a condition, by a search. -/
def isBlocked (table : Table) (condition : Condition) (index : KeyIndex) (value : Value) : Bool :=
  1 < (table.rows.toList.filter (table.meets condition)).length ||
    table.rows.toList.any fun row => !table.meets condition row && index.valueOf row == value

/-- Looking a value up tells the same conflicts as a search through the rows. -/
theorem Indexed.conflict?_eq {table : Table} (indexed : table.Indexed) {condition : Condition}
    (matched : table.targets condition ≠ []) (write : Write) :
    table.conflict? (table.targets condition) write =
      (table.indexAt? write.position).bind fun index =>
        if table.isBlocked condition index write.value then
          some (if write.position = table.primary.position then .primaryKeyTaken write.value.toText
            else .uniqueTaken index.column write.value.toText)
        else none := by
  cases located : table.indexAt? write.position with
  | none =>
    rw [conflict?, located]
    rfl
  | some index =>
    have member : index ∈ table.indexes := List.mem_of_find?_eq_some located
    have sameCheck : (1 < (table.targets condition).length ||
        (index.lookup write.value).any (some · != (table.targets condition).head?)) =
        table.isBlocked condition index write.value := by
      rw [isBlocked, ← length_targets]
      by_cases several : 1 < (table.targets condition).length
      · simp [several]
      · -- Otherwise exactly one row matches.
        obtain ⟨target, only⟩ : ∃ target, table.targets condition = [target] :=
          List.length_eq_one_iff.1 (by have := List.length_pos_iff.2 matched; omega)
        have elsewhere := indexed.elsewhere_iff only member write.value
        rw [Bool.eq_iff_iff]
        simpa only [only, List.length_singleton, Nat.lt_irrefl, decide_false, Bool.false_or,
          List.head?_cons, Option.any_eq_true, List.any_eq_true, Bool.and_eq_true,
          Bool.not_eq_true', bne_iff_ne, ne_eq, Option.some.injEq] using elsewhere
    rw [conflict?, located, Option.bind_some]
    show ((guard ((_ || _) = true) : Option Unit) >>= fun _ => _) = _
    rw [sameCheck]
    cases table.isBlocked condition index write.value with
    | false => rfl
    | true =>
      by_cases primary : write.position = table.primary.position
      · rw [if_pos rfl, if_pos primary, if_pos (beq_iff_eq.2 primary)]
        rfl
      · rw [if_pos rfl, if_neg primary, if_neg (mt beq_iff_eq.1 primary)]
        rfl

/-- A row as an update leaves it. -/
def rewrite (table : Table) (condition : Condition) (writes : List Write) (row : Row) : Row :=
  if table.meets condition row then applyWrites writes row else row

/-- An update rewrites every row in its place. -/
theorem rows_applyTo (table : Table) (condition : Condition) (writes : List Write) :
    (table.applyTo condition writes).rows.toList =
      table.rows.toList.map (table.rewrite condition writes) := by
  -- Whether or not indexes are rebuilt, the rows are mapped in one pass.
  unfold applyTo
  dsimp only
  split <;> exact Array.toList_map

/-- A rewritten row has the same width. -/
@[simp] theorem length_rewrite (table : Table) (condition : Condition) (writes : List Write)
    (row : Row) : (table.rewrite condition writes row).length = row.length := by
  -- Writing replaces values, and a row that is not met stays as it is.
  unfold rewrite
  split
  · exact length_applyWrites writes row
  · rfl

/-- Rewriting rows leaves the keys of a column that is not written. -/
theorem keysOf_rewrite_of_notMem (table : Table) (condition : Condition) {writes : List Write}
    {index : KeyIndex} (unwritten : index.position ∉ writes.map (·.position)) (rows : List Row) :
    index.keysOf (rows.map (table.rewrite condition writes)) = index.keysOf rows := by
  -- Row by row, the key at a position that no write has is the old one.
  rw [KeyIndex.keysOf, KeyIndex.keysOf, List.map_map]
  refine List.map_congr_left fun row _ => ?_
  simp only [Function.comp_apply, rewrite, KeyIndex.valueOf]
  split
  · rw [valueAt_applyWrites_of_notMem unwritten]
  · rfl

/-- Of rows that are not several no two meet a condition. -/
theorem pairwise_of_filter {meets : Row → Bool} {rows : List Row}
    (notSeveral : ¬1 < (rows.filter meets).length) :
    rows.Pairwise fun first second => ¬(meets first = true ∧ meets second = true) := by
  rw [← List.countP_eq_length_filter] at notSeveral
  induction rows with
  | nil => exact .nil
  | cons row rows ih =>
    rw [List.countP_cons] at notSeveral
    -- If the first row matches, another that does would be a second one.
    refine .cons (fun other among both => ?_) (ih (by omega))
    have found := List.countP_pos_iff.2 ⟨other, among, both.2⟩
    rw [if_pos both.1] at notSeveral
    omega

/-- A value that is not blocked is written to one row, and no other row holds it. -/
theorem Indexed.nodup_rewrite {table : Table} (indexed : table.Indexed) {condition : Condition}
    {writes : List Write} {index : KeyIndex} (member : index ∈ table.indexes) {value : Value}
    (unblocked : table.isBlocked condition index value = false)
    (written : ∀ row ∈ table.rows.toList, table.meets condition row = true →
      index.valueOf (applyWrites writes row) = value) :
    (index.keysOf (table.rows.toList.map (table.rewrite condition writes))).Nodup := by
  simp only [isBlocked, Bool.or_eq_false_iff, decide_eq_false_iff_not, List.any_eq_false,
    Bool.and_eq_true, Bool.not_eq_true', not_and] at unblocked
  obtain ⟨notSeveral, nowhereElse⟩ := unblocked
  -- Two rows at different positions had different keys, and not both of them match.
  rw [KeyIndex.keysOf, List.map_map, List.Nodup, List.pairwise_map]
  have distinct := (indexed.exact index member).distinct
  rw [KeyIndex.keysOf, List.Nodup, List.pairwise_map] at distinct
  refine (distinct.and (pairwise_of_filter notSeveral)).imp_of_mem ?_
  intro first second firstIn secondIn apart
  obtain ⟨different, notBoth⟩ := apart
  simp only [Function.comp_apply, rewrite]
  by_cases firstMeets : table.meets condition first = true
  · -- The first row gets the value, which the second one does not hold.
    have secondFails : table.meets condition second = false := by
      simpa [firstMeets] using notBoth
    rw [if_pos firstMeets, if_neg (by simp [secondFails]), written first firstIn firstMeets]
    exact fun same => nowhereElse second secondIn secondFails (Value.beq_iff.2 same.symm)
  · rw [if_neg firstMeets]
    by_cases secondMeets : table.meets condition second = true
    · -- The same with the rows exchanged.
      rw [if_pos secondMeets, written second secondIn secondMeets]
      exact fun same =>
        nowhereElse first firstIn (by simpa using firstMeets) (Value.beq_iff.2 same)
    · -- Neither row is written.
      rwa [if_neg secondMeets]

/-- The column of an index has an index. -/
theorem exists_indexAt? {table : Table} {index : KeyIndex} (member : index ∈ table.indexes) :
    ∃ first ∈ table.indexes, table.indexAt? index.position = some first ∧
      first.position = index.position := by
  -- The search finds an index at that position, since the given one is there.
  cases found : table.indexAt? index.position with
  | none => simpa using List.find?_eq_none.1 found index member
  | some first =>
    exact ⟨first, List.mem_of_find?_eq_some found, rfl, by simpa using List.find?_some found⟩

/-- Writes without a conflict leave no value of an indexed column in two rows. -/
theorem Indexed.nodup_applyTo {table : Table} (indexed : table.Indexed) {condition : Condition}
    {writes : List Write} (matched : table.targets condition ≠ [])
    (distinct : (writes.map (·.position)).Nodup)
    (placed : ∀ write ∈ writes, write.position < table.columns.length)
    (free : ∀ write ∈ writes, table.conflict? (table.targets condition) write = none)
    {index : KeyIndex} (member : index ∈ table.indexes) :
    (index.keysOf (table.rows.toList.map (table.rewrite condition writes))).Nodup := by
  by_cases touched : index.position ∈ writes.map (·.position)
  · obtain ⟨write, writeIn, atIndex⟩ := List.mem_map.1 touched
    obtain ⟨first, firstIn, located, samePosition⟩ := exists_indexAt? member
    -- The conflict has been looked for in the first index of the same column.
    have noConflict := free write writeIn
    rw [indexed.conflict?_eq matched, atIndex, located] at noConflict
    have unblocked : table.isBlocked condition first write.value = false := by
      simpa using noConflict
    rw [KeyIndex.keysOf_congr samePosition.symm]
    refine indexed.nodup_rewrite firstIn unblocked fun row among _ => ?_
    -- Every row that matches has the written value afterwards, since it is wide enough.
    rw [KeyIndex.valueOf, samePosition, ← atIndex]
    refine valueAt_applyWrites_of_mem distinct writeIn ?_
    rw [indexed.width row among]
    exact placed write writeIn
  · -- A column that is not written keeps its keys.
    rw [keysOf_rewrite_of_notMem table condition touched]
    exact (indexed.exact index member).distinct

/-- An update that has passed its checks keeps the indexes exact. -/
theorem Indexed.applyTo {table : Table} (indexed : table.Indexed) {condition : Condition}
    {writes : List Write} (matched : table.targets condition ≠ [])
    (distinct : (writes.map (·.position)).Nodup)
    (placed : ∀ write ∈ writes, write.position < table.columns.length)
    (free : ∀ write ∈ writes, table.conflict? (table.targets condition) write = none) :
    (table.applyTo condition writes).Indexed := by
  -- Writing does not change the width of a row.
  have wide : ∀ row ∈ table.rows.toList.map (table.rewrite condition writes),
      row.length = table.columns.length := by
    intro row member
    obtain ⟨old, among, rfl⟩ := List.mem_map.1 member
    rw [length_rewrite]
    exact indexed.width old among
  have rewritten := rows_applyTo table condition writes
  unfold Table.applyTo at rewritten ⊢
  dsimp only at rewritten ⊢
  split at rewritten
  · -- Some write is to an indexed column, and all indexes are built anew.
    rename_i touched
    rw [if_pos touched]
    change (table.rows.map (table.rewrite condition writes)).toList = _ at rewritten
    refine indexed.withRows (fun index member => ?_) ?_
    · exact rewritten ▸ indexed.nodup_applyTo matched distinct placed free member
    · exact rewritten ▸ wide
  · rename_i untouched
    rw [if_neg untouched]
    refine ⟨indexed.placed, fun index (member : index ∈ table.indexes) => ?_, rewritten ▸ wide⟩
    -- No index is on a written column, so each still has the keys that it was made of.
    have unwritten : index.position ∉ writes.map (·.position) := by
      intro touched
      obtain ⟨write, writeIn, atIndex⟩ := List.mem_map.1 touched
      obtain ⟨first, -, located, -⟩ := exists_indexAt? member
      exact untouched (List.any_eq_true.2 ⟨write, writeIn, by simp [atIndex, located]⟩)
    refine (indexed.exact index member).congr ?_
    rw [rewritten]
    exact keysOf_rewrite_of_notMem table condition unwritten table.rows.toList

/-- Removing rows keeps the indexes exact. -/
theorem Indexed.filter {table : Table} (indexed : table.Indexed) (isKept : Row → Bool) :
    (table.withRows (table.rows.filter isKept)).Indexed := by
  -- Fewer rows have fewer keys, in the same order, and each row is one of the old.
  refine indexed.withRows (fun index member => ?_) fun row member => ?_
  · rw [Array.toList_filter]
    exact (indexed.exact index member).distinct.sublist (List.filter_sublist.map _)
  · rw [Array.toList_filter] at member
    exact indexed.width row (List.mem_of_mem_filter member)

/-- Whatever a command does, the indexes stay exact. -/
theorem Indexed.effect {table changed : Table} (indexed : table.Indexed)
    (effect : table.Effect changed) : changed.Indexed := by
  -- Each change keeps the indexes exact by the checks that were made before it.
  cases effect with
  | unchanged => exact indexed
  | inserted converted fresh => exact indexed.push (length_of_convertRow converted) fresh
  | updated resolved matched free =>
    obtain ⟨distinct, placed⟩ := writes_of_resolveAll resolved
    exact indexed.applyTo matched distinct placed free
  | removed condition => exact indexed.filter _

/-- The indexes of a new table stay exact under all commands. -/
theorem after_indexed {schema : Schema} {table : Table} (created : Table.create schema = .ok table)
    (commands : List TableCommand) : (table.after commands).Indexed := by
  -- By induction on the run, with one step as the effect of one command.
  refine after_induction (create_indexed created) ?_ commands
  exact fun table command indexed => indexed.effect (table.perform_effect command)

end Table

end TableStore
