import TableStore.Proofs.Table.Indexed

/-! What a request can do to a database, and what therefore holds of every database in use. -/

namespace TableStore

namespace Database

/-- The databases that a request can leave behind. -/
inductive Effect (db : Database) : Database → Prop
  | unchanged : Effect db db
  | created {schema : Schema} {table : Table} (absent : db.table? schema.name = none)
      (unrepeated : repeated? [] (schema.columns.map (·.name)) = none)
      (built : Table.create schema = .ok table) : Effect db (db.put schema.name table)
  | acted {name : Bytes} {table changed : Table} (found : db.table? name = some table)
      (effect : table.Effect changed) : Effect db (db.put name changed)

/-- The database without tables has no table of any name. -/
@[simp] theorem table?_empty (name : Bytes) : empty.table? name = none := by
  -- A look-up in the empty map finds nothing.
  simp [table?, empty]

/-- A table that has been put under its name is found there, and the others where they were. -/
theorem table?_put (db : Database) (name other : Bytes) (table : Table) :
    (db.put name table).table? other = if name = other then some table else db.table? other := by
  -- It is the look-up in a map after an insertion.
  simp only [table?, put, Std.ExtTreeMap.getElem?_insert, Std.LawfulEqCmp.compare_eq_iff_eq]

/-- A table that has been put under its name is found there. -/
@[simp] theorem table?_put_self (db : Database) (name : Bytes) (table : Table) :
    (db.put name table).table? name = some table := by
  rw [table?_put, if_pos rfl]

/-- The tables of other names stay where they were. -/
theorem table?_put_of_ne {name other : Bytes} (different : other ≠ name) (db : Database)
    (table : Table) : (db.put name table).table? other = db.table? other := by
  rw [table?_put, if_neg (Ne.symm different)]

/-- Two databases are the same if every name stands for the same table in both. -/
theorem ext_table? {db other : Database} (same : ∀ name, db.table? name = other.table? name) :
    db = other := by
  -- The tables are all that a database consists of.
  obtain ⟨tables⟩ := db
  obtain ⟨otherTables⟩ := other
  exact congrArg Database.mk (Std.ExtTreeMap.ext_getElem? same)

/-- Putting a table where it is already changes nothing. -/
theorem put_eq_self {db : Database} {name : Bytes} {table : Table}
    (found : db.table? name = some table) : db.put name table = db := by
  apply ext_table?
  intro other
  -- Under the one name the table is the one that was there, and elsewhere nothing is put.
  rw [table?_put]
  split
  · rename_i same
    rw [← same, found]
  · rfl

/-- A table is created exactly if its name is free, its columns differ and its keys are columns. -/
theorem create_eq_ok_iff {db created : Database} {schema : Schema} :
    db.create schema = .ok created ↔
      db.table? schema.name = none ∧ repeated? [] (schema.columns.map (·.name)) = none ∧
        ∃ table, Table.create schema = .ok table ∧ created = db.put schema.name table := by
  -- The checks are gone through in their order.
  unfold create
  cases found : db.table? schema.name with
  | some table => simp [throw, throwThe, MonadExceptOf.throw, Bind.bind, Except.bind]
  | none =>
    cases repeated : repeated? [] (schema.columns.map (·.name)) with
    | some column =>
      simp [throw, throwThe, MonadExceptOf.throw]
    | none =>
      cases built : Table.create schema <;>
        simp [Bind.bind, Except.bind, Pure.pure, Except.pure, eq_comm]

/-- A table is refused first for its name, whatever else is wrong with it. -/
theorem create_of_taken {db : Database} {schema : Schema}
    (taken : (db.table? schema.name).isSome = true) :
    db.create schema = .error (.tableExists schema.name) := by
  -- The name is the first thing that is looked at.
  rw [create, if_pos taken]
  rfl

/-- A table is refused next for the first name that two of its columns have. -/
theorem create_of_repeated {db : Database} {schema : Schema} {column : Bytes}
    (free : db.table? schema.name = none)
    (repeated : repeated? [] (schema.columns.map (·.name)) = some column) :
    db.create schema = .error (.duplicateColumn column) := by
  -- With the name free, the columns are looked at next.
  rw [create, free, repeated]
  rfl

/-- A command acts on the table of its name, if there is one. -/
theorem act_eq_some_iff {db : Database} {name : Bytes} {command : TableCommand}
    {outcome : Outcome Database TableAnswer} :
    db.act name command = some outcome ↔
      ∃ table, db.table? name = some table ∧
        outcome = { table.perform command with
          state := db.put name (table.perform command).state } := by
  -- The outcome is that of the table, with the database around it.
  rw [act, Option.map_eq_some_iff]
  exact exists_congr fun table => and_congr_right fun _ => eq_comm

/-- A failure is logged without any effect on the state. -/
@[simp] theorem state_logFailure (request : Bytes) (outcome : Outcome Database Answer) :
    (logFailure request outcome).state = outcome.state := by
  -- Either end of an outcome has its state carried along.
  unfold logFailure
  split <;> rfl

/-- A failure is logged without any effect on the result. -/
@[simp] theorem result_logFailure (request : Bytes) (outcome : Outcome Database Answer) :
    (logFailure request outcome).result = outcome.result := by
  -- What is logged depends on the result, and does not enter into it.
  unfold logFailure
  split
  · rfl
  · rfl

/-- A request to create a table adds it or does nothing. -/
theorem runCreate_effect (db : Database) (schema : Schema) :
    db.Effect (db.runCreate schema).state := by
  unfold runCreate
  -- Only a success has anything to put under the name.
  cases result : db.create schema with
  | error error => exact .unchanged
  | ok created =>
    obtain ⟨absent, unrepeated, table, built, rfl⟩ := create_eq_ok_iff.1 result
    exact .created absent unrepeated built

/-- A command to a table that there is has its effect on that table alone. -/
theorem act_effect {db : Database} {name : Bytes} {command : TableCommand}
    {outcome : Outcome Database TableAnswer} (acted : db.act name command = some outcome) :
    db.Effect outcome.state := by
  obtain ⟨table, found, rfl⟩ := act_eq_some_iff.1 acted
  -- What the command does to the table is what the table module says.
  exact .acted found (table.perform_effect command)

/-- A statement on one table has its effect on that table alone. -/
theorem runOn_effect (db : Database) (name : Bytes) (command : TableCommand) :
    db.Effect (db.runOn name command).state := by
  unfold runOn
  -- Without such a table there is nothing that could be changed.
  cases acted : db.act name command with
  | none => exact .unchanged
  | some outcome => exact act_effect acted

/-- A query on two tables has no effect. -/
@[simp] theorem state_runJoin (db : Database) (join : Join) : (db.runJoin join).state = db := by
  -- A join gives back the database that it looked at.
  unfold runJoin
  split <;> rfl

/-- A statement creates a table, changes one, or does nothing. -/
theorem run_effect (db : Database) (statement : Statement) :
    db.Effect (db.run statement).state := by
  -- Apart from creation and joins every statement is about one table.
  cases statement with
  | createTable definition => exact db.runCreate_effect _
  | insert insertion => exact db.runOn_effect _ _
  | select selection => exact db.runOn_effect _ _
  | join join =>
    show db.Effect (db.runJoin join).state
    rw [state_runJoin]
    exact .unchanged
  | update update => exact db.runOn_effect _ _
  | delete deletion => exact db.runOn_effect _ _

/-- Every request creates a table, changes one, or does nothing. -/
theorem serve_effect (db : Database) (request : Request) : db.Effect (db.serve request) := by
  -- The three ways to ask end in a statement, a creation or a command.
  cases request with
  | execute text =>
    simp only [serve, execute, state_logFailure]
    cases Statement.parse text with
    | error cause => exact .unchanged
    | ok statement => exact db.run_effect statement
  | create schema =>
    simp only [serve, createTable, state_logFailure]
    exact db.runCreate_effect schema
  | act name command =>
    cases acted : db.act name command with
    | none =>
      simp only [serve, acted, Option.elim_none]
      exact .unchanged
    | some outcome =>
      simp only [serve, acted, Option.elim_some]
      exact act_effect acted

/-- A column name is reported as repeated unless all names differ. -/
theorem repeated?_eq_none_iff {seen names : List Bytes} :
    repeated? seen names = none ↔ names.Nodup ∧ ∀ name ∈ names, name ∉ seen := by
  induction names generalizing seen with
  | nil => simp [repeated?]
  | cons name names ih =>
    -- A name counts as seen for all names after it.
    by_cases repeats : name ∈ seen
    · simp [repeated?, repeats]
    · have unseen : ¬seen.contains name = true := mt List.contains_iff_mem.1 repeats
      rw [repeated?, if_neg unseen, ih, List.nodup_cons]
      simp only [List.mem_cons, not_or, forall_eq_or_imp]
      grind

/-- The name that is told to be repeated is the first that has been seen before. -/
theorem exists_of_repeated?_eq_some {seen names : List Bytes} {name : Bytes}
    (unrepeated : seen.Nodup) (repeated : repeated? seen names = some name) :
    ∃ front behind, names = front ++ name :: behind ∧ (front.reverse ++ seen).Nodup ∧
      name ∈ front.reverse ++ seen := by
  induction names generalizing seen with
  | nil => simp [repeated?] at repeated
  | cons first names ih =>
    rw [repeated?] at repeated
    split at repeated
    · next again =>
      obtain rfl := Option.some.inj repeated
      exact ⟨[], names, rfl, unrepeated, List.contains_iff_mem.1 again⟩
    · next fresh =>
      -- The first name is seen for the others.
      have distinct : (first :: seen).Nodup :=
        List.nodup_cons.2 ⟨mt List.contains_iff_mem.2 fresh, unrepeated⟩
      obtain ⟨front, behind, rfl, apart, among⟩ := ih distinct repeated
      refine ⟨first :: front, behind, rfl, ?_, ?_⟩
      · simpa using apart
      · simpa using among

/-- A table that is found after a request was there before, but for a command, or is new. -/
theorem Effect.origin {db changed : Database} (effect : db.Effect changed) {name : Bytes}
    {table : Table} (found : changed.table? name = some table) :
    (∃ old, db.table? name = some old ∧ old.Effect table) ∨
      ∃ schema : Schema, schema.name = name ∧
        repeated? [] (schema.columns.map (·.name)) = none ∧ Table.create schema = .ok table := by
  cases effect with
  | unchanged => exact .inl ⟨table, found, .unchanged⟩
  | @created schema built absent unrepeated created =>
    -- What is found is the new table, if it has this name, or one from before.
    rw [table?_put] at found
    split at found
    · rename_i same
      obtain rfl := Option.some.inj found
      exact .inr ⟨schema, same, unrepeated, created⟩
    · exact .inl ⟨table, found, .unchanged⟩
  | @acted acting old new present effect =>
    -- What is found is the changed table, if it has this name, or one from before.
    rw [table?_put] at found
    split at found
    · rename_i same
      obtain rfl := Option.some.inj found
      exact .inl ⟨old, same ▸ present, effect⟩
    · exact .inl ⟨table, found, .unchanged⟩

/-- What new tables have and every command keeps, all tables of databases in use have. -/
theorem tables_induction {holds : Bytes → Table → Prop}
    (start : ∀ {schema table}, repeated? [] (schema.columns.map (·.name)) = none →
      Table.create schema = .ok table → holds schema.name table)
    (step : ∀ {name table changed}, holds name table → table.Effect changed → holds name changed)
    (requests : List Request) :
    ∀ name table, (after requests).table? name = some table → holds name table := by
  -- The claim about all tables is an invariant of databases.
  refine @after_induction (fun db => ∀ name table, db.table? name = some table → holds name table)
    (fun name table found => by simp at found) (fun db request held name table found => ?_) requests
  rcases (db.serve_effect request).origin found with ⟨old, present, effect⟩ | created
  · -- A table from before has had the effect, and another one has just been created.
    exact step (held name old present) effect
  · obtain ⟨schema, rfl, unrepeated, created⟩ := created
    exact start unrepeated created

/-- A table under its own name, with columns of different names and exact indexes. -/
structure Holds (name : Bytes) (table : Table) : Prop where
  named : table.name = name
  unrepeated : table.columnNames.Nodup
  indexed : table.Indexed

/-- A new table is declared under its own name and has empty indexes. -/
theorem create_holds {schema : Schema} {table : Table}
    (unrepeated : repeated? [] (schema.columns.map (·.name)) = none)
    (created : Table.create schema = .ok table) : Holds schema.name table := by
  -- The declaration of the new table is the schema, with its names and no others.
  have declared := (Table.create_declares created).2
  refine ⟨congrArg Schema.name declared, ?_, Table.create_indexed created⟩
  rw [Table.columnNames_of_schema declared]
  exact (repeated?_eq_none_iff.1 unrepeated).1

/-- A table keeps its declaration, and its indexes stay exact. -/
theorem Holds.effect {name : Bytes} {table changed : Table} (holds : Holds name table)
    (effect : table.Effect changed) : Holds name changed := by
  -- A command does not touch the declaration, in which both names are.
  have declared := effect.schema_eq
  refine ⟨(congrArg Schema.name declared).trans holds.named, ?_, holds.indexed.effect effect⟩
  rw [Table.columnNames_of_schema declared]
  exact holds.unrepeated

/-- Every table of a database is under its own name and in order. -/
def Sound (db : Database) : Prop :=
  ∀ name table, db.table? name = some table → Holds name table

/-- Every database in use is sound. -/
theorem after_sound (requests : List Request) : (after requests).Sound :=
  -- What holds of new tables and outlives every effect holds of all tables.
  tables_induction create_holds Holds.effect requests

end Database

namespace Table

/-- A table whose every index is on its own column and mirrors the rows. -/
structure IsMirrored (table : Table) : Prop where
  placed : ∀ index ∈ table.indexes, table.columnIndex? index.column = some index.position
  width : ∀ row ∈ table.rows, row.length = table.columns.length
  mirrors : ∀ index ∈ table.indexes, index.Mirrors table.rows

/-- The indexes of an indexed table mirror its rows. -/
theorem Indexed.isMirrored {table : Table} (indexed : table.Indexed) : table.IsMirrored where
  placed := indexed.placed
  width row member := indexed.width row (Array.mem_toList_iff.2 member)
  mirrors index member := (indexed.exact index member).mirrors

/-- What a table was declared as outlives all commands. -/
theorem schema_after (table : Table) (commands : List TableCommand) :
    (table.after commands).schema = table.schema := by
  -- The schema from the beginning is the invariant.
  refine @after_induction (fun changed => changed.schema = table.schema) table rfl ?_ commands
  exact fun changed command same => (changed.perform_effect command).schema_eq.trans same

end Table

/--
The index on the primary key and on every unique column mirrors the rows, in every table of every
database in use and in every table that was made on its own, whatever has been asked of them.
-/
theorem indexes_mirror_rows :
    (∀ (requests : List Request) (name : Bytes) (table : Table),
      (Database.after requests).table? name = some table → table.IsMirrored) ∧
    ∀ (schema : Schema) (table : Table), Table.create schema = .ok table →
      ∀ commands : List TableCommand, (table.after commands).IsMirrored ∧
        (table.after commands).schema =
          { schema with uniqueColumns := schema.uniqueColumns.eraseDups } := by
  refine ⟨fun requests name table found => ?_, fun schema table created commands => ⟨?_, ?_⟩⟩
  · -- Tables of a database are indexed because the database is sound.
    exact (Database.after_sound requests name table found).indexed.isMirrored
  · -- A table on its own needs no soundness of names, which may be repeated.
    exact (Table.after_indexed created commands).isMirrored
  · rw [Table.schema_after]
    exact (Table.create_declares created).2

/-- The indexes mirror the rows after keys were reassigned, and under a repeated column name. -/
theorem indexes_mirror_rows_reassigned :
    (∃ table, (Database.after [.execute "CREATE TABLE t (a INT PRIMARY KEY, b FLOAT UNIQUE)",
        .execute "INSERT INTO t VALUES (1, 2)", .execute "INSERT INTO t VALUES (2, 3)",
        .execute "UPDATE t SET a = 7, b = 2 WHERE a = 1", .execute "INSERT INTO t VALUES (8, 2)",
        .execute "DELETE FROM t WHERE b = 3"]).table? "t" = some table ∧ table.IsMirrored) ∧
    ∃ table, Table.create ⟨"t", [.declare "a" "INT", .declare "a" "TEXT"], "a", ["a", "a"]⟩ =
        .ok table ∧
      (table.after [.insert [.integer 1, .integer 1], .insert [.float ⟨0⟩, .integer 1],
        .update [⟨"a", .integer 5⟩] (some ⟨"a", .integer 1⟩)]).IsMirrored := by
  obtain ⟨fromRequests, onItsOwn⟩ := indexes_mirror_rows
  -- Each table is only seen to be there, and the theorem gives the rest.
  constructor
  · refine (Option.isSome_iff_exists.1 ?_).imp fun table found =>
      ⟨found, fromRequests _ _ table found⟩
    decide +kernel
  · refine (isOk_iff.1 ?_).imp fun table created =>
      ⟨created, (onItsOwn _ table created _).1⟩
    decide +kernel

end TableStore
