import TableStore.Proofs.Database.Sound

/-!
Requests are all or nothing: one that is refused changes nothing, and one that succeeds changes at
most the table that it is about. So tables never disappear, and never change what they are declared
as.
-/

namespace TableStore

/-- No error is told with the status of a success. -/
theorem QueryError.status_ne_ok (error : QueryError) : error.status ≠ .ok := by
  cases error with
  | parse cause statement =>
    -- The status of a text that is no statement depends on what is wrong with it.
    cases cause <;> simp [status, parseStatus]
  | _ => simp [status]

/-- Two tables that differ at most in their rows and in what their indexes hold. -/
structure Table.SameButRows (table other : Table) : Prop where
  declared : other.schema = table.schema
  emptied : other.withRows #[] = table.withRows #[]

namespace Table

/-- A table differs from itself in nothing. -/
theorem SameButRows.refl (table : Table) : table.SameButRows table := ⟨rfl, rfl⟩

/-- What differs at most in its rows twice over still differs at most in them. -/
theorem SameButRows.trans {first second third : Table} (before : first.SameButRows second)
    (after : second.SameButRows third) : first.SameButRows third :=
  -- Each part is a chain of equalities, read from the last table to the first.
  ⟨after.declared.trans before.declared, after.emptied.trans before.emptied⟩

/-- What a command may do to a table is to change its rows. -/
theorem Effect.sameButRows {table changed : Table} (effect : table.Effect changed) :
    table.SameButRows changed :=
  -- The declaration stays as a whole, and the rest of the table with it, once the rows are put
  -- aside.
  ⟨effect.schema_eq, effect.withRows_eq #[]⟩

/-- A command that fails leaves the table as it was. -/
theorem state_of_perform_error {table : Table} {command : TableCommand} {error : QueryError}
    (failed : (table.perform command).result = .error error) :
    (table.perform command).state = table := by
  -- Every operation returns its new table together with the answer, or no table at all.
  cases command with
  | insert values =>
    simp only [perform] at failed ⊢
    cases inserted : table.insert values with
    | error error => rfl
    | ok changed => simp [inserted] at failed
  | select projection condition =>
    simp only [perform]
    cases table.select projection condition <;> rfl
  | update assignments condition =>
    simp only [perform] at failed ⊢
    cases updated : table.update assignments condition with
    | error error => rfl
    | ok answer => simp [updated, Except.map, outcome] at failed
  | remove condition =>
    simp only [perform] at failed ⊢
    cases removed : table.remove condition with
    | error error => rfl
    | ok answer => simp [removed, Except.map, outcome] at failed

/-- A query leaves the table as it was. -/
theorem state_perform_select (table : Table) (projection : Projection)
    (condition : Option Condition) :
    (table.perform (.select projection condition)).state = table := by
  -- Both ends of a query, an error and an answer, carry the table along.
  simp only [perform]
  cases table.select projection condition <;> rfl

end Table

namespace Database

/-- A database gains exactly one table, which is empty and declared as a schema says. -/
structure Adds (schema : Schema) (db changed : Database) : Prop where
  absent : db.table? schema.name = none
  added : ∃ table, changed.table? schema.name = some table ∧ table.rows = #[] ∧
    table.schema = { schema with uniqueColumns := schema.uniqueColumns.eraseDups }
  others : ∀ other, other ≠ schema.name → changed.table? other = db.table? other

/-- A database changes at most in the rows of one of its tables. -/
structure ChangesRows (name : Bytes) (db changed : Database) : Prop where
  rows : ∃ before after, db.table? name = some before ∧ changed.table? name = some after ∧
    before.SameButRows after
  others : ∀ other, other ≠ name → changed.table? other = db.table? other

/-- What a statement that succeeds may do to a database. -/
def Allows : Statement → Database → Database → Prop
  -- A write is confined to one table, and a query to none.
  | .createTable definition, db, changed => Adds definition.schema db changed
  | .insert insertion, db, changed => ChangesRows insertion.table db changed
  | .update update, db, changed => ChangesRows update.table db changed
  | .delete deletion, db, changed => ChangesRows deletion.table db changed
  | .select _, db, changed | .join _, db, changed => changed = db

/--
An outcome that is all or nothing: a refusal leaves the database as it was and answers with neither
columns nor rows, and a success leaves a database that is allowed.
-/
structure AllOrNothing (db : Database) (allowed : Database → Prop)
    (outcome : Outcome Database Answer) : Prop where
  refused : ∀ error, outcome.result = .error error → outcome.state = db ∧
    (Reply.ofResult outcome.result).isSuccess = false ∧
    (Reply.ofResult outcome.result).status ≠ .ok ∧
    (Reply.ofResult outcome.result).relation = { columns := [], rows := [] }
  done : ∀ answer, outcome.result = .ok answer →
    (Reply.ofResult outcome.result).isSuccess = true ∧ allowed outcome.state

variable {db changed : Database} {allowed : Database → Prop}

/-- It is enough to know what the outcome does to the database. -/
theorem allOrNothing_of_state {outcome : Outcome Database Answer}
    (failed : ∀ error, outcome.result = .error error → outcome.state = db)
    (succeeded : ∀ answer, outcome.result = .ok answer → allowed outcome.state) :
    AllOrNothing db allowed outcome where
  refused error result := by
    -- The reply to an error has its status, which is never that of a success.
    have otherStatus := error.status_ne_ok
    refine ⟨failed error result, ?_, ?_, ?_⟩ <;> rw [result]
    · exact beq_false_of_ne otherStatus
    · exact otherStatus
    · rfl
  done answer result := by
    refine ⟨?_, succeeded answer result⟩
    rw [result]
    rfl

/-- What is allowed may be told in a weaker way. -/
theorem AllOrNothing.imp {weaker : Database → Prop} {outcome : Outcome Database Answer}
    (atomic : AllOrNothing db allowed outcome)
    (weakens : ∀ changed, allowed changed → weaker changed) : AllOrNothing db weaker outcome where
  -- The refusal is the same, and a success is only told about differently.
  refused := atomic.refused
  done answer result := (atomic.done answer result).imp_right (weakens _)

/-- A log entry about a failure does not make a difference. -/
theorem AllOrNothing.logFailure {outcome : Outcome Database Answer}
    (atomic : AllOrNothing db allowed outcome) (request : Bytes) :
    AllOrNothing db allowed (logFailure request outcome) := by
  refine allOrNothing_of_state ?_ ?_
  · -- The entry changes neither the result nor the state.
    intro error result
    rw [result_logFailure] at result
    rw [state_logFailure]
    exact (atomic.refused error result).1
  · intro answer result
    rw [result_logFailure] at result
    rw [state_logFailure]
    exact (atomic.done answer result).2

/-- A request for a table adds it or does nothing. -/
theorem runCreate_allOrNothing (db : Database) (schema : Schema) :
    AllOrNothing db (Adds schema db) (db.runCreate schema) := by
  unfold runCreate
  cases result : db.create schema with
  | error error =>
    exact allOrNothing_of_state (fun _ _ => rfl) fun answer impossible => by simp at impossible
  | ok created =>
    -- The table has been built before it is added.
    obtain ⟨absent, -, table, built, rfl⟩ := create_eq_ok_iff.1 result
    refine allOrNothing_of_state (fun error impossible => by simp at impossible) fun answer _ => ?_
    refine ⟨absent, ⟨table, table?_put_self .., Table.create_declares built⟩, ?_⟩
    exact fun other different => table?_put_of_ne different db table

/-- A statement on one table changes its rows or does nothing. -/
theorem runOn_allOrNothing (db : Database) (name : Bytes) (command : TableCommand) :
    AllOrNothing db (ChangesRows name db) (db.runOn name command) := by
  unfold runOn
  cases acted : db.act name command with
  | none =>
    exact allOrNothing_of_state (fun _ _ => rfl) fun answer impossible => by simp at impossible
  | some outcome =>
    obtain ⟨table, found, rfl⟩ := act_eq_some_iff.1 acted
    refine allOrNothing_of_state ?_ ?_
    · intro error failed
      -- The table is put back as it was found.
      have same : (table.perform command).state = table := by
        cases result : (table.perform command).result with
        | error error => exact Table.state_of_perform_error result
        | ok answer => simp [result, Except.map] at failed
      show db.put name (table.perform command).state = db
      rw [same, put_eq_self found]
    · -- The changed table takes the place of the one that was found.
      intro answer _
      refine ⟨⟨table, _, found, table?_put_self .., (table.perform_effect command).sameButRows⟩, ?_⟩
      exact fun other different => table?_put_of_ne different db _

/-- A query on one table does nothing to the database. -/
theorem state_runOn_select (db : Database) (name : Bytes) (projection : Projection)
    (condition : Option Condition) :
    (db.runOn name (.select projection condition)).state = db := by
  -- If the table is there, it is put back in its place unchanged.
  unfold runOn
  cases acted : db.act name (.select projection condition) with
  | none => rfl
  | some outcome =>
    obtain ⟨table, found, rfl⟩ := act_eq_some_iff.1 acted
    show db.put name _ = db
    rw [Table.state_perform_select, put_eq_self found]

/-- A statement does what its kind allows, or nothing. -/
theorem run_allOrNothing (db : Database) (statement : Statement) :
    AllOrNothing db (Allows statement db) (db.run statement) := by
  cases statement with
  | createTable definition => exact runCreate_allOrNothing db _
  | insert insertion => exact runOn_allOrNothing db _ _
  | select selection =>
    -- A query leaves the database as it was, whether or not it is answered.
    have unchanged := state_runOn_select db selection.table selection.projection selection.condition
    exact allOrNothing_of_state (fun _ _ => unchanged) fun _ _ => unchanged
  | join join =>
    have unchanged := state_runJoin db join
    exact allOrNothing_of_state (fun _ _ => unchanged) fun _ _ => unchanged
  | update update => exact runOn_allOrNothing db _ _
  | delete deletion => exact runOn_allOrNothing db _ _

/-- A text is refused, or it is a statement that does what its kind allows. -/
theorem execute_allOrNothing (db : Database) (text : Bytes) :
    AllOrNothing db
      (fun changed => ∃ statement, Statement.parse text = .ok statement ∧
        Allows statement db changed)
      (db.execute text) := by
  unfold execute
  refine AllOrNothing.logFailure ?_ _
  -- A text that is no statement is refused before the database is looked at.
  cases parsed : Statement.parse text with
  | error cause =>
    exact allOrNothing_of_state (fun _ _ => rfl) fun answer impossible => by simp at impossible
  | ok statement =>
    exact (run_allOrNothing db statement).imp fun changed allowed => ⟨statement, rfl, allowed⟩

/-- A table is added without a statement, or nothing happens. -/
theorem createTable_allOrNothing (db : Database) (schema : Schema) :
    AllOrNothing db (Adds schema db) (db.createTable schema) :=
  -- To log a failure changes neither the database nor the result.
  (runCreate_allOrNothing db schema).logFailure _

/-- Every table of a database is in another one too, where only its rows may differ. -/
def KeepsTables (db changed : Database) : Prop :=
  ∀ name table, db.table? name = some table →
    ∃ later, changed.table? name = some later ∧ table.SameButRows later

/-- A request that adds a table or acts on one keeps all tables. -/
theorem Effect.keepsTables (effect : db.Effect changed) : db.KeepsTables changed := by
  intro name table found
  cases effect with
  | unchanged => exact ⟨table, found, .refl table⟩
  | @created schema added absent unrepeated built =>
    -- The name of the new table was free, so that it takes the place of no other.
    have different : name ≠ schema.name := by
      rintro rfl
      simp [absent] at found
    refine ⟨table, ?_, .refl table⟩
    rw [table?_put_of_ne different]
    exact found
  | @acted acting old new present effect =>
    -- The table acted on differs at most in its rows, and every other is left alone.
    by_cases same : name = acting
    · subst same
      obtain rfl := Option.some.inj (found.symm.trans present)
      exact ⟨new, table?_put_self .., effect.sameButRows⟩
    · refine ⟨table, ?_, .refl table⟩
      rw [table?_put_of_ne same]
      exact found

/-- No table ever disappears or is declared anew. -/
theorem after_keepsTables (earlier later : List Request) :
    (after earlier).KeepsTables (after (earlier ++ later)) := by
  induction later using List.reverseRecOn with
  | nil =>
    rw [List.append_nil]
    exact fun name table found => ⟨table, found, .refl table⟩
  | append_singleton later request ih =>
    intro name table found
    -- The table is still there before the last request, which keeps it as well.
    obtain ⟨between, foundBetween, sameBetween⟩ := ih name table found
    have step := ((after (earlier ++ later)).serve_effect request).keepsTables
    obtain ⟨last, foundLast, sameLast⟩ := step name between foundBetween
    refine ⟨last, ?_, sameBetween.trans sameLast⟩
    rw [← List.append_assoc, after, List.foldl_append]
    exact foundLast

/-- Bytes are compared as numbers, and texts by the first byte in which they differ. -/
theorem compare_eq_lt_iff {first second : Bytes} : compare first second = .lt ↔ first < second := by
  rw [List.compare_eq_compareLex]
  induction first generalizing second with
  | nil => cases second <;> simp [List.compareLex_nil_nil, List.compareLex_nil_cons]
  | cons byte first ih =>
    cases second with
    | nil => simp [List.compareLex_cons_nil]
    | cons other second =>
      -- The first bytes decide, or else the texts after them.
      rw [List.compareLex_cons_cons, List.cons_lt_cons_iff, Ordering.then_eq_lt, ih,
        Std.compare_eq_lt, Std.LawfulEqCmp.compare_eq_iff_eq]

/-- The names of the tables are in increasing order. -/
theorem tableNames_increasing (db : Database) : db.tableNames.Pairwise (· < ·) :=
  -- A tree map gives its keys in order.
  db.tables.ordered_keys.imp compare_eq_lt_iff.1

/-- The names are those of the tables that there are. -/
theorem mem_tableNames {name : Bytes} : name ∈ db.tableNames ↔ (db.table? name).isSome = true := by
  -- A name is a key of the map exactly if it is looked up with success.
  rw [tableNames, Std.ExtTreeMap.mem_keys, table?, Std.ExtTreeMap.isSome_getElem?_iff_mem]

/-- The name of the table that a result tells the creation of. -/
def createdName? : Except QueryError Answer → Option Bytes
  | .ok (.created name) => some name
  | _ => none

/-- The name of the table that a request succeeds in creating. -/
def created? (db : Database) : Request → Option Bytes
  | .execute text => createdName? (db.execute text).result
  | .create schema => createdName? (db.createTable schema).result
  | .act _ _ => none

/-- A table that is put in the place of another leaves the names as they were. -/
theorem mem_tableNames_put {name other : Bytes} {table : Table}
    (found : db.table? name = some table) (changed : Table) :
    other ∈ (db.put name changed).tableNames ↔ other ∈ db.tableNames := by
  rw [mem_tableNames, mem_tableNames, table?_put]
  split
  · -- The name was there before as well.
    rename_i same
    subst same
    simp [found]
  · rfl

/-- An outcome adds the name of a table exactly if it tells so. -/
def TellsNames (db : Database) (outcome : Outcome Database Answer) : Prop :=
  ∀ name, name ∈ outcome.state.tableNames ↔
    name ∈ db.tableNames ∨ createdName? outcome.result = some name

/-- To create a table adds its name exactly if it is told as created. -/
theorem runCreate_tellsNames (db : Database) (schema : Schema) :
    db.TellsNames (db.runCreate schema) := by
  intro name
  unfold runCreate
  cases result : db.create schema with
  -- A refusal leaves the names as they were, and tells of none.
  | error error => simp [createdName?]
  | ok created =>
    -- The names are those from before and the new one, which is told.
    obtain ⟨absent, -, table, -, rfl⟩ := create_eq_ok_iff.1 result
    simp only [createdName?, mem_tableNames, table?_put]
    by_cases same : schema.name = name <;> simp [same]

/-- A command to a table adds no name, and tells of none. -/
theorem runOn_tellsNames (db : Database) (name : Bytes) (command : TableCommand) :
    db.TellsNames (db.runOn name command) := by
  intro other
  unfold runOn
  cases acted : db.act name command with
  -- There is no such table, so that nothing happens and nothing is told of.
  | none => simp [createdName?]
  | some outcome =>
    obtain ⟨table, found, rfl⟩ := act_eq_some_iff.1 acted
    -- A table never answers that another was created.
    have notCreated :
        createdName? ((table.perform command).result.map (·.toAnswer name)) = none := by
      cases (table.perform command).result with
      | error error => rfl
      | ok answer => cases answer <;> rfl
    show other ∈ (db.put name _).tableNames ↔ _
    -- Putting the table back leaves the names as they were.
    rw [mem_tableNames_put found, notCreated]
    simp

/-- A join adds no name, and tells of none. -/
theorem runJoin_tellsNames (db : Database) (join : Join) : db.TellsNames (db.runJoin join) := by
  intro name
  unfold runJoin
  -- The database is the same after a join, and its answer is one of rows.
  cases db.join join <;> simp [createdName?]

/-- A statement adds a name exactly if it tells that the table was created. -/
theorem run_tellsNames (db : Database) (statement : Statement) :
    db.TellsNames (db.run statement) := by
  -- Only a definition creates a table; the other statements act on one or look at two.
  cases statement with
  | createTable definition => exact db.runCreate_tellsNames _
  | insert insertion => exact db.runOn_tellsNames _ _
  | select selection => exact db.runOn_tellsNames _ _
  | join join => exact db.runJoin_tellsNames join
  | update update => exact db.runOn_tellsNames _ _
  | delete deletion => exact db.runOn_tellsNames _ _

/-- To log a failure changes neither the names nor what is told of them. -/
theorem TellsNames.logFailure {outcome : Outcome Database Answer} (tells : db.TellsNames outcome)
    (request : Bytes) : db.TellsNames (logFailure request outcome) := by
  intro name
  -- Both the state and the result are those of the outcome itself.
  rw [state_logFailure, result_logFailure]
  exact tells name

/-- The names after a request are those before it and the one that it creates a table under. -/
theorem mem_tableNames_serve (db : Database) (request : Request) (name : Bytes) :
    name ∈ (db.serve request).tableNames ↔
      name ∈ db.tableNames ∨ db.created? request = some name := by
  cases request with
  | execute text =>
    refine TellsNames.logFailure ?_ _ name
    cases Statement.parse text with
    | error cause => exact fun name => by simp [createdName?]
    | ok statement => exact db.run_tellsNames statement
  | create schema => exact (db.runCreate_tellsNames schema).logFailure _ name
  | act acting command =>
    -- A command to a table creates none.
    simp only [serve, created?, reduceCtorEq, or_false]
    cases acted : db.act acting command with
    | none => rfl
    | some outcome =>
      obtain ⟨table, found, rfl⟩ := act_eq_some_iff.1 acted
      exact mem_tableNames_put found _

/-- The names of the tables are those that one of the requests has created a table under. -/
theorem mem_tableNames_after (requests : List Request) (name : Bytes) :
    name ∈ (after requests).tableNames ↔
      ∃ earlier request later, requests = earlier ++ request :: later ∧
        (after earlier).created? request = some name := by
  induction requests using List.reverseRecOn with
  | nil =>
    have noTable : name ∉ (after []).tableNames := by
      rw [mem_tableNames]
      exact (congrArg Option.isSome (table?_empty name)).trans_ne (by simp)
    simp [noTable]
  | append_singleton requests last ih =>
    have step := mem_tableNames_serve (after requests) last name
    have atLast : after (requests ++ [last]) = (after requests).serve last := by
      simp [after, List.foldl_append]
    rw [atLast, step, ih]
    constructor
    · intro named
      rcases named with ⟨earlier, request, later, rfl, created⟩ | created
      · exact ⟨earlier, request, later ++ [last], by simp, created⟩
      · exact ⟨requests, last, [], rfl, created⟩
    · intro named
      rcases named with ⟨earlier, request, later, split, created⟩
      -- The request that created the table is the last one or one before it.
      rcases List.eq_nil_or_concat later with rfl | ⟨middle, final, rfl⟩
      · obtain ⟨rfl, rfl⟩ : requests = earlier ∧ last = request := by simpa using split
        exact .inr created
      · have reassociated : requests ++ [last] = (earlier ++ request :: middle) ++ [final] := by
          simpa using split
        obtain ⟨rfl, -⟩ := List.append_inj' reassociated rfl
        exact .inl ⟨earlier, request, middle, rfl, created⟩

/--
Requests are all or nothing: a refused one leaves the database as it was and answers with nothing,
and one that succeeds does what its kind allows. Over all requests no table disappears or is
declared anew, and the names of the tables, in increasing order, are those whose creation has
succeeded.
-/
theorem requests_all_or_nothing :
    (∀ (db : Database) (text : Bytes),
      AllOrNothing db
        (fun changed => ∃ statement, Statement.parse text = .ok statement ∧
          Allows statement db changed)
        (db.execute text)) ∧
    (∀ (db : Database) (schema : Schema),
      AllOrNothing db (Adds schema db) (db.createTable schema)) ∧
    (∀ earlier later : List Request, (after earlier).KeepsTables (after (earlier ++ later))) ∧
    ∀ requests : List Request, (after requests).tableNames.Pairwise (· < ·) ∧
      ∀ name, name ∈ (after requests).tableNames ↔
        ∃ earlier request later, requests = earlier ++ request :: later ∧
          (after earlier).created? request = some name := by
  -- One statement for single requests, and one for what their runs leave behind.
  refine ⟨execute_allOrNothing, createTable_allOrNothing, after_keepsTables, fun requests => ?_⟩
  exact ⟨(after requests).tableNames_increasing, mem_tableNames_after requests⟩

/-- A repeated key is refused, and a table outlives the removal of its rows. -/
theorem requests_all_or_nothing_repeated :
    let requests : List Request := [.execute "CREATE TABLE t (a INT PRIMARY KEY)",
      .execute "CREATE TABLE s (a INT PRIMARY KEY)", .execute "INSERT INTO t VALUES (1)"]
    ((after requests).execute "INSERT INTO t VALUES (1)").state = after requests ∧
      (∃ table, (after (requests ++ [.execute "DELETE FROM t WHERE a = 1"])).table? "t" =
        some table) ∧
      (after requests).tableNames = ["s", "t"] ∧
      ∃ earlier request later, requests = earlier ++ request :: later ∧
        (after earlier).created? request = some "s" := by
  obtain ⟨onExecute, -, onRun, names⟩ := requests_all_or_nothing
  -- The refusal of the repeated key is the one concrete fact that the first part needs.
  refine ⟨?_, ?_, ?_, ?_⟩
  · exact ((onExecute _ _).refused (.primaryKeyTaken "1") (by decide +kernel)).1
  · -- The table is there before its row is removed, and so it is afterwards.
    obtain ⟨table, found⟩ := Option.isSome_iff_exists.1 (by decide +kernel : ((after
      [.execute "CREATE TABLE t (a INT PRIMARY KEY)",
        .execute "CREATE TABLE s (a INT PRIMARY KEY)",
        .execute "INSERT INTO t VALUES (1)"]).table? "t").isSome = true)
    obtain ⟨later, foundLater, -⟩ := onRun _ [.execute "DELETE FROM t WHERE a = 1"] "t" table found
    exact ⟨later, foundLater⟩
  · decide +kernel
  · -- The second table is among the names, so that some request has created it.
    exact ((names _).2 "s").1 (by decide +kernel)

end Database

end TableStore
