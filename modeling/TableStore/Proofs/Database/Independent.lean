import TableStore.Proofs.Database.Atomic
import TableStore.Proofs.Database.JoinAnswer

/-!
Statements on different tables. Main statement: if neither of two statements writes to a table that
the other one names, it makes no difference which of them comes first.
-/

namespace TableStore

namespace Statement

/-- The tables that a statement names. -/
def names : Statement → List Bytes
  | createTable definition => [definition.table]
  | insert insertion => [insertion.table]
  | select selection => [selection.table]
  | join query => [query.left, query.right]
  | update change => [change.table]
  | delete deletion => [deletion.table]

/-- The table that a statement writes to, if it is no query. -/
def written? : Statement → Option Bytes
  | createTable definition => some definition.table
  | insert insertion => some insertion.table
  | update change => some change.table
  | delete deletion => some deletion.table
  | select _ | join _ => none

/-- The tables that a text names, of which there are none if it is no statement. -/
def namesIn (text : Bytes) : List Bytes := (parse text).toOption.elim [] names

/-- The table that a text writes to. -/
def writtenBy? (text : Bytes) : Option Bytes := (parse text).toOption.bind written?

end Statement

namespace Database

/-- Two databases with the same tables under some names. -/
def AgreeOn (names : List Bytes) (db other : Database) : Prop :=
  ∀ name ∈ names, db.table? name = other.table? name

/--
An action that depends on no tables but those of some names, and changes none but that of one of
these names.
-/
structure Confined (names : List Bytes) (written : Option Bytes)
    (action : Database → Outcome Database Answer) : Prop where
  frame : ∀ db name, written ≠ some name → (action db).state.table? name = db.table? name
  among : ∀ name ∈ written, name ∈ names
  result : ∀ db other, AgreeOn names db other → (action db).result = (action other).result
  state : ∀ db other, AgreeOn names db other → AgreeOn names (action db).state (action other).state

variable {names others : List Bytes} {written otherWritten : Option Bytes} {name : Bytes}
  {action first second : Database → Outcome Database Answer}

/-- An action that only looks at some tables. -/
theorem confined_of_query (unchanged : ∀ db, (action db).state = db)
    (result : ∀ db other, AgreeOn names db other → (action db).result = (action other).result) :
    -- An action that changes nothing needs no frame, and writes to no table.
    Confined names none action where
  frame db name _ := by rw [unchanged]
  among name member := by simp at member
  result := result
  state db other agree := by rwa [unchanged, unchanged]

/-- An action that puts a table, or none, in the place of another by what it finds there. -/
theorem confined_of_place (place : Option Table → Option Table)
    (answer : Option Table → Except QueryError Answer)
    (state : ∀ db, (action db).state = (place (db.table? name)).elim db (db.put name))
    (result : ∀ db, (action db).result = answer (db.table? name)) :
    Confined [name] (some name) action where
  frame db other different := by
    have apart : other ≠ name := fun same => different (congrArg some same.symm)
    rw [state]
    cases place (db.table? name) with
    | none => rfl
    | some table => exact table?_put_of_ne apart db table
  among other member := by simpa [eq_comm] using member
  result db other agree := by
    rw [result, result, agree name (List.mem_singleton_self name)]
  state db other agree := by
    have same := agree name (List.mem_singleton_self name)
    intro written member
    obtain rfl := List.mem_singleton.1 member
    rw [state, state, same]
    -- Either both databases are left as they are, or both get the same table.
    cases place (other.table? written) with
    | none => exact same
    | some table => simp only [Option.elim_some, table?_put_self]

/-- The table that a schema adds to a database in which its name stands for what is found. -/
def added (schema : Schema) (found : Option Table) : Except QueryError Table :=
  -- Of the database, only the table of the name matters.
  if found.isSome then .error (.tableExists schema.name)
  else match repeated? [] (schema.columns.map (·.name)) with
    | some column => .error (.duplicateColumn column)
    | none => Table.create schema

/-- Whether a table is created, and which, is decided by what its name stands for. -/
theorem create_eq_map (db : Database) (schema : Schema) :
    db.create schema = (added schema (db.table? schema.name)).map (db.put schema.name) := by
  -- The checks come in the same order.
  unfold create added
  cases db.table? schema.name with
  | some table => rfl
  | none =>
    cases repeated? [] (schema.columns.map (·.name)) with
    | some column => rfl
    | none => cases Table.create schema <;> rfl

/-- To create a table depends on its own name, and changes what stands there. -/
theorem confined_runCreate (schema : Schema) :
    Confined [schema.name] (some schema.name) (·.runCreate schema) := by
  -- All of it is told by what stands under the one name.
  refine confined_of_place (fun found => (added schema found).toOption)
    (fun found => (added schema found).map fun _ => .created schema.name) ?_ ?_
  all_goals
    intro db
    simp only [runCreate, create_eq_map]
    cases added schema (db.table? schema.name) <;> rfl

/-- A command depends on the table that it is about, and changes no other. -/
theorem confined_runOn (name : Bytes) (command : TableCommand) :
    Confined [name] (some name) (·.runOn name command) := by
  refine confined_of_place (Option.map fun table => (table.perform command).state)
    (fun found => found.elim (.error (.tableNotFound name)) fun table =>
      -- The table under the name decides on both the reply and what stands there afterwards.
      (table.perform command).result.map (·.toAnswer name)) ?_ ?_
  all_goals
    intro db
    simp only [runOn, act]
    cases db.table? name <;> rfl

/-- A query on one table looks at that table alone. -/
theorem confined_runOn_select (name : Bytes) (projection : Projection)
    (condition : Option Condition) :
    Confined [name] none (·.runOn name (.select projection condition)) :=
  -- The reply depends on the table as that of every command does.
  confined_of_query (fun db => db.state_runOn_select name projection condition)
    (confined_runOn name _).result

/-- A join looks at its two tables alone. -/
theorem confined_runJoin (join : Join) :
    Confined [join.left, join.right] none (·.runJoin join) := by
  refine confined_of_query (fun db => db.state_runJoin join) fun db other agree => ?_
  -- Both tables are the same ones in either database.
  have left := agree join.left (by simp)
  have right := agree join.right (by simp)
  simp only [result_runJoin, Database.join, left, right]

/-- A statement depends on the tables that it names, and changes the one that it writes to. -/
theorem confined_run (statement : Statement) :
    Confined statement.names statement.written? (·.run statement) := by
  -- Definitions write to what they create, queries to nothing, and the others to their table.
  cases statement with
  | createTable definition => exact confined_runCreate definition.schema
  | insert insertion => exact confined_runOn insertion.table _
  | select selection => exact confined_runOn_select selection.table _ _
  | join join => exact confined_runJoin join
  | update update => exact confined_runOn update.table _
  | delete deletion => exact confined_runOn deletion.table _

/-- To log a failure depends on no table. -/
theorem Confined.logFailure (confined : Confined names written action) (request : Bytes) :
    Confined names written fun db => logFailure request (action db) where
  -- Neither the state nor the result is that of the log.
  frame db name different := by
    rw [state_logFailure]
    exact confined.frame db name different
  among := confined.among
  result db other agree := by
    rw [result_logFailure, result_logFailure]
    exact confined.result db other agree
  state db other agree := by
    rw [state_logFailure, state_logFailure]
    exact confined.state db other agree

/-- A text depends on the tables that it names, and changes the one that it writes to. -/
theorem confined_execute (text : Bytes) :
    Confined (Statement.namesIn text) (Statement.writtenBy? text) (·.execute text) := by
  -- To log a failure is put aside, and a text that is no statement does nothing at all.
  unfold execute Statement.namesIn Statement.writtenBy?
  apply Confined.logFailure
  cases Statement.parse text with
  | error cause => exact confined_of_query (fun _ => rfl) fun _ _ _ => rfl
  | ok statement => exact confined_run statement

/-- An action leaves the tables that it does not write to. -/
theorem Confined.agreeOn (confined : Confined names written action)
    (apart : ∀ name ∈ written, name ∉ others) (db : Database) :
    AgreeOn others (action db).state db := by
  intro name member
  apply confined.frame
  -- A table of the others that were written to would be one of both.
  rintro rfl
  exact apart name rfl member

/-- Two actions that are apart leave the same database in either order. -/
theorem Confined.state_comm (confined : Confined names written first)
    (confinedOther : Confined others otherWritten second)
    (apart : ∀ name ∈ written, name ∉ others) (apartOther : ∀ name ∈ otherWritten, name ∉ names)
    (db : Database) : (second (first db).state).state = (first (second db).state).state := by
  have agree := confined.agreeOn apart db
  have agreeOther := confinedOther.agreeOn apartOther db
  apply ext_table?
  intro name
  by_cases writes : otherWritten = some name
  · -- What the second action writes is the same, and the first one writes elsewhere.
    have named := confinedOther.among name writes
    have elsewhere : written ≠ some name := fun same => apart name same named
    calc (second (first db).state).state.table? name
        = (second db).state.table? name := confinedOther.state _ _ agree name named
      _ = (first (second db).state).state.table? name := (confined.frame _ name elsewhere).symm
  · -- The second action leaves what the first one finds or writes there.
    rw [confinedOther.frame _ name writes]
    by_cases writesFirst : written = some name
    · have named := confined.among name writesFirst
      exact (confined.state _ _ agreeOther name named).symm
    · -- A table that neither of the actions writes to stays what it is.
      rw [confined.frame _ name writesFirst, confined.frame _ name writesFirst,
        confinedOther.frame _ name writes]

end Database

/--
If neither of two texts writes to a table that the other one names, each of them is answered alike
whichever comes first, and both orders leave the same database with all its tables and indexes.
-/
theorem execute_independent {first second : Bytes}
    (apart : ∀ table ∈ Statement.writtenBy? first, table ∉ Statement.namesIn second)
    (apartOther : ∀ table ∈ Statement.writtenBy? second, table ∉ Statement.namesIn first)
    (db : Database) :
    (db.execute first).result = ((db.execute second).state.execute first).result ∧
      ((db.execute first).state.execute second).result = (db.execute second).result ∧
      ((db.execute first).state.execute second).state =
        ((db.execute second).state.execute first).state := by
  -- What each text names and writes to is all that counts of it.
  have confined := Database.confined_execute first
  have confinedOther := Database.confined_execute second
  -- Each text finds the tables that it names as the other one has left them.
  refine ⟨?_, ?_, ?_⟩
  · exact (confined.result _ _ (confinedOther.agreeOn apartOther db)).symm
  · exact confinedOther.result _ _ (confined.agreeOn apart db)
  · exact confined.state_comm confinedOther apart apartOther db

/-- An update is answered alike before and after another table is created. -/
theorem execute_independent_update_create :
    ∃ db, db = Database.after [.execute "CREATE TABLE t (a INT PRIMARY KEY)",
        .execute "INSERT INTO t VALUES (1)"] ∧
      (db.execute "UPDATE t SET a = 2 WHERE a = 1").result = .ok (.updated 1) ∧
      ((db.execute "CREATE TABLE s (a INT PRIMARY KEY)").state.execute
        "UPDATE t SET a = 2 WHERE a = 1").result = .ok (.updated 1) ∧
      ((db.execute "UPDATE t SET a = 2 WHERE a = 1").state.execute
        "CREATE TABLE s (a INT PRIMARY KEY)").state =
        ((db.execute "CREATE TABLE s (a INT PRIMARY KEY)").state.execute
          "UPDATE t SET a = 2 WHERE a = 1").state := by
  -- The two hypotheses are about the tables named, which the reader is run for.
  have update : Statement.writtenBy? "UPDATE t SET a = 2 WHERE a = 1" = some (utf8 "t") ∧
      Statement.namesIn "UPDATE t SET a = 2 WHERE a = 1" = [utf8 "t"] := by
    decide +kernel
  have create : Statement.writtenBy? "CREATE TABLE s (a INT PRIMARY KEY)" = some (utf8 "s") ∧
      Statement.namesIn "CREATE TABLE s (a INT PRIMARY KEY)" = [utf8 "s"] := by
    decide +kernel
  have apart : ∀ {one other : Bytes}, one ≠ other → ∀ table ∈ some one, table ∉ [other] := by
    intro one other different table member
    obtain rfl := Option.some.inj member
    exact List.mem_singleton.not.2 different
  obtain ⟨alike, -, same⟩ := execute_independent
    (by rw [update.1, create.2]; exact apart (by decide))
    (by rw [create.1, update.2]; exact apart (by decide))
    (Database.after [.execute "CREATE TABLE t (a INT PRIMARY KEY)",
      .execute "INSERT INTO t VALUES (1)"])
  -- That the update succeeds is seen in one order, and the theorem gives it in the other.
  have updated : ((Database.after [.execute "CREATE TABLE t (a INT PRIMARY KEY)",
      .execute "INSERT INTO t VALUES (1)"]).execute "UPDATE t SET a = 2 WHERE a = 1").result =
      .ok (.updated 1) := by
    decide +kernel
  exact ⟨_, rfl, updated, alike.symm.trans updated, same⟩

end TableStore
