import TableStore.Database.Execute

/-!
Histories: the requests that a table or a database has served, and the state they lead to. Main
statement: what holds at the start and outlives every request holds after every history.
-/

namespace TableStore

/-- Whatever can be asked of a database. -/
inductive Request where
  | execute (text : Bytes)
  | create (schema : Schema)
  | act (table : Bytes) (command : TableCommand)

namespace Table

/-- The table after commands, whether or not they succeed. -/
def after (table : Table) (commands : List TableCommand) : Table :=
  commands.foldl (fun table command => (table.perform command).state) table

/-- What every command keeps is kept by all of them. -/
theorem after_induction {holds : Table → Prop} {table : Table} (start : holds table)
    (step : ∀ table command, holds table → holds (table.perform command).state)
    (commands : List TableCommand) : holds (table.after commands) := by
  -- The commands are taken from the front, so the table that they start from stays quantified over.
  induction commands generalizing table with
  | nil => exact start
  | cons command commands ih => exact ih (step table command start)

end Table

namespace Database

/-- The database after a request; a command to a table that there is not changes nothing. -/
def serve (db : Database) : Request → Database
  | .execute text => (db.execute text).state
  | .create schema => (db.createTable schema).state
  | .act table command => (db.act table command).elim db (·.state)

/-- The database after requests, from the one without tables on. -/
def after (requests : List Request) : Database := requests.foldl serve empty

/-- What holds of the database without tables and outlives every request always holds. -/
theorem after_induction {holds : Database → Prop} (start : holds empty)
    (step : ∀ db request, holds db → holds (serve db request)) (requests : List Request) :
    holds (after requests) := by
  -- The first request leads to another database, so the claim is about runs from any of them.
  have general : ∀ db, holds db → holds (requests.foldl serve db) := by
    induction requests with
    | nil => exact fun _ held => held
    | cons request requests ih => exact fun db held => ih _ (step db request held)
  exact general empty start

end Database

end TableStore
