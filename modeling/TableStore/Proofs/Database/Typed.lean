import TableStore.Proofs.Database.Atomic
import TableStore.Proofs.Database.JoinAnswer
import TableStore.Proofs.Table.Typed

/-!
Typed databases and what they reply. Main statement: in every database in use all values are of the
kinds that their columns store, and so are the values of every reply, whose rows are as wide as it
has columns.
-/

namespace TableStore

/-- A column of one of two tables, by its qualified name. -/
inductive Table.NamesEither (left right : Table) : Bytes → Column → Prop
  | left {column : Column} (present : column ∈ left.columns) :
      NamesEither left right (left.qualify column.name) column
  | right {column : Column} (present : column ∈ right.columns) :
      NamesEither left right (right.qualify column.name) column

namespace Database

/-- A database all of whose tables are typed. -/
def Typed (db : Database) : Prop :=
  ∀ name table, db.table? name = some table → table.Typed

/--
What a database may reply to a text. A query that succeeds is answered by a typed relation, whose
rows are counted in the message. Any other reply, be it that of a query which is refused, has
neither columns nor rows.
-/
inductive Replies (db : Database) (text : Bytes) : Reply → Prop
  | selected {selection : Selection} {table : Table} {relation : Relation}
      (parsed : Statement.parse text = .ok (.select selection))
      (found : db.table? selection.table = some table)
      (typed : relation.Typed table.NamesColumn) :
      Replies db text
        { status := .ok
          message := "Selected " ++ decimal relation.rows.length ++ " row(s)"
          relation }
  | joined {join : Join} {left right : Table} {relation : Relation}
      (parsed : Statement.parse text = .ok (.join join)) (finds : db.Finds join left right)
      (typed : relation.Typed (left.NamesEither right)) :
      Replies db text
        { status := .ok
          message := "Selected " ++ decimal relation.rows.length ++ " row(s) from JOIN"
          relation }
  | other {reply : Reply} (nothing : reply.relation = { columns := [], rows := [] })
      (unasked : reply.status = .ok → ∀ statement, Statement.parse text = .ok statement →
        statement.kind ≠ .select ∧ statement.kind ≠ .join) :
      Replies db text reply

/-- Every database in use is typed. -/
theorem after_typed (requests : List Request) : (after requests).Typed :=
  -- A new table has no rows, and every command keeps rows as the columns store them.
  tables_induction (fun _ created => Table.create_typed created) Table.Typed.effect requests

end Database

/-! ## Queries as they are read -/

namespace Projection

/-- A list of columns that is read is not empty. -/
theorem ne_nil_of_read? {list : Bytes} {names : List Bytes}
    (read : read? list = some (.named names)) : names ≠ [] := by
  unfold read? at read
  dsimp only at read
  split at read
  · -- The asterisk is no list.
    simp at read
  · split at read
    · -- There is always a part, even of a text without commas.
      obtain rfl := Projection.named.inj (Option.some.inj read)
      exact List.map_eq_nil_iff.not.2 (splitPlain_ne_nil _ _ _)
    · simp at read

/-- The head of a query that is read asks for at least one column. -/
theorem ne_nil_of_readHead? {text rest : Bytes} {projection : Projection}
    (read : readHead? text = some (projection, rest)) : projection ≠ .named [] := by
  rintro rfl
  -- The list between the key words is read as a projection of its own.
  simp only [readHead?, Option.bind_eq_bind, Option.bind_eq_some_iff, Prod.exists, Option.pure_def,
    Option.some.injEq, Prod.mk.injEq] at read
  obtain ⟨_, -, list, _, -, _, isList, _, -, rfl, -⟩ := read
  exact ne_nil_of_read? isList rfl

end Projection

/-- A query on one table asks for at least one column. -/
theorem Selection.ne_nil_of_parse {text : Bytes} {selection : Selection}
    (parsed : Statement.parse text = .ok (.select selection)) :
    selection.projection ≠ .named [] := by
  -- What is read is of the kind that the words tell, and its projection is that of the head.
  obtain ⟨read, readSelection, same⟩ := map_eq_ok_iff.1 (Statement.parseAs_of_parse parsed)
  obtain rfl := Statement.select.inj same
  have parts := elim_eq_ok_iff.1 readSelection
  simp only [read?, Option.bind_eq_bind, Option.bind_eq_some_iff, Prod.exists, Option.pure_def,
    Option.some.injEq] at parts
  obtain ⟨projection, _, readHead, _, _, -, _, -, rfl⟩ := parts
  exact Projection.ne_nil_of_readHead? readHead

/-- A join asks for at least one column. -/
theorem Join.ne_nil_of_parse {text : Bytes} {join : Join}
    (parsed : Statement.parse text = .ok (.join join)) : join.projection ≠ .named [] := by
  -- The projection of a join is that of its head.
  have parts := read?_of_parse parsed
  simp only [read?, Option.bind_eq_bind, Option.bind_eq_some_iff, Prod.exists, Option.pure_def,
    Option.some.injEq] at parts
  obtain ⟨projection, _, readHead, _, _, -, _, -, _, _, -, _, -, _, _, -, _, -, rfl⟩ := parts
  exact Projection.ne_nil_of_readHead? readHead

namespace Database

variable {db : Database} {text : Bytes}

/-! ## Answers -/

/-- A join of typed tables that asks for columns is answered by a typed relation. -/
theorem Joins.typed {join : Join} {reply : Reply} (meaning : db.Joins join reply)
    (succeeded : reply.status = .ok) (sound : db.Sound) (typed : db.Typed)
    (leftPlain : period ∉ join.left) (rightPlain : period ∉ join.right)
    (asked : join.projection ≠ .named []) :
    ∃ left right, db.Finds join left right ∧ reply.relation.Typed (left.NamesEither right) := by
  cases meaning with
  | @answered left right leftKey rightKey finds _ leftPresent _ _ columns exist rows =>
    have joinable := finds.joinable sound leftPlain rightPlain
    refine ⟨left, right, finds, ?_, fun name among => ?_, fun row member => ?_⟩
    · rw [columns]
      cases projection : join.projection with
      | every =>
        -- The left table has at least the column that is compared.
        have shown := List.mem_map_of_mem (f := left.qualify) leftPresent
        exact List.ne_nil_of_mem (List.mem_append_left _ shown)
      | named names =>
        rw [projection] at asked
        exact fun empty => asked (congrArg Projection.named empty)
    · -- A name that the join knows is that of a column of one of the tables.
      cases exist name among with
      | left present =>
        obtain ⟨column, listed, rfl⟩ := List.mem_map.1 present
        exact ⟨column, .left listed⟩
      | right present =>
        obtain ⟨column, listed, rfl⟩ := List.mem_map.1 present
        exact ⟨column, .right listed⟩
    · obtain ⟨pair, paired, denotes⟩ := exists_of_mem_forall₂ rows member
      obtain ⟨leftIn, rightIn⟩ := Table.mem_rowPairs.1 (List.mem_of_mem_filter paired)
      refine denotes.imp fun name value denoted column names => ?_
      -- The name denotes what one of the rows has in the column that it names.
      cases names with
      | left present =>
        have fits := typed _ _ finds.left _ leftIn
        exact fits.stores_of_cell? joinable.leftUnrepeated present
          (joinable.apart.cell?_left denoted)
      | right present =>
        have fits := typed _ _ finds.right _ rightIn
        exact fits.stores_of_cell? joinable.rightUnrepeated present
          (joinable.apart.symm.cell?_left denoted.symm)
  | _ =>
    -- Every refusal has another status.
    simp [Reply.refused] at succeeded

/-- A query that is run answers with what the table selects. -/
theorem result_runOn_select (db : Database) (name : Bytes) (projection : Projection)
    (condition : Option Condition) :
    (db.runOn name (.select projection condition)).result =
      (db.table? name).elim (.error (.tableNotFound name)) fun table =>
        (table.select projection condition).map .selected := by
  -- The query looks at the table of its name, or fails without one.
  rw [runOn, act]
  cases db.table? name with
  | none => rfl
  | some table =>
    -- Either end of the query is told as it is, with the table unchanged.
    simp only [Option.map_some, Option.elim_some, Table.perform]
    cases table.select projection condition <;> rfl

/-- Only a query on a table is answered with a relation. -/
theorem exists_select_of_perform {table : Table} {command : TableCommand} {relation : Relation}
    (answered : (table.perform command).result = .ok (.selected relation)) :
    ∃ projection condition, command = .select projection condition := by
  -- Whatever else succeeds has its own kind of answer.
  cases command with
  | insert values =>
    simp only [Table.perform] at answered
    cases inserted : table.insert values <;> simp [inserted] at answered
  | select projection condition => exact ⟨projection, condition, rfl⟩
  | update assignments condition =>
    simp only [Table.perform] at answered
    cases updated : table.update assignments condition <;>
      simp [updated, Except.map, Table.outcome] at answered
  | remove condition =>
    simp only [Table.perform] at answered
    cases removed : table.remove condition <;>
      simp [removed, Except.map, Table.outcome] at answered

/-- A statement on one table that is no query is answered without columns and rows. -/
theorem relation_of_runOn {name : Bytes} {command : TableCommand}
    (noQuery : ∀ projection condition, command ≠ .select projection condition) {answer : Answer}
    (answered : (db.runOn name command).result = .ok answer) :
    answer.relation = { columns := [], rows := [] } := by
  -- Without such a table there is no success.
  rw [runOn, act] at answered
  cases found : db.table? name with
  | none => simp [found] at answered
  | some table =>
    simp only [found, Option.map_some] at answered
    obtain ⟨tableAnswer, performed, rfl⟩ := map_eq_ok_iff.1 answered
    -- Only a query is answered with a relation, and it was none.
    cases tableAnswer with
    | selected relation =>
      obtain ⟨projection, condition, same⟩ := exists_select_of_perform performed
      exact absurd same (noQuery projection condition)
    | _ => rfl

/-- A table is created without columns and rows to be shown. -/
theorem relation_of_runCreate {schema : Schema} {answer : Answer}
    (answered : (db.runCreate schema).result = .ok answer) :
    answer.relation = { columns := [], rows := [] } := by
  -- A success says nothing but that the table was created.
  unfold runCreate at answered
  cases result : db.create schema with
  | error error => simp [result] at answered
  | ok created =>
    rw [result] at answered
    obtain rfl := Except.ok.inj answered
    rfl

/-- A refusal has neither columns nor rows. -/
theorem replies_error (db : Database) (text : Bytes) (error : QueryError) :
    db.Replies text (Reply.ofResult (.error error)) :=
  -- The status of an error is never that of a success.
  .other rfl fun same => absurd same error.status_ne_ok

/-- What is not a query is replied to without columns and rows. -/
theorem replies_of_run {statement : Statement} (parsed : Statement.parse text = .ok statement)
    (noSelection : statement.kind ≠ .select) (noJoin : statement.kind ≠ .join) :
    db.Replies text (Reply.ofResult (db.run statement).result) := by
  have nothing : ∀ answer, (db.run statement).result = .ok answer →
      answer.relation = { columns := [], rows := [] } := by
    intro answer answered
    -- All statements but the two kinds of query are answered with a message alone.
    cases statement with
    | createTable definition => exact relation_of_runCreate answered
    | insert insertion => exact relation_of_runOn (by simp) answered
    | select selection => exact absurd rfl noSelection
    | join join => exact absurd rfl noJoin
    | update update => exact relation_of_runOn (by simp) answered
    | delete deletion => exact relation_of_runOn (by simp) answered
  cases result : (db.run statement).result with
  | error error => exact db.replies_error text error
  | ok answer =>
    -- The text is read as this statement, and as no other.
    refine .other (nothing answer result) fun _ other parsedOther => ?_
    obtain rfl := Except.ok.inj (parsed.symm.trans parsedOther)
    exact ⟨noSelection, noJoin⟩

/-- A query on one table is replied to by a typed relation, or refused. -/
theorem replies_of_select (sound : db.Sound) (typed : db.Typed) {selection : Selection}
    (parsed : Statement.parse text = .ok (.select selection)) :
    db.Replies text (Reply.ofResult (db.run (.select selection)).result) := by
  -- Without the table the query is refused, and so it is for an unknown column.
  rw [run, result_runOn_select]
  cases found : db.table? selection.table with
  | none => exact db.replies_error text _
  | some table =>
    rw [Option.elim_some]
    cases selected : table.select selection.projection selection.condition with
    | error error => exact db.replies_error text error
    | ok relation =>
      -- The table is indexed and its columns have different names, as in every sound database.
      obtain ⟨-, unrepeated, indexed⟩ := sound _ _ found
      exact .selected parsed found ((typed _ _ found).select indexed unrepeated
        (Selection.ne_nil_of_parse parsed) selected)

/-- A join is replied to by a typed relation, or refused. -/
theorem replies_of_join (sound : db.Sound) (typed : db.Typed) {join : Join}
    (parsed : Statement.parse text = .ok (.join join)) :
    db.Replies text (Reply.ofResult (db.run (.join join)).result) := by
  rw [run, result_runJoin]
  -- A refusal needs nothing else, and a success is told by what the join means.
  cases answered : db.join join with
  | error error => exact db.replies_error text error
  | ok relation =>
    obtain ⟨leftPlain, rightPlain⟩ := Join.plain_of_parse parsed
    have meaning := joins_of_sound sound leftPlain rightPlain
    rw [answered] at meaning
    obtain ⟨left, right, finds, shown⟩ :=
      meaning.typed rfl sound typed leftPlain rightPlain (Join.ne_nil_of_parse parsed)
    -- The status is that of a success, so that the meaning is that of an answer.
    show db.Replies text (.ofResult (.ok (.joined relation)))
    rw [Reply.ofResult_joined]
    exact .joined parsed finds shown

end Database

/--
In every database in use every value is of the kind that its column stores, and each row has exactly
one value for each column. So what is replied to any text, whether or not it is a statement, is
shaped like that as well.
-/
theorem replies_are_typed (requests : List Request) :
    (Database.after requests).Typed ∧
      ∀ text : Bytes, (Database.after requests).Replies text
        (Reply.ofResult ((Database.after requests).execute text).result) := by
  have sound := Database.after_sound requests
  have typed := Database.after_typed requests
  refine ⟨typed, fun text => ?_⟩
  -- A failure is logged besides, and what is no statement is refused at once.
  rw [Database.execute, Database.result_logFailure]
  cases parsed : Statement.parse text with
  | error cause => exact Database.replies_error _ text _
  | ok statement =>
    cases statement with
    | select selection => exact Database.replies_of_select sound typed parsed
    | join join => exact Database.replies_of_join sound typed parsed
    | _ =>
      apply Database.replies_of_run parsed
      · simp [Statement.kind]
      · simp [Statement.kind]

/-- An integer in a column of numbers is shown as the number that is stored. -/
example : Reply.ofResult ((Database.after [.execute "CREATE TABLE t (a INT PRIMARY KEY, b FLOAT)",
      .execute "INSERT INTO t VALUES (1, 2)"]).execute "SELECT b FROM t WHERE a = 1").result =
    ⟨.ok, "Selected 1 row(s)", ⟨["b"], [[.float (Binary64.ofInt 2)]]⟩⟩ := by
  decide +kernel

end TableStore
