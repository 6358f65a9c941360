import TableStore.Proofs.Database.Atomic
import TableStore.Proofs.Statement.OneLine
import TableStore.Proofs.Table.OneLine

/-!
Databases whose tables are declared on one line. Main statement: a text on one line leaves such a
database again, and is answered with a message on one line.
-/

namespace TableStore

/-- A join of tables asks for columns of each, and then for some of both. -/
theorem Table.OneLine.ends_join {left right : Table} (leftOneLine : left.OneLine)
    (rightOneLine : right.OneLine) {join : Join} (asked : (Statement.join join).OneLine) :
    Ends (fun _ => True) QueryError.OneLine (left.join right join) := by
  have written : ∀ text ∈ (Statement.join join).shown, TableStore.OneLine text := asked
  simp only [Statement.shown, List.cons_append, List.nil_append, List.forall_mem_cons] at written
  obtain ⟨-, -, isLeftColumn, isRightColumn, names⟩ := written
  have missing {column : Bytes} {table : Table} (isName : TableStore.OneLine column)
      (oneLine : table.OneLine) : (QueryError.joinColumnNotFound column table.name).OneLine :=
    QueryError.oneLine_of_quoted (by simp [isName, oneLine.name])
  -- The condition may name the two tables in either order.
  have keys : TableStore.OneLine join.keys.1 ∧ TableStore.OneLine join.keys.2 := by
    unfold Join.keys
    split
    · exact ⟨isRightColumn, isLeftColumn⟩
    · exact ⟨isLeftColumn, isRightColumn⟩
  refine Ends.elim_bind (missing keys.1 leftOneLine) fun leftKey _ => ?_
  refine Ends.elim_bind (missing keys.2 rightOneLine) fun rightKey _ => ?_
  refine (Relation.ends_project _ join.projection).mapError fun column among => ?_
  have between : TableStore.OneLine (utf8 " JOIN ") := by decide
  exact QueryError.oneLine_of_quoted (by
    simp [names column among, leftOneLine.name, rightOneLine.name, between])

namespace Database

/-- All tables of a database are declared on one line. -/
def OneLine (db : Database) : Prop := ∀ name table, db.table? name = some table → table.OneLine

variable {db changed : Database}

/-- Without tables, nothing is declared. -/
theorem oneLine_empty : empty.OneLine := fun name table found => by simp at found

/-! ## States -/

/-- A new table declares what it was asked for. -/
theorem OneLine.adds {schema : Schema} (oneLine : db.OneLine)
    (declared : ∀ shown ∈ schema.shown, TableStore.OneLine shown)
    (adds : Adds schema db changed) : changed.OneLine := by
  intro name table found
  by_cases same : name = schema.name
  · subst same
    obtain ⟨added, isNew, -, declares⟩ := adds.added
    obtain rfl := Option.some.inj (found.symm.trans isNew)
    intro shown isShown
    -- A unique column is named once, if it is named at all.
    refine declared shown ?_
    simpa [declares, Schema.shown] using isShown
  · exact oneLine name table (adds.others name same ▸ found)

/-- A table declares the same whatever rows it has. -/
theorem OneLine.changesRows {name : Bytes} (oneLine : db.OneLine)
    (changes : ChangesRows name db changed) : changed.OneLine := by
  intro other table found
  -- The table acted on is declared as before, and every other is the same.
  by_cases same : other = name
  · subst same
    obtain ⟨before, after, present, isNew, sameButRows⟩ := changes.rows
    obtain rfl := Option.some.inj (found.symm.trans isNew)
    have declared := oneLine other before present
    rwa [Table.OneLine, ← sameButRows.declared] at declared
  · exact oneLine other table (changes.others other same ▸ found)

/-- The columns are declared as the statement spells them, with types in capitals. -/
theorem oneLine_schema {definition : TableDefinition}
    (asked : (Statement.createTable definition).OneLine) :
    ∀ shown ∈ definition.schema.shown, TableStore.OneLine shown := by
  -- Both sides are about the same list of texts, but for the capitals of the types.
  have written : ∀ text ∈ (Statement.createTable definition).shown, TableStore.OneLine text := asked
  simp only [Statement.shown, List.cons_append, List.forall_mem_cons, List.forall_mem_append,
    List.forall_mem_flatMap] at written
  simpa only [Schema.shown, TableDefinition.schema, List.flatMap_map, Column.declare,
    List.cons_append, List.forall_mem_cons, List.forall_mem_append, List.forall_mem_flatMap,
    oneLine_upper_iff] using written

/-- A statement on one line leaves tables that are declared on one line. -/
theorem OneLine.run (oneLine : db.OneLine) {statement : Statement} (asked : statement.OneLine) :
    (db.run statement).state.OneLine := by
  -- A refusal leaves the database as it was, and a success does what its kind allows.
  have atomic := run_allOrNothing db statement
  cases result : (db.run statement).result with
  | error error => rwa [(atomic.refused error result).1]
  | ok answer =>
    have allowed := (atomic.done answer result).2
    cases statement with
    | createTable definition => exact oneLine.adds (oneLine_schema asked) allowed
    | insert insertion => exact oneLine.changesRows allowed
    | update update => exact oneLine.changesRows allowed
    | delete deletion => exact oneLine.changesRows allowed
    | select selection => exact allowed.symm ▸ oneLine
    | join join => exact allowed.symm ▸ oneLine

/-! ## Answers -/

/-- The repeated column name of a list is one of the list. -/
theorem mem_of_repeated? {seen names : List Bytes} {name : Bytes}
    (repeats : repeated? seen names = some name) : name ∈ names := by
  -- The walk stops at the first name that it has seen before.
  fun_induction repeated? seen names with
  | case1 => simp at repeats
  | case2 seen first names again =>
    obtain rfl := Option.some.inj repeats
    exact List.mem_cons_self
  | case3 seen first names fresh ih => exact List.mem_cons_of_mem first (ih repeats)

/-- An answer or an error that is told on one line. -/
abbrev TellsOneLine (result : Except QueryError Answer) : Prop :=
  Ends (fun answer => TableStore.OneLine answer.message) QueryError.OneLine result

/-- A table is added, or something of its declaration is told. -/
theorem ends_create (db : Database) {schema : Schema}
    (declared : ∀ shown ∈ schema.shown, TableStore.OneLine shown) :
    Ends (fun _ => True) QueryError.OneLine (db.create schema) := by
  have isName : TableStore.OneLine schema.name := declared _ (by simp [Schema.shown])
  -- The checks are gone through in their order.
  unfold create
  cases db.table? schema.name with
  | some table =>
    show QueryError.OneLine (.tableExists schema.name)
    exact QueryError.oneLine_of_quoted (by simp [isName])
  | none =>
    cases repeats : repeated? [] (schema.columns.map (·.name)) with
    | some column =>
      obtain ⟨repeated, among, rfl⟩ := List.mem_map.1 (mem_of_repeated? repeats)
      have isColumn : repeated.name ∈ schema.shown :=
        List.mem_append_right _ (List.mem_flatMap.2 ⟨repeated, among, by simp⟩)
      show QueryError.OneLine (.duplicateColumn repeated.name)
      exact QueryError.oneLine_of_quoted (by simp [declared _ isColumn])
    | none => exact (Table.ends_create declared).bind fun _ _ _ => trivial

/-- A new table is told by its name. -/
theorem ends_runCreate (db : Database) {schema : Schema}
    (declared : ∀ shown ∈ schema.shown, TableStore.OneLine shown) :
    TellsOneLine (db.runCreate schema).result := by
  -- The name of the table is the first of the texts that are shown.
  have isName : TableStore.OneLine schema.name := declared _ (by simp [Schema.shown])
  have ends := db.ends_create declared
  unfold runCreate
  cases result : db.create schema with
  | error error => rwa [result] at ends
  | ok created =>
    have start : TableStore.OneLine (utf8 "Table '") := by decide
    have last : TableStore.OneLine (utf8 "' created successfully") := by decide
    simp [TellsOneLine, Ends, Answer.message, start, last, isName]

/-- The rows that a statement is about are counted. -/
theorem oneLine_rowsMessage {verb : Bytes} (isWord : TableStore.OneLine verb) (count : Nat) :
    TableStore.OneLine (Answer.rowsMessage verb count) := by
  -- All words around the number are fixed.
  have between : TableStore.OneLine (utf8 " ") := by decide
  have last : TableStore.OneLine (utf8 " row(s)") := by decide
  simp [Answer.rowsMessage, isWord, between, last, oneLine_decimal]

/-- A table that answers on one line is spoken for on one line. -/
theorem oneLine_toAnswer {name : Bytes} (isName : TableStore.OneLine name) (answer : TableAnswer) :
    TableStore.OneLine (answer.toAnswer name).message := by
  -- An insertion is told with the name, and everything else with a number.
  cases answer with
  | inserted =>
    have start : TableStore.OneLine (utf8 "Inserted 1 row into '") := by decide
    have last : TableStore.OneLine (utf8 "'") := by decide
    simp [TableAnswer.toAnswer, Answer.message, start, last, isName]
  | selected relation => exact oneLine_rowsMessage (by decide) _
  | updated count => exact oneLine_rowsMessage (by decide) _
  | removed count => exact oneLine_rowsMessage (by decide) _

/-- A statement on one table names it, and is refused as the table refuses it. -/
theorem OneLine.ends_runOn (oneLine : db.OneLine) {name : Bytes} {command : TableCommand}
    (isName : TableStore.OneLine name) (asked : command.OneLine) :
    TellsOneLine (db.runOn name command).result := by
  -- Either there is no table of the name, or the table answers.
  unfold runOn
  cases acted : db.act name command with
  | none => exact QueryError.oneLine_of_quoted (by simp [isName])
  | some outcome =>
    obtain ⟨table, found, rfl⟩ := act_eq_some_iff.1 acted
    exact ((oneLine name table found).ends_perform asked).map fun answer _ =>
      oneLine_toAnswer isName answer

/-- A join needs two different tables, both of which there are. -/
theorem OneLine.ends_join (oneLine : db.OneLine) {join : Join}
    (asked : (Statement.join join).OneLine) :
    Ends (fun _ => True) QueryError.OneLine (db.join join) := by
  have written : ∀ text ∈ (Statement.join join).shown, TableStore.OneLine text := asked
  have isLeft : TableStore.OneLine join.left := written _ (by simp [Statement.shown])
  have isRight : TableStore.OneLine join.right := written _ (by simp [Statement.shown])
  -- Of a table that is missing, only the name is quoted.
  have missing {name : Bytes} (isName : TableStore.OneLine name) :
      (QueryError.tableNotFound name).OneLine :=
    QueryError.oneLine_of_quoted (by simp [isName])
  refine Ends.elim_bind (missing isLeft) fun left leftFound => ?_
  refine Ends.elim_bind (missing isRight) fun right rightFound => ?_
  dsimp only
  -- A table joined to itself is refused before anything is said of columns.
  split
  · show QueryError.OneLine (.selfJoin join.left)
    exact QueryError.oneLine_of_quoted (by simp [isLeft])
  · exact (oneLine _ left leftFound).ends_join (oneLine _ right rightFound) asked

/-- The rows of a join are counted as those of a query. -/
theorem OneLine.ends_runJoin (oneLine : db.OneLine) {join : Join}
    (asked : (Statement.join join).OneLine) : TellsOneLine (db.runJoin join).result := by
  have ends := oneLine.ends_join asked
  unfold runJoin
  cases result : db.join join with
  | error error => rwa [result] at ends
  | ok relation =>
    -- The words behind the number are one more fixed text.
    have counted : TableStore.OneLine (Answer.rowsMessage "Selected" relation.rows.length) :=
      oneLine_rowsMessage (by decide) _
    have last : TableStore.OneLine (utf8 " from JOIN") := by decide
    exact oneLine_append_iff.2 ⟨counted, last⟩

/-- A statement on one line is answered on one line. -/
theorem OneLine.ends_run (oneLine : db.OneLine) {statement : Statement}
    (asked : statement.OneLine) : TellsOneLine (db.run statement).result := by
  -- Each kind of statement has its texts, of which the first is the name of its table.
  cases statement with
  | createTable definition => exact ends_runCreate db (oneLine_schema asked)
  | insert insertion =>
    obtain ⟨isName, written⟩ := List.forall_mem_cons.1 asked
    exact oneLine.ends_runOn isName written
  | select selection =>
    obtain ⟨isName, names⟩ := List.forall_mem_cons.1 asked
    exact oneLine.ends_runOn isName names
  | join join => exact oneLine.ends_runJoin asked
  | update update =>
    obtain ⟨isName, assigned⟩ := List.forall_mem_cons.1 asked
    exact oneLine.ends_runOn isName assigned
  | delete deletion =>
    obtain ⟨isName, nothing⟩ := List.forall_mem_cons.1 asked
    exact oneLine.ends_runOn isName nothing

/-- A text on one line keeps the tables on one line and is answered so. -/
theorem OneLine.execute (oneLine : db.OneLine) {text : Bytes} (written : TableStore.OneLine text) :
    (db.execute text).state.OneLine ∧
      TableStore.OneLine (Reply.ofResult (db.execute text).result).message := by
  -- A refusal is logged without any effect on what is left and answered.
  have both : ∀ outcome : Outcome Database Answer,
      outcome.state.OneLine ∧ TellsOneLine outcome.result →
        (logFailure "Statement" outcome).state.OneLine ∧
          TableStore.OneLine (Reply.ofResult (logFailure "Statement" outcome).result).message := by
    rintro outcome ⟨kept, tells⟩
    rw [state_logFailure, result_logFailure]
    refine ⟨kept, ?_⟩
    cases result : outcome.result <;> rwa [result] at tells
  refine both _ ?_
  have parsed := Statement.ends_parse written
  cases isStatement : Statement.parse text with
  | error cause =>
    rw [isStatement] at parsed
    exact ⟨oneLine, parsed⟩
  | ok statement =>
    rw [isStatement] at parsed
    exact ⟨oneLine.run parsed, oneLine.ends_run parsed⟩

end Database

end TableStore
