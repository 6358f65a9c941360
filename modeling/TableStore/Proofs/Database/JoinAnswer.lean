import TableStore.Proofs.Database.Sound
import TableStore.Proofs.Table.Qualified

/-!
Joins by their meaning: which rows a join pairs and what it shows of them, told by the qualified
names of the columns, and the refusals in their order. Main statement: in every database in use a
join is replied to as it means.
-/

namespace TableStore

/--
The columns that a join compares, of the left and of the right table. A condition that names
exactly the two tables in reverse compares its columns in reverse.
-/
inductive Join.Compares (join : Join) : Bytes → Bytes → Prop
  | reversed (left : join.on.leftTable = join.right) (right : join.on.rightTable = join.left) :
      Compares join join.on.rightColumn join.on.leftColumn
  | straight (straight : ¬(join.on.leftTable = join.right ∧ join.on.rightTable = join.left)) :
      Compares join join.on.leftColumn join.on.rightColumn

/-- The columns that are looked up are those that the condition compares. -/
theorem Join.compares_keys (join : Join) : join.Compares join.keys.1 join.keys.2 := by
  -- The comparison of the names is the same, as a test or as a fact.
  by_cases reversed : join.on.leftTable = join.right ∧ join.on.rightTable = join.left
  · have keys : join.keys = (join.on.rightColumn, join.on.leftColumn) := by
      simp [Join.keys, reversed.1, reversed.2]
    rw [keys]
    exact .reversed reversed.1 reversed.2
  · have keys : join.keys = (join.on.leftColumn, join.on.rightColumn) := by
      simp only [Join.keys, Bool.and_eq_true, beq_iff_eq, if_neg reversed]
    rw [keys]
    exact .straight reversed

namespace Table

/-- The pairs of rows of two tables, all pairs of one left row before those of the next. -/
def rowPairs (left right : Table) : List (Row × Row) :=
  left.rows.toList.flatMap fun leftRow => right.rows.toList.map (leftRow, ·)

/-- Whether a join selects a pair: equal values in two columns, and its condition in either row. -/
def selects (left right : Table) (leftKey rightKey : Bytes) (condition : Option Condition)
    (pair : Row × Row) : Bool :=
  -- A row that has no cell in its column is in no pair.
  ((left.cell? pair.1 leftKey).any fun value => (right.cell? pair.2 rightKey).any (value == ·)) &&
    condition.all fun condition =>
      left.holdsIn condition pair.1 || right.holdsIn condition pair.2

/-- The names under which a join shows what is asked for. -/
def shownNames (left right : Table) : Projection → List Bytes
  | .every => left.columnNames.map left.qualify ++ right.columnNames.map right.qualify
  | .named names => names

/-- Two tables whose rows can be joined and told apart by qualified names. -/
structure Joinable (left right : Table) : Prop where
  apart : Apart left right
  leftUnrepeated : left.columnNames.Nodup
  rightUnrepeated : right.columnNames.Nodup
  leftWide : ∀ row ∈ left.rows.toList, row.length = left.columns.length
  rightWide : ∀ row ∈ right.rows.toList, row.length = right.columns.length

variable {left right : Table}

/-- A pair is one of the pairs of rows exactly if each of its rows is one of its table. -/
theorem mem_rowPairs {pair : Row × Row} :
    pair ∈ left.rowPairs right ↔ pair.1 ∈ left.rows.toList ∧ pair.2 ∈ right.rows.toList := by
  obtain ⟨leftRow, rightRow⟩ := pair
  simp only [rowPairs, List.mem_flatMap, List.mem_map, Prod.mk.injEq]
  constructor
  · -- A pair stands in the block of its left row, at the place of its right row.
    intro paired
    rcases paired with ⟨_, leftIn, _, rightIn, rfl, rfl⟩
    exact ⟨leftIn, rightIn⟩
  · intro both
    rcases both with ⟨leftIn, rightIn⟩
    exact ⟨leftRow, leftIn, rightRow, rightIn, rfl, rfl⟩

/-- The rows of a join without a condition are the pairs of rows with equal keys. -/
theorem rows_pairs_eq (left right : Table) (leftKey rightKey : Nat) :
    (left.pairs right leftKey rightKey).rows =
      ((left.rowPairs right).filter fun pair =>
        pair.1.valueAt leftKey == pair.2.valueAt rightKey).map fun pair => pair.1 ++ pair.2 := by
  rw [rows_pairs, rowPairs, List.filter_flatMap, List.map_flatMap]
  congr 1
  -- For each left row the right rows are filtered before or after they are paired.
  funext leftRow
  rw [List.filter_map, List.map_map]
  rfl

/-- A join selects the pairs of rows with equal keys for which its condition holds. -/
theorem Joinable.restrict_pairs (joinable : Joinable left right) {leftKey rightKey : Bytes}
    {leftPosition rightPosition : Nat} (leftFound : left.columnIndex? leftKey = some leftPosition)
    (rightFound : right.columnIndex? rightKey = some rightPosition)
    (condition : Option Condition) :
    (left.pairs right leftPosition rightPosition).restrict condition =
      { columns := left.qualifiedNames ++ right.qualifiedNames
        rows := ((left.rowPairs right).filter
          (left.selects right leftKey rightKey condition)).map fun pair => pair.1 ++ pair.2 } := by
  have rows := rows_pairs_eq left right leftPosition rightPosition
  -- The keys of rows that are wide enough are at the positions of their columns.
  have keys : ∀ pair ∈ left.rowPairs right,
      left.selects right leftKey rightKey condition pair =
        ((pair.1.valueAt leftPosition == pair.2.valueAt rightPosition) &&
          condition.all fun condition =>
            condition.holdsFor (left.qualifiedNames ++ right.qualifiedNames)
              (pair.1 ++ pair.2)) := by
    intro pair member
    obtain ⟨leftIn, rightIn⟩ := mem_rowPairs.1 member
    have leftWide := joinable.leftWide _ leftIn
    have rightWide := joinable.rightWide _ rightIn
    rw [selects, cell?_eq leftWide, cell?_eq rightWide, leftFound, rightFound]
    simp only [Option.map_some, Option.any_some, joinable.apart.holdsFor_eq leftWide rightWide]
  rw [List.filter_congr keys]
  cases condition with
  | none =>
    simp only [Relation.restrict, Option.all_none, Bool.and_true, ← rows]
    rfl
  | some condition =>
    -- Two filters one after the other are one by both tests.
    rw [Relation.restrict_some, rows]
    simp only [Option.all_some, List.filter_map, List.filter_filter]
    congr 2
    exact List.filter_congr fun pair _ => Bool.and_comm ..

end Table

namespace Reply

/-- The reply that refuses a request: a status and a message, and nothing to be shown. -/
def refused (status : Status) (message : Bytes) : Reply :=
  { status, message, relation := { columns := [], rows := [] } }

/-- The reply to a join that succeeds shows its columns and rows, and counts the rows. -/
theorem ofResult_joined (relation : Relation) :
    ofResult (.ok (.joined relation)) =
      { status := .ok
        message := "Selected " ++ decimal relation.rows.length ++ " row(s) from JOIN"
        relation } := by
  -- The message is put together of the same parts from the left or from the right.
  have message : (Answer.joined relation).message =
      "Selected " ++ decimal relation.rows.length ++ " row(s) from JOIN" := by
    simp only [Answer.message, Answer.rowsMessage, List.append_assoc]
    rfl
  rw [ofResult, message]
  rfl

end Reply

namespace Database

/-- The reply to a statement. -/
def replyTo (db : Database) (text : Bytes) : Reply := .ofResult (db.execute text).result

/-- The two different tables of a join. -/
structure Finds (db : Database) (join : Join) (left right : Table) : Prop where
  left : db.table? join.left = some left
  right : db.table? join.right = some right
  different : join.left ≠ join.right

/--
What a join is replied to with, as it means: one of six refusals, each after those before it, or the
columns that it shows and a row for each pair that it selects.
-/
inductive Joins (db : Database) (join : Join) : Reply → Prop
  | leftMissing (absent : db.table? join.left = none) :
      Joins db join (.refused .tableNotFound ("Table '" ++ join.left ++ "' does not exist"))
  | rightMissing {left : Table} (found : db.table? join.left = some left)
      (absent : db.table? join.right = none) :
      Joins db join (.refused .tableNotFound ("Table '" ++ join.right ++ "' does not exist"))
  | selfJoin {table : Table} (found : db.table? join.left = some table)
      (same : join.left = join.right) :
      Joins db join (.refused .unsupportedStatement
        ("Self-join on table '" ++ join.left ++ "' is not supported"))
  | leftKeyMissing {left right : Table} {leftKey rightKey : Bytes}
      (finds : Finds db join left right) (compares : join.Compares leftKey rightKey)
      (absent : leftKey ∉ left.columnNames) :
      Joins db join (.refused .joinColumnNotFound
        ("Column '" ++ leftKey ++ "' not found in table '" ++ join.left ++ "'"))
  | rightKeyMissing {left right : Table} {leftKey rightKey : Bytes}
      (finds : Finds db join left right) (compares : join.Compares leftKey rightKey)
      (present : leftKey ∈ left.columnNames) (absent : rightKey ∉ right.columnNames) :
      Joins db join (.refused .joinColumnNotFound
        ("Column '" ++ rightKey ++ "' not found in table '" ++ join.right ++ "'"))
  | nameMissing {left right : Table} {leftKey rightKey : Bytes}
      (finds : Finds db join left right) (compares : join.Compares leftKey rightKey)
      (leftPresent : leftKey ∈ left.columnNames) (rightPresent : rightKey ∈ right.columnNames)
      {known : List Bytes} {name : Bytes} {others : List Bytes}
      (asked : join.projection = .named (known ++ name :: others))
      (exist : ∀ other ∈ known, Table.Names left right other)
      (unknown : ¬Table.Names left right name) :
      Joins db join (.refused .columnNotFound ("Column '" ++ name ++ "' not found in table '" ++
        (join.left ++ utf8 " JOIN " ++ join.right) ++ "'"))
  | answered {left right : Table} {leftKey rightKey : Bytes}
      (finds : Finds db join left right) (compares : join.Compares leftKey rightKey)
      (leftPresent : leftKey ∈ left.columnNames) (rightPresent : rightKey ∈ right.columnNames)
      {relation : Relation}
      (columns : relation.columns = left.shownNames right join.projection)
      (exist : ∀ name ∈ relation.columns, Table.Names left right name)
      (rows : List.Forall₂
        (fun pair row =>
          List.Forall₂ (Table.Denotes left right pair.1 pair.2) relation.columns row)
        ((left.rowPairs right).filter (left.selects right leftKey rightKey join.condition))
        relation.rows) :
      Joins db join
        { status := .ok
          message := "Selected " ++ decimal relation.rows.length ++ " row(s) from JOIN"
          relation }

/-- Tables of a sound database can be joined if neither name contains a period. -/
theorem Finds.joinable {db : Database} {join : Join} {left right : Table}
    (finds : db.Finds join left right) (sound : db.Sound) (leftPlain : period ∉ join.left)
    (rightPlain : period ∉ join.right) : left.Joinable right := by
  -- In a sound database a table has the name that it is found under.
  obtain ⟨leftNamed, leftUnrepeated, leftIndexed⟩ := sound _ _ finds.left
  obtain ⟨rightNamed, rightUnrepeated, rightIndexed⟩ := sound _ _ finds.right
  refine ⟨⟨?_, ?_, ?_⟩, leftUnrepeated, rightUnrepeated, leftIndexed.width, rightIndexed.width⟩
  · rwa [leftNamed]
  · rwa [rightNamed]
  · rw [leftNamed, rightNamed]
    exact finds.different

/-- Pairs by two keys that are found are shown as the qualified names say. -/
theorem Finds.joins_by_keys {db : Database} {join : Join} {left right : Table}
    (finds : db.Finds join left right) (joinable : left.Joinable right) {leftKey rightKey : Bytes}
    (compares : join.Compares leftKey rightKey) {leftPosition rightPosition : Nat}
    (leftFound : left.columnIndex? leftKey = some leftPosition)
    (rightFound : right.columnIndex? rightKey = some rightPosition) :
    db.Joins join (.ofResult (((((left.pairs right leftPosition rightPosition).restrict
      join.condition).project join.projection).mapError
        (.columnNotFound · (join.left ++ utf8 " JOIN " ++ join.right))).map .joined)) := by
  have leftPresent := Table.mem_columnNames_iff.2 (Option.isSome_of_eq_some leftFound)
  have rightPresent := Table.mem_columnNames_iff.2 (Option.isSome_of_eq_some rightFound)
  have wide : ∀ pair ∈ (left.rowPairs right).filter
      (left.selects right leftKey rightKey join.condition),
      pair.1.length = left.columns.length ∧ pair.2.length = right.columns.length := by
    intro pair member
    obtain ⟨leftIn, rightIn⟩ := Table.mem_rowPairs.1 (List.mem_of_mem_filter member)
    exact ⟨joinable.leftWide _ leftIn, joinable.rightWide _ rightIn⟩
  -- From here on the pairs are those that the meaning selects.
  rw [joinable.restrict_pairs leftFound rightFound]
  cases asked : join.projection with
  | every =>
    show db.Joins join (.ofResult (.ok (.joined _)))
    rw [Reply.ofResult_joined]
    refine .answered finds compares leftPresent rightPresent ?_ ?_ ?_
    · rw [asked]
      rfl
    · exact fun name member => Table.names_iff.2 member
    · rw [List.forall₂_map_right_iff, List.forall₂_same]
      intro pair member
      obtain ⟨leftWide, rightWide⟩ := wide pair member
      exact Table.forall₂_denotes joinable.leftUnrepeated joinable.rightUnrepeated leftWide
        rightWide
  | named columns =>
    have lookup := mapM_lookup (left.qualifiedNames ++ right.qualifiedNames).idxOf? columns
    simp only [Relation.project, Relation.position?, lookup]
    cases missing : columns.find? fun column =>
        ((left.qualifiedNames ++ right.qualifiedNames).idxOf? column).isNone with
    | some name =>
      -- The first unknown name is told, even if there is no pair to show.
      obtain ⟨unknown, known, others, rfl, exist⟩ := List.find?_eq_some_iff_append.1 missing
      have nameUnknown : ¬Table.Names left right name := by
        rw [Table.names_iff]
        simpa using unknown
      have knownExist : ∀ other ∈ known, Table.Names left right other := by
        intro other among
        rw [Table.names_iff]
        simpa using exist other among
      exact .nameMissing finds compares leftPresent rightPresent asked knownExist nameUnknown
    | none =>
      have exist : ∀ name ∈ columns, Table.Names left right name := by
        intro name among
        have found := List.find?_eq_none.1 missing name among
        rw [Option.isNone_iff_eq_none, List.idxOf?_eq_none_iff, not_not] at found
        exact Table.names_iff.2 found
      show db.Joins join (.ofResult (.ok (.joined _)))
      rw [Reply.ofResult_joined]
      refine .answered finds compares leftPresent rightPresent ?_ exist ?_
      · rw [asked]
        rfl
      · rw [List.map_map, List.forall₂_map_right_iff, List.forall₂_same]
        intro pair member
        obtain ⟨leftWide, rightWide⟩ := wide pair member
        exact joinable.apart.forall₂_denotes_named leftWide rightWide exist

/-- Two tables that are found are joined as the qualified names of their columns say. -/
theorem Finds.joins {db : Database} {join : Join} {left right : Table}
    (finds : db.Finds join left right) (sound : db.Sound) (leftPlain : period ∉ join.left)
    (rightPlain : period ∉ join.right) :
    db.Joins join (.ofResult ((left.join right join).map .joined)) := by
  have joinable := finds.joinable sound leftPlain rightPlain
  have leftNamed : left.name = join.left := (sound _ _ finds.left).named
  have rightNamed : right.name = join.right := (sound _ _ finds.right).named
  have compares := join.compares_keys
  unfold Table.join Table.joinPosition
  rw [leftNamed, rightNamed]
  -- The key columns are looked up first, the left one before the right one.
  cases leftFound : left.columnIndex? join.keys.1 with
  | none =>
    have absent : join.keys.1 ∉ left.columnNames := by
      rw [Table.mem_columnNames_iff, leftFound]
      simp
    exact .leftKeyMissing finds compares absent
  | some leftPosition =>
    have leftPresent := Table.mem_columnNames_iff.2 (Option.isSome_of_eq_some leftFound)
    cases rightFound : right.columnIndex? join.keys.2 with
    | none =>
      have absent : join.keys.2 ∉ right.columnNames := by
        rw [Table.mem_columnNames_iff, rightFound]
        simp
      exact .rightKeyMissing finds compares leftPresent absent
    | some rightPosition => exact finds.joins_by_keys joinable compares leftFound rightFound

/-- A join in a sound database is replied to as the qualified names say. -/
theorem joins_of_sound {db : Database} (sound : db.Sound) {join : Join}
    (leftPlain : period ∉ join.left) (rightPlain : period ∉ join.right) :
    db.Joins join (.ofResult ((db.join join).map .joined)) := by
  unfold Database.join
  cases leftFound : db.table? join.left with
  | none => exact .leftMissing leftFound
  | some left =>
    cases rightFound : db.table? join.right with
    | none => exact .rightMissing leftFound rightFound
    | some right =>
      -- A table could not be told from itself, which is checked once both are found.
      by_cases same : join.left = join.right
      · simp only [same, beq_self_eq_true, if_true]
        rw [← same]
        exact .selfJoin leftFound same
      · have different : (join.left == join.right) = false := beq_false_of_ne same
        simp only [Option.elim_some, different, Bind.bind, Except.bind]
        exact Finds.joins ⟨leftFound, rightFound, same⟩ sound leftPlain rightPlain

/-- A join that is run answers with the rows that it gives. -/
theorem result_runJoin (db : Database) (join : Join) :
    (db.runJoin join).result = (db.join join).map .joined := by
  -- Both ends of a join are told as they are.
  unfold runJoin
  cases db.join join <;> rfl

/-- The reply to a text that is a query on two tables. -/
theorem replyTo_of_parse_join {db : Database} {text : Bytes} {join : Join}
    (parsed : Statement.parse text = .ok (.join join)) :
    db.replyTo text = .ofResult ((db.join join).map .joined) := by
  -- A refusal is logged besides, which does not change what is told of it.
  rw [replyTo, execute, result_logFailure, parsed]
  exact congrArg Reply.ofResult (db.result_runJoin join)

end Database

/-- A name contains no period. -/
theorem period_notMem_of_isIdentifier {name : Bytes} (isName : isIdentifier name = true) :
    period ∉ name := by
  intro member
  -- Every byte of a name is a word byte, and the period is none.
  rw [isIdentifier, Bool.and_eq_true] at isName
  exact absurd (List.all_eq_true.1 isName.2 period member) (by decide)

/-- A text that is a statement is read as one of its kind. -/
theorem Statement.parseAs_of_parse {text : Bytes} {statement : Statement}
    (parsed : parse text = .ok statement) : parseAs statement.kind text = .ok statement := by
  unfold parse at parsed
  cases found : StatementKind.ofText? text with
  | none => simp [found] at parsed
  | some kind =>
    simp only [found] at parsed
    -- Whatever kind the words tell, what is read is of that kind.
    have same : statement.kind = kind := by
      cases kind <;>
        obtain ⟨read, -, rfl⟩ := map_eq_ok_iff.1 parsed <;> rfl
    rw [same]
    exact parsed

/-- A text that is a join is read as one. -/
theorem Join.read?_of_parse {text : Bytes} {join : Join}
    (parsed : Statement.parse text = .ok (.join join)) : Join.read? text = some join := by
  -- What is read is of the kind that the words tell, and a join is of no other.
  obtain ⟨read, readJoin, same⟩ := map_eq_ok_iff.1 (Statement.parseAs_of_parse parsed)
  obtain rfl := Statement.join.inj same
  exact elim_eq_ok_iff.1 readJoin

/-- A join names its tables without periods. -/
theorem Join.plain_of_parse {text : Bytes} {join : Join}
    (parsed : Statement.parse text = .ok (.join join)) :
    period ∉ join.left ∧ period ∉ join.right := by
  -- Both tables are read as identifiers.
  have read := read?_of_parse parsed
  simp only [read?, Option.bind_eq_bind, Option.bind_eq_some_iff, Prod.exists, Option.pure_def,
    Option.some.injEq] at read
  obtain ⟨projection, _, -, left, _, leftRead, _, -, right, _, rightRead, _, -, on, _, -, condition,
    -, rfl⟩ := read
  obtain ⟨-, leftIsName, -⟩ := Token.identifier?_eq_some_iff.1 leftRead
  obtain ⟨-, rightIsName, -⟩ := Token.identifier?_eq_some_iff.1 rightRead
  exact ⟨period_notMem_of_isIdentifier leftIsName, period_notMem_of_isIdentifier rightIsName⟩

/--
A join is replied to, in every database in use, as the qualified names of its columns say: with the
status of a refusal and nothing to be shown, or with the columns and the rows that `Database.Joins`
tells. And no name is confused with another: in two rows of its tables a name denotes one value at
most, even if the names of columns contain periods.
-/
theorem join_means_names {text : Bytes} {join : Join}
    (parsed : Statement.parse text = .ok (.join join)) (requests : List Request) :
    (Database.after requests).Joins join ((Database.after requests).replyTo text) ∧
    ∀ left right : Table, (Database.after requests).Finds join left right →
      ∀ leftRow ∈ left.rows, ∀ rightRow ∈ right.rows, ∀ (name : Bytes) (first second : Value),
        Table.Denotes left right leftRow rightRow name first →
          Table.Denotes left right leftRow rightRow name second → first = second := by
  -- The database is sound, and the parser reads table names without periods.
  have sound := Database.after_sound requests
  obtain ⟨leftPlain, rightPlain⟩ := Join.plain_of_parse parsed
  constructor
  · -- A join that is read is run, and what it gives is told in the reply.
    rw [Database.replyTo_of_parse_join parsed]
    exact Database.joins_of_sound sound leftPlain rightPlain
  · -- The two tables have different names without periods, so their columns are told apart.
    intro left right finds leftRow leftIn rightRow rightIn name first second
    have joinable := finds.joinable sound leftPlain rightPlain
    exact joinable.apart.denotes_unique (joinable.leftWide _ (Array.mem_toList_iff.2 leftIn))
      (joinable.rightWide _ (Array.mem_toList_iff.2 rightIn))

/-- A join in reverse is answered, though a column of one table looks like one of the other. -/
theorem join_means_names_reversed :
    let db := Database.after [.create ⟨"t", [.declare "a" "INT", .declare "s.b" "TEXT"], "a", []⟩,
      .execute "CREATE TABLE s (k INT PRIMARY KEY, b TEXT)",
      .act "t" (.insert [.integer 1, .text "u"]), .execute "INSERT INTO s VALUES (1, 'x')",
      .execute "INSERT INTO s VALUES (2, 'x')"]
    let text : Bytes := "SELECT s.b, t.a FROM t JOIN s ON s.k = t.a WHERE s.b = 'x'"
    let join : Join := ⟨.named ["s.b", "t.a"], "t", "s", ⟨"s", "k", "t", "a"⟩,
      some ⟨"s.b", .text "x"⟩⟩
    Statement.parse text = .ok (.join join) ∧ db.Joins join (db.replyTo text) ∧
      db.replyTo text =
        ⟨.ok, "Selected 1 row(s) from JOIN", ⟨["s.b", "t.a"], [[.text "x", .integer 1]]⟩⟩ := by
  intro db text join
  -- The reader is run on the text, which gives the hypothesis of the theorem.
  have parsed : Statement.parse text = .ok (.join join) := by decide +kernel
  refine ⟨parsed, (join_means_names parsed _).1, ?_⟩
  decide +kernel

end TableStore
