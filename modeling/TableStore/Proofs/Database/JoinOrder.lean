import Mathlib.Data.Multiset.Bind
import TableStore.Proofs.Database.JoinAnswer
import TableStore.Proofs.Statement.NamedColumns

/-!
Joins with their tables exchanged, and conditions with their sides exchanged. Main statement: the
order of the tables changes neither the failure nor the columns of an answer, and its rows only in
their order; the order of the condition changes nothing.
-/

namespace TableStore

/-- Results that fail with one status, or have the same columns and, in some order, the same rows. -/
inductive SameUpToOrder : Except QueryError Relation → Except QueryError Relation → Prop
  | failed {error other : QueryError} (same : error.status = other.status) :
      SameUpToOrder (.error error) (.error other)
  | answered {columns : List Bytes} {rows others : List Row} (permuted : rows.Perm others) :
      SameUpToOrder (.ok ⟨columns, rows⟩) (.ok ⟨columns, others⟩)

namespace Table

variable {left right : Table}

/-- The pairs of rows of two tables are those of the tables exchanged, in another order. -/
theorem map_swap_rowPairs_perm (left right : Table) :
    ((left.rowPairs right).map Prod.swap).Perm (right.rowPairs left) := by
  -- As multisets, the product of the rows is the same either way.
  have exchanged := Multiset.map_swap_product (left.rows.toList : Multiset Row)
    (right.rows.toList : Multiset Row)
  rwa [Multiset.coe_product, Multiset.coe_product, Multiset.map_coe, Multiset.coe_eq_coe]
    at exchanged

/-- Tables that can be joined can be joined in reverse. -/
theorem Joinable.symm (joinable : Joinable left right) : Joinable right left :=
  -- Every requirement is one on both sides, and they are exchanged in pairs.
  ⟨joinable.apart.symm, joinable.rightUnrepeated, joinable.leftUnrepeated, joinable.rightWide,
    joinable.leftWide⟩

/-- A pair is selected by two keys exactly if it is so with everything exchanged. -/
theorem selects_swap (left right : Table) (leftKey rightKey : Bytes)
    (condition : Option Condition) (pair : Row × Row) :
    right.selects left rightKey leftKey condition pair.swap =
      left.selects right leftKey rightKey condition pair := by
  -- The keys are compared in either direction, and a pair has both or lacks one.
  have keys : ((right.cell? pair.2 rightKey).any fun value =>
      (left.cell? pair.1 leftKey).any (value == ·)) =
      (left.cell? pair.1 leftKey).any fun value =>
        (right.cell? pair.2 rightKey).any (value == ·) := by
    cases left.cell? pair.1 leftKey <;> cases right.cell? pair.2 rightKey <;>
      simp [BEq.comm]
  -- The condition may hold in the one row or in the other.
  have conditions : (condition.all fun condition =>
      right.holdsIn condition pair.2 || left.holdsIn condition pair.1) =
      condition.all fun condition =>
        left.holdsIn condition pair.1 || right.holdsIn condition pair.2 := by
    simp only [Bool.or_comm]
  simp only [selects, Prod.fst_swap, Prod.snd_swap, keys, conditions]

/-- What a join shows of a pair of rows, the names being known. -/
def shown (left right : Table) (names : List Bytes) (pair : Row × Row) : Row :=
  (names.filterMap (left.qualifiedNames ++ right.qualifiedNames).idxOf?).map
    (pair.1 ++ pair.2).valueAt

/-- The first of some names that neither of two tables has. -/
def unknown? (left right : Table) (names : List Bytes) : Option Bytes :=
  names.find? fun name => ((left.qualifiedNames ++ right.qualifiedNames).idxOf? name).isNone

/-- The names that two tables have do not depend on their order. -/
theorem unknown?_swap (left right : Table) (names : List Bytes) :
    right.unknown? left names = left.unknown? right names := by
  -- Whether a name is found does not depend on which names come first.
  unfold unknown?
  congr 1
  funext name
  rw [Bool.eq_iff_iff, Option.isNone_iff_eq_none, Option.isNone_iff_eq_none,
    List.idxOf?_eq_none_iff, List.idxOf?_eq_none_iff, List.mem_append, List.mem_append, or_comm]

/-- Rows in either order show the same under names that are known. -/
theorem Joinable.shown_swap (joinable : Joinable left right) {names : List Bytes}
    (known : left.unknown? right names = none) {pair : Row × Row}
    (member : pair ∈ left.rowPairs right) :
    right.shown left names pair.swap = left.shown right names pair := by
  obtain ⟨leftIn, rightIn⟩ := mem_rowPairs.1 member
  have leftWide := joinable.leftWide _ leftIn
  have rightWide := joinable.rightWide _ rightIn
  have exist : ∀ name ∈ names, Names left right name := by
    intro name among
    have found := List.find?_eq_none.1 known name among
    rw [Option.isNone_iff_eq_none, List.idxOf?_eq_none_iff, not_not] at found
    exact names_iff.2 found
  have existSwapped : ∀ name ∈ names, Names right left name := by
    intro name among
    cases exist name among with
    | left present => exact .right present
    | right present => exact .left present
  -- In both orders each name denotes the one value that it has.
  have straight := joinable.apart.forall₂_denotes_named leftWide rightWide exist
  have swapped := joinable.apart.symm.forall₂_denotes_named rightWide leftWide existSwapped
  refine List.right_unique_forall₂' ?_ (swapped.imp fun _ _ => Denotes.symm) straight
  exact fun _ _ _ => joinable.apart.denotes_unique leftWide rightWide

/-- What a join answers that compares two columns, both of which there are. -/
def answerBy (left right : Table) (leftKey rightKey : Bytes) (names : List Bytes)
    (condition : Option Condition) : Except QueryError Relation :=
  -- The first name that is unknown is told, and otherwise all of them have cells.
  match left.unknown? right names with
  | some name => .error (.columnNotFound name (left.name ++ utf8 " JOIN " ++ right.name))
  | none => .ok
    { columns := names
      rows := ((left.rowPairs right).filter (left.selects right leftKey rightKey condition)).map
        (left.shown right names) }

/-- A join by two columns that are found answers with the selected pairs. -/
theorem Joinable.project_restrict_pairs (joinable : Joinable left right) {leftKey rightKey : Bytes}
    {leftPosition rightPosition : Nat} (leftFound : left.columnIndex? leftKey = some leftPosition)
    (rightFound : right.columnIndex? rightKey = some rightPosition) (names : List Bytes)
    (condition : Option Condition) :
    (((left.pairs right leftPosition rightPosition).restrict condition).project
      (.named names)).mapError (.columnNotFound · (left.name ++ utf8 " JOIN " ++ right.name)) =
        left.answerBy right leftKey rightKey names condition := by
  -- The columns are looked up before any pair is shown, so that the first unknown name is told.
  have lookup := mapM_lookup (left.qualifiedNames ++ right.qualifiedNames).idxOf? names
  rw [joinable.restrict_pairs leftFound rightFound, answerBy]
  simp only [Relation.project, Relation.position?, lookup, unknown?]
  cases names.find? fun name =>
      ((left.qualifiedNames ++ right.qualifiedNames).idxOf? name).isNone with
  | some name => rfl
  | none =>
    -- With all names known, each pair is shown by their positions.
    simp only [Bind.bind, Except.bind, Pure.pure, Except.pure, Except.mapError, List.map_map]
    rfl

/-- The answer is the same, but for the order of the rows, with the tables exchanged. -/
theorem Joinable.answerBy_swap (joinable : Joinable left right) (leftKey rightKey : Bytes)
    (names : List Bytes) (condition : Option Condition) :
    SameUpToOrder (left.answerBy right leftKey rightKey names condition)
      (right.answerBy left rightKey leftKey names condition) := by
  rw [answerBy, answerBy, unknown?_swap left right]
  cases known : left.unknown? right names with
  | some name => exact .failed rfl
  | none =>
    refine .answered ?_
    -- The pairs of the one join, exchanged, are those of the other in some order.
    have exchanged := ((left.map_swap_rowPairs_perm right).filter
      (right.selects left rightKey leftKey condition)).map (right.shown left names)
    refine List.Perm.trans (List.Perm.of_eq ?_) exchanged
    rw [List.filter_map, List.map_map]
    have selected : right.selects left rightKey leftKey condition ∘ Prod.swap =
        left.selects right leftKey rightKey condition :=
      funext (left.selects_swap right leftKey rightKey condition)
    rw [selected]
    exact List.map_congr_left fun pair member =>
      (joinable.shown_swap known (List.mem_of_mem_filter member)).symm

/-- Two tables are joined alike, but for the order of the rows, with everything exchanged. -/
theorem Joinable.join_swap (joinable : Joinable left right) {straight exchanged : Join}
    (leftKey : exchanged.keys.2 = straight.keys.1) (rightKey : exchanged.keys.1 = straight.keys.2)
    {names : List Bytes} (asked : straight.projection = .named names)
    (askedToo : exchanged.projection = .named names)
    (condition : exchanged.condition = straight.condition) :
    SameUpToOrder (left.join right straight) (right.join left exchanged) := by
  unfold Table.join joinPosition
  rw [leftKey, rightKey, asked, askedToo, condition]
  -- The key columns are looked up first, each in its own table.
  cases leftFound : left.columnIndex? straight.keys.1 with
  | none =>
    cases right.columnIndex? straight.keys.2 <;> exact .failed rfl
  | some leftPosition =>
    cases rightFound : right.columnIndex? straight.keys.2 with
    | none => exact .failed rfl
    | some rightPosition =>
      simp only [Option.elim_some, Bind.bind, Except.bind]
      rw [joinable.project_restrict_pairs leftFound rightFound,
        joinable.symm.project_restrict_pairs rightFound leftFound]
      exact joinable.answerBy_swap _ _ names _

end Table

namespace Join

variable {projection : Projection} {left right leftColumn rightColumn : Bytes}
  {condition : Option Condition}

/-- A condition in the order of the tables compares its columns in that order. -/
theorem keys_straight (different : left ≠ right) :
    keys ⟨projection, left, right, ⟨left, leftColumn, right, rightColumn⟩, condition⟩ =
      (leftColumn, rightColumn) := by
  -- The two tables are different, so that the condition does not name them in reverse.
  simp [keys, different]

/-- A condition in the reverse order compares them in the order of the tables, too. -/
theorem keys_reversed :
    keys ⟨projection, left, right, ⟨right, rightColumn, left, leftColumn⟩, condition⟩ =
      (leftColumn, rightColumn) := by
  -- Both names of the condition are those of the other table.
  simp [keys]

end Join

namespace Database

variable {db : Database} {left right leftColumn rightColumn : Bytes} {names : List Bytes}
  {condition : Option Condition}

/-- A join fails alike or finds the same rows in some order with the tables exchanged. -/
theorem Sound.join_exchanged (sound : db.Sound) (leftPlain : period ∉ left)
    (rightPlain : period ∉ right) :
    SameUpToOrder
      (db.join ⟨.named names, left, right, ⟨left, leftColumn, right, rightColumn⟩, condition⟩)
      (db.join ⟨.named names, right, left, ⟨left, leftColumn, right, rightColumn⟩, condition⟩) := by
  unfold Database.join
  cases leftFound : db.table? left with
  | none => cases db.table? right <;> exact .failed rfl
  | some leftTable =>
    cases rightFound : db.table? right with
    | none => exact .failed rfl
    | some rightTable =>
      by_cases same : left = right
      · -- A table is not joined with itself in either order.
        simp only [same, beq_self_eq_true, if_true]
        exact .failed rfl
      · have straight : (left == right) = false := beq_false_of_ne same
        have exchanged : (right == left) = false := beq_false_of_ne (Ne.symm same)
        simp only [Option.elim_some, straight, exchanged, Bind.bind, Except.bind]
        have finds : db.Finds ⟨.named names, left, right,
          ⟨left, leftColumn, right, rightColumn⟩, condition⟩ leftTable rightTable :=
            ⟨leftFound, rightFound, same⟩
        refine (finds.joinable sound leftPlain rightPlain).join_swap ?_ ?_ rfl rfl rfl
        · rw [Join.keys_straight same, Join.keys_reversed]
        · rw [Join.keys_straight same, Join.keys_reversed]

/-- A condition may name the two tables of a join in either order. -/
theorem join_turned (db : Database) {projection : Projection} :
    db.join ⟨projection, left, right, ⟨left, leftColumn, right, rightColumn⟩, condition⟩ =
      db.join ⟨projection, left, right, ⟨right, rightColumn, left, leftColumn⟩, condition⟩ := by
  unfold Database.join
  by_cases same : left = right
  · subst same
    cases db.table? left <;> simp [throw, throwThe, MonadExceptOf.throw, Bind.bind, Except.bind]
  · -- Both compare the same columns, and nothing else of a condition counts.
    simp only [Table.join, Join.keys_straight same, Join.keys_reversed]

/-- The reply to a text that is no statement. -/
theorem replyTo_of_parse_error {text : Bytes} {cause : ParseError}
    (parsed : Statement.parse text = .error cause) :
    db.replyTo text = .ofResult (.error (.parse cause text)) := by
  -- A text that is no statement is refused at once, and logged besides.
  rw [replyTo, execute, result_logFailure, parsed]

end Database

/-- Replies of one status that show the same columns and, in some order, the same rows. -/
structure Reply.Permutes (reply other : Reply) : Prop where
  status : reply.status = other.status
  columns : reply.relation.columns = other.relation.columns
  rows : reply.relation.rows.Perm other.relation.rows

/-- Results that are the same up to the order of the rows are replied to in this way. -/
theorem SameUpToOrder.permutes {result other : Except QueryError Relation}
    (same : SameUpToOrder result other) :
    (Reply.ofResult (result.map .joined)).Permutes (.ofResult (other.map .joined)) := by
  cases same with
  -- Refusals have one status and show nothing; answers show what they have.
  | failed status => exact ⟨status, rfl, .refl []⟩
  | answered permuted => exact ⟨rfl, rfl, permuted⟩

/--
A query on two tables fails alike, or shows the same columns and, in some order, the same rows, if
its tables are exchanged, in every database in use and whatever clause stands behind it. And in
either order of the tables the reply is the same if the sides of the compared columns are exchanged.
-/
theorem join_symmetric {rest : Bytes} (ends : EndsWord rest) (requests : List Request)
    (columns : List Bytes) (left leftColumn right rightColumn : Bytes) :
    (∀ text ∈ Grammar.listing columns left right ⟨left, leftColumn, right, rightColumn⟩ rest,
      ∀ other ∈ Grammar.listing columns right left ⟨left, leftColumn, right, rightColumn⟩ rest,
        ((Database.after requests).replyTo text).Permutes
          ((Database.after requests).replyTo other)) ∧
    ∀ tables ∈ [(left, right), (right, left)],
      ∀ text ∈ Grammar.listing columns tables.1 tables.2 ⟨left, leftColumn, right, rightColumn⟩ rest,
        ∀ other ∈
            Grammar.listing columns tables.1 tables.2 ⟨right, rightColumn, left, leftColumn⟩ rest,
          (Database.after requests).replyTo text = (Database.after requests).replyTo other := by
  obtain ⟨outcome, parsed⟩ := Statement.exists_parse_listing columns ends
  have sound := Database.after_sound requests
  cases outcome with
  | error cause =>
    -- Whatever the texts, the reply tells of the same error.
    have refused : ∀ {first second on text}, text ∈ Grammar.listing columns first second on rest →
        (Database.after requests).replyTo text =
          ⟨QueryError.parseStatus cause, cause.message, ⟨[], []⟩⟩ :=
      fun written => Database.replyTo_of_parse_error (parsed written)
    refine ⟨fun text written other otherWritten => ?_,
      fun tables among text written other otherWritten => ?_⟩
    · rw [refused written, refused otherWritten]
      exact ⟨rfl, rfl, .refl []⟩
    · rw [refused written, refused otherWritten]
  | ok condition =>
    have answered : ∀ {first second on text}, text ∈ Grammar.listing columns first second on rest →
        (Database.after requests).replyTo text = .ofResult (((Database.after requests).join
          ⟨.named columns, first, second, on, condition⟩).map .joined) :=
      fun written => Database.replyTo_of_parse_join (parsed written)
    refine ⟨fun text written other otherWritten => ?_,
      fun tables among text written other otherWritten => ?_⟩
    · obtain ⟨leftPlain, rightPlain⟩ := Join.plain_of_parse (parsed written)
      rw [answered written, answered otherWritten]
      exact (sound.join_exchanged leftPlain rightPlain).permutes
    · rw [answered written, answered otherWritten]
      -- In either order of the tables the one condition is straight and the other one turned.
      simp only [List.mem_cons, List.not_mem_nil, or_false] at among
      rcases among with rfl | rfl
      · rw [Database.join_turned]
      · rw [← Database.join_turned]

/-- Of rows with repeated keys each pair is shown, in an order that is that of the tables. -/
theorem join_symmetric_repeated_keys :
    let db := Database.after [.execute "CREATE TABLE a (k INT PRIMARY KEY, v INT)",
      .execute "CREATE TABLE b (k INT PRIMARY KEY, w FLOAT)", .execute "INSERT INTO a VALUES (1, 5)",
      .execute "INSERT INTO a VALUES (2, 5)", .execute "INSERT INTO b VALUES (1, 5)",
      .execute "INSERT INTO b VALUES (2, 5.0)"]
    EndsWord (utf8 ";") ∧
      (db.replyTo "SELECT a.k,b.k FROM a JOIN b ON a.v=b.w;").Permutes
        (db.replyTo "SELECT a.k,b.k FROM b JOIN a ON a.v=b.w;") ∧
      db.replyTo "SELECT a.k,b.k FROM b JOIN a ON a.v=b.w;" =
        db.replyTo "SELECT a.k,b.k FROM b JOIN a ON b.w=a.v;" ∧
      (db.replyTo "SELECT a.k,b.k FROM b JOIN a ON b.w=a.v;").relation.rows =
        [[.integer 1, .integer 1], [.integer 2, .integer 1], [.integer 1, .integer 2],
          [.integer 2, .integer 2]] := by
  intro db
  have ends : EndsWord (utf8 ";") := by decide
  have name : ∀ table : Bytes, isIdentifier table = true →
      table ++ utf8 ".k" ∈ Grammar.listed [] (table ++ utf8 ".k") := by
    -- A qualified name without white space around it is one item of a list.
    intro table isName
    have isReference : Grammar.Reference [] (table ++ period :: utf8 "k") :=
      .qualified ⟨rfl, isName, by simp⟩ ⟨rfl, by decide, by simp⟩
    rw [Grammar.listed]
    exact Language.mem_mul.2 ⟨_, Language.mem_mul.2 ⟨[], blank_nil, _, ⟨rfl, isReference⟩, rfl⟩, [],
      blank_nil, List.append_nil _⟩
  have isList : utf8 "a.k,b.k" ∈ Grammar.separated (Grammar.listed []) ["a.k", "b.k"] :=
    Language.append_mem_mul (Language.append_mem_mul (name "a" (by decide))
      (Set.mem_singleton [comma])) (name "b" (by decide))
  -- What is left is to see that the four texts are written as the theorem asks.
  obtain ⟨exchanged, turned⟩ := join_symmetric ends
    [.execute "CREATE TABLE a (k INT PRIMARY KEY, v INT)",
      .execute "CREATE TABLE b (k INT PRIMARY KEY, w FLOAT)", .execute "INSERT INTO a VALUES (1, 5)",
      .execute "INSERT INTO a VALUES (2, 5)", .execute "INSERT INTO b VALUES (1, 5)",
      .execute "INSERT INTO b VALUES (2, 5.0)"] ["a.k", "b.k"] "a" "v" "b" "w"
  refine ⟨ends, exchanged _ ?_ _ ?_, turned ("b", "a") (by decide) _ ?_ _ ?_, ?_⟩
  · exact Grammar.append_mem_listing isList (by decide)
  · exact Grammar.append_mem_listing isList (by decide)
  · exact Grammar.append_mem_listing isList (by decide)
  · exact Grammar.append_mem_listing isList (by decide)
  · decide +kernel

end TableStore
