import TableStore.Error
import TableStore.Proofs.Occurrences
import TableStore.Proofs.Result
import TableStore.Proofs.Statement.Grammar
import TableStore.Statement.Parse

/-!
Words that would join a second condition to a bare value. Main statements: a statement is refused
for such a word exactly if it stands in the value outside quoted runs, so that an apostrophe in
front of the word hides it.
-/

namespace TableStore

open Grammar

variable {kind : StatementKind} {text clause token closing : Bytes} {column : Bytes}

/-- The condition of a statement, if it has one. -/
def Statement.condition? : Statement → Option Condition
  | .select query => query.condition
  | .join query => query.condition
  | .update change => change.condition
  | .delete removal => removal.condition
  | .createTable _ | .insert _ => none

/-- What stands behind the head of a statement that may end in a condition. -/
def StatementKind.clause? (kind : StatementKind) (text : Bytes) : Option Bytes :=
  -- The heads are those that the readers take, up to the place of the word WHERE.
  match kind with
  | .createTable | .insert => none
  | .select => do
    let (_, rest) ← Projection.readHead? text
    let (_, rest) ← Token.identifier? rest
    return rest
  | .join => do
    let (_, rest) ← Projection.readHead? text
    let (_, rest) ← Token.identifier? rest
    let rest ← Token.keyword? "JOIN" ((Token.keyword? "INNER" rest).getD rest)
    let (_, rest) ← Token.identifier? rest
    let rest ← Token.keyword? "ON" rest
    let (_, rest) ← JoinCondition.read? rest
    return rest
  | .update => do
    let (_, _, rest) ← Update.readHead? text
    return rest
  | .delete => do
    let rest ← Token.keyword? "DELETE" text
    let rest ← Token.keyword? "FROM" rest
    let (_, rest) ← Token.identifier? rest
    return rest

/-- The column that a condition compares, from the word WHERE up to the value. -/
def Grammar.conditionHead (column : Bytes) : Language UInt8 :=
  spaces * word "WHERE" * gap * Grammar.column [] column * spaces * symbol equalsSign * spaces

/-- A token and the end of the statement, which has a semicolon of its own if the token has one. -/
def Grammar.tokenAndEnd (token : Bytes) : Language UInt8 :=
  {text | ∃ closing, text = token ++ closing ∧ Ending closing ∧
    (token.getLast? = some semicolon → semicolon ∈ closing)}

/--
A statement compares a column with a token: the token is all that stands behind the equals sign of
its condition, without the white space around it and the end of the statement.
-/
structure Compares (text column token : Bytes) : Prop where
  nonempty : token ≠ []
  starts : token.head?.any isSpace = false
  ends : token.getLast?.any isSpace = false
  written : ∃ kind clause, StatementKind.ofText? text = some kind ∧
    kind.clause? text = some clause ∧ clause ∈ Grammar.conditionHead column * tokenAndEnd token

/-! ## Statements by their clauses -/

/-- A statement is read from its clause, unless an assignment in front of the clause is none. -/
theorem parseAs_of_clause? (found : kind.clause? text = some clause) :
    (∃ build : Option Condition → Statement,
      (∀ condition, (build condition).condition? = condition) ∧
        Statement.parseAs kind text =
          kind.expect ((Condition.readClause? clause).map build)) ∨
      ∃ item, Statement.parseAs kind text = .error (.setClause item) := by
  cases kind with
  | createTable => simp [StatementKind.clause?] at found
  | insert => simp [StatementKind.clause?] at found
  | select =>
    simp only [StatementKind.clause?, Option.bind_eq_bind, Option.bind_eq_some_iff, Prod.exists,
      Option.pure_def, Option.some.injEq] at found
    obtain ⟨projection, _, readHead, table, rest, readTable, rfl⟩ := found
    refine .inl ⟨fun condition => .select ⟨table, projection, condition⟩, fun _ => rfl, ?_⟩
    rw [Statement.parseAs, Selection.parse, Selection.read?]
    simp only [readHead, readTable, Option.bind_eq_bind, Option.bind_some, Option.pure_def]
    cases Condition.readClause? rest <;> rfl
  | join =>
    simp only [StatementKind.clause?, Option.bind_eq_bind, Option.bind_eq_some_iff, Prod.exists,
      Option.pure_def, Option.some.injEq] at found
    obtain ⟨projection, _, readHead, left, _, readLeft, _, readJoin, right, _, readRight, _, readOn,
      on, rest, readCondition, rfl⟩ := found
    refine .inl ⟨fun condition => .join ⟨projection, left, right, on, condition⟩, fun _ => rfl, ?_⟩
    rw [Statement.parseAs, Join.parse, Join.read?]
    simp only [readHead, readLeft, readJoin, readRight, readOn, readCondition, Option.bind_eq_bind,
      Option.bind_some, Option.pure_def]
    cases Condition.readClause? rest <;> rfl
  | update =>
    simp only [StatementKind.clause?, Option.bind_eq_bind, Option.bind_eq_some_iff, Prod.exists,
      Option.pure_def, Option.some.injEq] at found
    obtain ⟨table, assigned, rest, readHead, rfl⟩ := found
    -- The assignments are examined before the clause.
    cases parsed : (splitOutsideQuotes comma assigned).mapM Assignment.parse with
    | error error =>
      obtain ⟨item, -, failed⟩ := exists_of_mapM_eq_error parsed
      obtain rfl : .setClause (trim item) = error := by
        rw [Assignment.parse] at failed
        cases read : Assignment.read? (trim item) <;> simp_all
      refine .inr ⟨trim item, ?_⟩
      rw [Statement.parseAs, Update.parse, readHead]
      simp [StatementKind.expect, parsed, Bind.bind, Except.bind, Functor.map, Except.map]
    | ok assignments =>
      refine .inl ⟨fun condition => .update ⟨table, assignments, condition⟩, fun _ => rfl, ?_⟩
      rw [Statement.parseAs, Update.parse, readHead]
      simp only [StatementKind.expect, parsed, Option.elim_some, Bind.bind, Except.bind]
      cases Condition.readClause? rest <;> rfl
  | delete =>
    simp only [StatementKind.clause?, Option.bind_eq_bind, Option.bind_eq_some_iff, Prod.exists,
      Option.pure_def, Option.some.injEq] at found
    obtain ⟨_, readDelete, _, readFrom, table, rest, readTable, rfl⟩ := found
    refine .inl ⟨fun condition => .delete ⟨table, condition⟩, fun _ => rfl, ?_⟩
    rw [Statement.parseAs, Deletion.parse, Deletion.read?]
    simp only [readDelete, readFrom, readTable, Option.bind_eq_bind, Option.bind_some,
      Option.pure_def]
    cases Condition.readClause? rest <;> rfl

/-- A statement with a condition has a clause from which the condition is read. -/
theorem exists_clause?_of_parseAs {statement : Statement} {condition : Condition}
    (parsed : Statement.parseAs kind text = .ok statement)
    (found : statement.condition? = some condition) :
    ∃ clause, kind.clause? text = some clause ∧
      Condition.readClause? clause = some (some condition) := by
  -- It is enough that the head leaves a clause, for then the statement is read by way of it.
  suffices reached : ∃ clause, kind.clause? text = some clause by
    obtain ⟨clause, reached⟩ := reached
    refine ⟨clause, reached, ?_⟩
    -- The statement is read from the clause, or else an assignment is refused before.
    rcases parseAs_of_clause? reached with ⟨build, conditionOf, same⟩ | ⟨item, failed⟩
    · rw [parsed] at same
      obtain ⟨read, readsClause, rfl⟩ := Option.map_eq_some_iff.1 (elim_eq_ok_iff.1 same.symm)
      -- The condition of the statement is the one that its clause is read as.
      rw [readsClause, ← found, conditionOf]
    · simp [parsed] at failed
  -- Each kind has a reader of its own, and its success gives the parts in front of the clause.
  cases kind with
  -- A definition and an insertion have no condition.
  | createTable =>
    obtain ⟨_, -, rfl⟩ := map_eq_ok_iff.1 parsed
    simp [Statement.condition?] at found
  | insert =>
    obtain ⟨_, -, rfl⟩ := map_eq_ok_iff.1 parsed
    simp [Statement.condition?] at found
  | select =>
    -- Of a query, the clause is what stands behind its table.
    obtain ⟨selection, parsed, -⟩ := map_eq_ok_iff.1 parsed
    have read : Selection.read? text = some selection := elim_eq_ok_iff.1 parsed
    simp only [Selection.read?, Option.bind_eq_bind, Option.bind_eq_some_iff, Prod.exists] at read
    obtain ⟨projection, _, readHead, table, rest, readTable, -⟩ := read
    exact ⟨rest, by simp [StatementKind.clause?, readHead, readTable]⟩
  | join =>
    obtain ⟨join, parsed, -⟩ := map_eq_ok_iff.1 parsed
    have read : Join.read? text = some join := elim_eq_ok_iff.1 parsed
    simp only [Join.read?, Option.bind_eq_bind, Option.bind_eq_some_iff, Prod.exists] at read
    -- Of a join, it is what stands behind the two columns that are compared.
    obtain ⟨projection, _, readHead, left, _, readLeft, _, readJoin, right, _, readRight, _, readOn,
      on, rest, readCondition, -⟩ := read
    exact ⟨rest, by simp [StatementKind.clause?, readHead, readLeft, readJoin, readRight, readOn,
      readCondition]⟩
  | update =>
    obtain ⟨update, parsed, -⟩ := map_eq_ok_iff.1 parsed
    -- Of an update, it is what the assignments are read in front of.
    obtain ⟨⟨table, assigned, rest⟩, readHead, -⟩ := bind_eq_ok_iff.1 parsed
    exact ⟨rest, by simp [StatementKind.clause?, elim_eq_ok_iff.1 readHead]⟩
  | delete =>
    obtain ⟨deletion, parsed, -⟩ := map_eq_ok_iff.1 parsed
    have read : Deletion.read? text = some deletion := elim_eq_ok_iff.1 parsed
    simp only [Deletion.read?, Option.bind_eq_bind, Option.bind_eq_some_iff, Prod.exists] at read
    -- Of a deletion, it is what stands behind its table again.
    obtain ⟨_, readDelete, _, readFrom, table, rest, readTable, -⟩ := read
    exact ⟨rest, by simp [StatementKind.clause?, readDelete, readFrom, readTable]⟩

/-! ## Bare values -/

/-- A bare value is compound exactly if one of the two words stands in it outside quoted runs. -/
theorem isCompound_iff (bare : token.head?.any isQuote = false) :
    Condition.isCompound token = true ↔
      ∃ word ∈ compounding, ∃ offset, StandsOutside word token offset := by
  -- Both words are searched for as the words that they are.
  have isAnd : isIdentifier "AND" = true := by decide
  have isOr : isIdentifier "OR" = true := by decide
  simp [Condition.isCompound, compounding, bare, hasWord_iff isAnd, hasWord_iff isOr]

/-- A clause with a bare value is read unless the value is compound. -/
theorem readClause?_of_mem_token (nonempty : token ≠ [])
    (starts : token.head?.any isSpace = false) (ends : token.getLast?.any isSpace = false)
    (bare : token.head?.any isQuote = false)
    (written : clause ∈ Grammar.conditionHead column * tokenAndEnd token) :
    Condition.readClause? clause =
      if Condition.isCompound token then none
      else some (some { column, value := readLiteral token }) := by
  simp only [Grammar.conditionHead, mul_assoc] at written
  -- Token after token is read off, up to the value that ends the statement.
  obtain ⟨rest, isRest, readWord⟩ := exists_keyword? (by decide) apart_gap_mul written
  obtain ⟨rest, isRest, readColumn⟩ := exists_readColumn? (mem_spaces_mul_of_gap isRest)
  obtain ⟨rest, isRest, readEquals⟩ := exists_symbol? rfl isRest
  obtain ⟨white, blank, _, ⟨closing, rfl, closes, own⟩, rfl⟩ := Language.mem_mul.1 isRest
  have readValue := Token.value?_append_ending blank nonempty starts ends bare closes own
  have atEnd := Token.isAtEnd_iff.2 closes
  cases compound : Condition.isCompound token <;>
    simp [Condition.readClause?, Condition.read?, readWord, readColumn, readEquals, readValue,
      compound, atEnd]

/-- A condition that is read compares its column with a token that stands for its value. -/
theorem exists_token_of_readClause? {condition : Condition}
    (read : Condition.readClause? clause = some (some condition)) :
    ∃ token, token ≠ [] ∧ token.head?.any isSpace = false ∧ token.getLast?.any isSpace = false ∧
      clause ∈ Grammar.conditionHead condition.column * tokenAndEnd token ∧
      condition.value = readLiteral token ∧
      (token.head?.any isQuote = false → Condition.isCompound token = false) := by
  have written : clause ∈
      Grammar.conditionHead condition.column * valueAndEnd [] condition.value := by
    simpa only [Grammar.conditionHead, Grammar.condition, mul_assoc] using
      mem_of_readClause?_some read
  obtain ⟨front, isFront, behind, isBehind, rfl⟩ := Language.mem_mul.1 written
  obtain ⟨name, value⟩ := condition
  cases isBehind with
  | @quoted inside run closing isRun closes =>
    -- A quoted run is the token, and its quotes are its ends.
    obtain ⟨quote, isQuoted, -, rfl⟩ := isRun
    have last : (quote :: (inside ++ [quote])).getLast? = some quote := by
      rw [← List.cons_append, List.getLast?_concat]
    refine ⟨quote :: (inside ++ [quote]), List.cons_ne_nil _ _, isSpace_of_isQuote isQuoted, ?_,
      Language.append_mem_mul isFront ⟨closing, rfl, mem_ending_iff.1 closes, ?_⟩,
      (readLiteral_quoted isQuoted inside).symm, ?_⟩
    · rw [last]
      exact isSpace_of_isQuote isQuoted
    · rw [last]
      rintro same
      obtain rfl := Option.some.inj same
      exact absurd isQuoted (by decide)
    · intro bare
      simp [isQuoted] at bare
  | @bare token closing isBare closes own =>
    refine ⟨token, isBare.nonempty, isBare.starts, isBare.ends,
      Language.append_mem_mul isFront ⟨closing, rfl, mem_ending_iff.1 closes, own⟩, rfl, ?_⟩
    intro _
    have single := isBare.single
    simp only [compounding, List.append_nil, List.forall_mem_cons] at single
    simp [Condition.isCompound, single.1, single.2.1]

/-! ## Statements with bare values -/

/-- A statement with a condition compares its column with a token that stands for its value. -/
theorem exists_compares_of_parse {statement : Statement} {condition : Condition}
    (parsed : Statement.parse text = .ok statement)
    (found : statement.condition? = some condition) :
    ∃ token, Compares text condition.column token ∧ condition.value = readLiteral token ∧
      (token.head?.any isQuote = false → Condition.isCompound token = false) := by
  -- The words tell the kind first, and the clause is found by its reader.
  rw [Statement.parse] at parsed
  cases isKind : StatementKind.ofText? text with
  | none => simp [isKind] at parsed
  | some kind =>
    simp only [isKind] at parsed
    obtain ⟨clause, isClause, readClause⟩ := exists_clause?_of_parseAs parsed found
    obtain ⟨token, nonempty, starts, ends, written, value, plain⟩ :=
      -- What is read from the clause is a token in its place, with the value that it stands for.
      exists_token_of_readClause? readClause
    exact ⟨token, ⟨nonempty, starts, ends, kind, clause, isKind, isClause, written⟩, value, plain⟩

/-- A statement that compares a column with a compound value is refused for its syntax. -/
theorem Compares.refused (compares : Compares text column token)
    (bare : token.head?.any isQuote = false) (compound : Condition.isCompound token = true) :
    ∃ error, Statement.parse text = .error error ∧
      QueryError.parseStatus error = .syntaxError := by
  -- The clause cannot be read, since the value is compound.
  obtain ⟨kind, clause, isKind, isClause, written⟩ := compares.written
  have unread := readClause?_of_mem_token compares.nonempty compares.starts compares.ends bare
    written
  rw [if_pos compound] at unread
  simp only [Statement.parse, isKind]
  -- Either the clause decides, or an assignment was refused for its syntax before.
  rcases parseAs_of_clause? isClause with ⟨build, -, same⟩ | ⟨item, failed⟩
  · refine ⟨.malformed kind, ?_, rfl⟩
    rw [same, unread]
    rfl
  · exact ⟨.setClause item, failed, rfl⟩

/-- A statement that compares a column with any other bare value is read, if its head is. -/
theorem Compares.read (compares : Compares text column token)
    (bare : token.head?.any isQuote = false) (plain : Condition.isCompound token = false) :
    (∃ statement, Statement.parse text = .ok statement ∧
      statement.condition? = some { column, value := readLiteral token }) ∨
        ∃ item, Statement.parse text = .error (.setClause item) := by
  -- The clause is read, since the value is not compound.
  obtain ⟨kind, clause, isKind, isClause, written⟩ := compares.written
  have readClause := readClause?_of_mem_token compares.nonempty compares.starts compares.ends bare
    written
  rw [if_neg (by simp [plain])] at readClause
  simp only [Statement.parse, isKind]
  -- Either the statement is put together with the condition, or an assignment was refused before.
  rcases parseAs_of_clause? isClause with ⟨build, conditionOf, same⟩ | ⟨item, failed⟩
  · refine .inl ⟨_, ?_, conditionOf _⟩
    rw [same, readClause]
    rfl
  · exact .inr ⟨item, failed⟩

/--
A statement that is read compares its column with no bare value in which one of the words AND and
OR stands outside quoted runs. Every statement with such a value is refused for its syntax, and no
statement is refused for a word that stands within a run.
-/
theorem compound_refused_outside_runs (text : Bytes) :
    (∀ statement condition, Statement.parse text = .ok statement →
      statement.condition? = some condition →
      ∃ token, Compares text condition.column token ∧ condition.value = readLiteral token ∧
        (token.head?.any isQuote = false →
          ∀ word ∈ compounding, ∀ offset, ¬StandsOutside word token offset)) ∧
    (∀ column token, Compares text column token → token.head?.any isQuote = false →
      (∃ word ∈ compounding, ∃ offset, StandsOutside word token offset) →
      ∃ error, Statement.parse text = .error error ∧
        QueryError.parseStatus error = .syntaxError) ∧
    ∀ column token, Compares text column token → token.head?.any isQuote = false →
      (∀ word ∈ compounding, ∀ offset, ¬StandsOutside word token offset) →
      (∃ statement, Statement.parse text = .ok statement ∧
        statement.condition? = some { column, value := readLiteral token }) ∨
          ∃ item, Statement.parse text = .error (.setClause item) := by
  refine ⟨?_, ?_, ?_⟩
  · intro statement condition parsed found
    obtain ⟨token, compares, value, plain⟩ := exists_compares_of_parse parsed found
    refine ⟨token, compares, value, ?_⟩
    intro bare searched among offset stands
    have compound := (isCompound_iff bare).2 ⟨searched, among, offset, stands⟩
    simp [plain bare] at compound
  · intro column token compares bare stands
    exact compares.refused bare ((isCompound_iff bare).2 stands)
  · intro column token compares bare none
    refine compares.read bare ?_
    -- A compound value would have one of the words outside its runs.
    by_contra compound
    obtain ⟨searched, among, offset, stands⟩ :=
      (isCompound_iff bare).1 (Bool.eq_true_of_not_eq_false compound)
    exact none searched among offset stands

/-- A condition on a column that is not qualified, with one space between each two tokens. -/
theorem mem_conditionHead (isName : isIdentifier column = true) :
    [space] ++ "WHERE" ++ [space] ++ column ++ [space] ++ [equalsSign] ++ [space] ∈
      Grammar.conditionHead column := by
  -- All tokens of the head are written one after another, with a space between each two.
  have white : Blank [space] := by decide
  have isColumn : column ∈ Grammar.column [] column := .inl ⟨rfl, isName, by simp⟩
  have isEquals : [equalsSign] ∈ symbol equalsSign := Set.mem_singleton _
  have isWhere : utf8 "WHERE" ∈ word "WHERE" := rfl
  exact Language.append_mem_mul (Language.append_mem_mul (Language.append_mem_mul
    (Language.append_mem_mul (Language.append_mem_mul (Language.append_mem_mul white isWhere)
      ⟨white, by decide⟩) isColumn) white) isEquals) white

/-- A word behind a closed run is found, in spite of the other one within the run. -/
theorem compound_refused_outside_runs_or :
    Compares "SELECT a FROM t WHERE b = x \"AND\" y or z ;" "b" "x \"AND\" y or z" ∧
      StandsOutside "OR" "x \"AND\" y or z" 10 ∧
      ∃ error, Statement.parse "SELECT a FROM t WHERE b = x \"AND\" y or z ;" = .error error ∧
        QueryError.parseStatus error = .syntaxError := by
  -- The clause is written with one space between each two tokens, and ends with a semicolon.
  have written : utf8 " WHERE b = x \"AND\" y or z ;" ∈
      Grammar.conditionHead "b" * tokenAndEnd "x \"AND\" y or z" :=
    Language.append_mem_mul (mem_conditionHead (by decide))
      ⟨" ;", by decide, .semicolon (by decide : Blank [space]) blank_nil, by decide⟩
  have compares : Compares "SELECT a FROM t WHERE b = x \"AND\" y or z ;" "b"
      "x \"AND\" y or z" :=
    ⟨by decide, by decide, by decide, .select, _, by decide +kernel, by decide +kernel, written⟩
  -- The run in front of the word is opened and closed, so that none is open there.
  have stands : StandsOutside "OR" "x \"AND\" y or z" 10 :=
    ⟨by unfold Closed; decide,
      "x \"AND\" y ", "or", " z", by decide, by decide, by decide, by decide, by decide⟩
  exact ⟨compares, stands, (compound_refused_outside_runs _).2.1 _ _ compares (by decide)
    ⟨_, by simp [compounding], 10, stands⟩⟩

/-- An apostrophe in a bare value hides a second condition behind it. -/
theorem apostrophe_hides_condition :
    Compares "DELETE FROM t WHERE name = O'Brien AND id = 1" "name" "O'Brien AND id = 1" ∧
      (utf8 "O'Brien AND id = 1").head?.any isQuote = false ∧
      StandsAt "AND" "O'Brien AND id = 1" 8 ∧
      Statement.parse "DELETE FROM t WHERE name = O'Brien AND id = 1" =
        .ok (.delete ⟨"t", some ⟨"name", .text "O'Brien AND id = 1"⟩⟩) := by
  -- The clause is written with one space between each two tokens, and ends with the value.
  have written : utf8 " WHERE name = O'Brien AND id = 1" ∈
      Grammar.conditionHead "name" * tokenAndEnd "O'Brien AND id = 1" :=
    Language.append_mem_mul (mem_conditionHead (by decide))
      ⟨[], by decide, .spaces blank_nil, by decide⟩
  refine ⟨⟨by decide, by decide, by decide, .delete, _, ?_, ?_, written⟩, by decide, ?_, ?_⟩
  · -- The rest is what the reader does, which is run on the text.
    decide +kernel
  · decide +kernel
  · exact ⟨"O'Brien ", "AND", " id = 1", by decide, by decide, by decide, by decide, by decide⟩
  · decide +kernel

end TableStore
