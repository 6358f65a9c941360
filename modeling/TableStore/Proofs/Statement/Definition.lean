import TableStore.Proofs.Database.Sound
import TableStore.Proofs.Parentheses
import TableStore.Proofs.Runs
import TableStore.Proofs.Statement.Grammar

/-!
Table definitions as they are written. Main statement: a written definition is read as that
definition, and creates the table that is created without a statement.
-/

namespace TableStore

open Language (append_mem_mul)

namespace Grammar

/-- Whether a word occurs anywhere in a text, in any letter case. -/
def Mentions (keyword text : Bytes) : Prop := upper keyword <:+: upper text

instance (keyword text : Bytes) : Decidable (Mentions keyword text) :=
  inferInstanceAs (Decidable (upper keyword <:+: upper text))

/-- A name and a type of a column that are not taken for its constraints. -/
structure Declarable (name typeName : Bytes) : Prop where
  isName : isIdentifier name = true
  nonempty : typeName ≠ []
  solid : ∀ byte ∈ typeName, isSpace byte = false
  nested : Nested typeName
  notUnique : ¬Mentions "UNIQUE" name ∧ ¬Mentions "UNIQUE" typeName
  notPrimary : ¬((Mentions "PRIMARY" name ∨ Mentions "PRIMARY" typeName) ∧
    (Mentions "KEY" name ∨ Mentions "KEY" typeName))

instance (name typeName : Bytes) : Decidable (Declarable name typeName) :=
  decidable_of_iff (isIdentifier name = true ∧ typeName ≠ [] ∧
      (typeName.all fun byte => !isSpace byte) = true ∧ Nested typeName ∧
      (¬Mentions "UNIQUE" name ∧ ¬Mentions "UNIQUE" typeName) ∧
      ¬((Mentions "PRIMARY" name ∨ Mentions "PRIMARY" typeName) ∧
        (Mentions "KEY" name ∨ Mentions "KEY" typeName))) <| by
    -- The conditions are decided in turn, the one on all bytes by going through them.
    have solid : (typeName.all fun byte => !isSpace byte) = true ↔
        ∀ byte ∈ typeName, isSpace byte = false := by
      simp only [List.all_eq_true, Bool.not_eq_true']
    rw [solid]
    exact ⟨fun ⟨isName, nonempty, solid, nested, notUnique, notPrimary⟩ =>
        ⟨isName, nonempty, solid, nested, notUnique, notPrimary⟩,
      fun ⟨isName, nonempty, solid, nested, notUnique, notPrimary⟩ =>
        ⟨isName, nonempty, solid, nested, notUnique, notPrimary⟩⟩

/-- The words behind a column that is the primary key. -/
def primaryKey (isPrimary : Bool) : Language UInt8 :=
  if isPrimary then gap * word "PRIMARY" * gap * word "KEY" else 1

/-- The word behind a column whose values may not repeat. -/
def unique (isUnique : Bool) : Language UInt8 := if isUnique then gap * word "UNIQUE" else 1

/-- The constraints of a column, in either order. -/
def constraints (isPrimary isUnique : Bool) : Language UInt8 :=
  primaryKey isPrimary * unique isUnique + unique isUnique * primaryKey isPrimary

/-- A column with its type and its constraints. -/
def declared (column : ColumnClause) : Language UInt8 :=
  -- White space may stand on both sides, and has to between the name and the type.
  {text | Declarable column.name column.typeName ∧
    text ∈ spaces * {column.name} * gap * {column.typeName} *
      constraints column.isPrimary column.isUnique * spaces}

/-- The written forms of a table with its columns. -/
def definition (table : Bytes) (columns : List ColumnClause) : Language UInt8 :=
  spaces * word "CREATE" * gap * word "TABLE" * gap * identifier [] table * spaces *
    symbol openParenthesis * separated declared columns * symbol closeParenthesis * ending

/-- The words that tell a primary key. -/
def keyWords (isPrimary : Bool) : List Bytes := if isPrimary then ["PRIMARY", "KEY"] else []

/-- The word that tells a column whose values may not repeat. -/
def uniqueWords (isUnique : Bool) : List Bytes := if isUnique then ["UNIQUE"] else []

/-- Behind any text, a text of the language adds the same words, but for their case and order. -/
def Adds (capitals : List Bytes) (language : Language UInt8) : Prop :=
  ∀ text ∈ language, ∀ front, ∃ added, words (front ++ text) = words front ++ added ∧
    (added.map upper).Perm capitals

/-- No text of the language is cut into columns. -/
def Uncuttable (language : Language UInt8) : Prop := ∀ text ∈ language, Unsplit text

variable {keyword text : Bytes} {capitals others : List Bytes} {first following : Language UInt8}
  {column : ColumnClause} {columns : List ColumnClause}

/-! ## The words of a column -/

/-- The empty text adds no word. -/
theorem adds_one : Adds [] 1 := by
  -- Nothing stands behind the front, so nothing is added to its words.
  rintro text rfl front
  exact ⟨[], by rw [List.append_nil, List.append_nil], .nil⟩

/-- A keyword that is set apart is one more word. -/
theorem adds_gap_mul_word (keyword : Bytes) (isWord : isIdentifier keyword = true) :
    Adds [upper keyword] (gap * word keyword) := by
  rintro _ written front
  obtain ⟨white, ⟨blank, nonempty⟩, spelled, spells, rfl⟩ := Language.mem_mul.1 written
  -- However it is spelled, the keyword contains no white space.
  have isSpelled := isIdentifier_of_upper_eq isWord spells
  have single : words spelled = [spelled] :=
    words_eq_singleton (ne_nil_of_isIdentifier isSpelled) fun _ => isSpace_of_mem isSpelled
  refine ⟨[spelled], ?_, ?_⟩
  · rw [words_append_gap blank nonempty, single]
  · rw [List.map_singleton, spells]

/-- Two languages one after the other add the words of both. -/
theorem Adds.mul (adds : Adds capitals first) (addsRest : Adds others following) :
    Adds (capitals ++ others) (first * following) := by
  rintro _ written front
  obtain ⟨text, isText, rest, isRest, rfl⟩ := Language.mem_mul.1 written
  obtain ⟨added, cut, same⟩ := adds text isText front
  -- The words of the second text come behind those of the first.
  obtain ⟨more, cutRest, sameRest⟩ := addsRest rest isRest (front ++ text)
  refine ⟨added ++ more, ?_, ?_⟩
  · rw [← List.append_assoc, cutRest, cut, List.append_assoc]
  · rw [List.map_append]
    exact same.append sameRest

/-- Two languages that add the same words do so together. -/
theorem Adds.add (adds : Adds capitals first) (addsOther : Adds others following)
    (same : others.Perm capitals) : Adds capitals (first + following) := by
  -- The text is one of either language, and in the second the words come in another order.
  rintro text (isFirst | isOther) front
  · exact adds text isFirst front
  · obtain ⟨added, cut, sameOther⟩ := addsOther text isOther front
    exact ⟨added, cut, sameOther.trans same⟩

/-- A primary key is told by its two words. -/
theorem adds_primaryKey (isPrimary : Bool) :
    Adds (keyWords isPrimary) (primaryKey isPrimary) := by
  cases isPrimary with
  | false => exact adds_one
  -- The two words are added one after the other, each behind a gap.
  | true =>
    have adds := (adds_gap_mul_word "PRIMARY" (by decide)).mul
      (adds_gap_mul_word "KEY" (by decide))
    rw [← mul_assoc] at adds
    exact adds

/-- A unique column is told by its one word. -/
theorem adds_unique (isUnique : Bool) : Adds (uniqueWords isUnique) (unique isUnique) := by
  -- The word is there or is not, as the column is unique or not.
  cases isUnique with
  | false => exact adds_one
  | true => exact adds_gap_mul_word "UNIQUE" (by decide)

/-- The constraints add their words in either order. -/
theorem adds_constraints (isPrimary isUnique : Bool) :
    Adds (keyWords isPrimary ++ uniqueWords isUnique) (constraints isPrimary isUnique) :=
  -- Whichever constraint comes first, the words of both are added.
  ((adds_primaryKey isPrimary).mul (adds_unique isUnique)).add
    ((adds_unique isUnique).mul (adds_primaryKey isPrimary)) List.perm_append_comm

/-- The words of a written column are its name, its type and those of its constraints. -/
theorem exists_words_of_mem_declared (written : text ∈ declared column) :
    ∃ added, words text = column.name :: column.typeName :: added ∧
      (added.map upper).Perm (keyWords column.isPrimary ++ uniqueWords column.isUnique) := by
  obtain ⟨declarable, written⟩ := written
  simp only [mul_assoc] at written
  obtain ⟨before, blankBefore, _, isNamed, rfl⟩ := Language.mem_mul.1 written
  obtain ⟨_, rfl, _, isTyped, rfl⟩ := Language.mem_mul.1 isNamed
  obtain ⟨white, ⟨blank, nonempty⟩, _, isBehind, rfl⟩ := Language.mem_mul.1 isTyped
  obtain ⟨_, rfl, _, isConstrained, rfl⟩ := Language.mem_mul.1 isBehind
  obtain ⟨flags, isFlags, after, blankAfter, rfl⟩ := Language.mem_mul.1 isConstrained
  -- Neither the name nor the type contains white space, and the constraints add their words.
  obtain ⟨added, cut, same⟩ := adds_constraints _ _ flags isFlags column.typeName
  have name : words column.name = [column.name] :=
    words_eq_singleton (ne_nil_of_isIdentifier declarable.isName)
      fun _ => isSpace_of_mem declarable.isName
  have type : words column.typeName = [column.typeName] :=
    words_eq_singleton declarable.nonempty declarable.solid
  refine ⟨added, ?_, same⟩
  calc words (before ++ (column.name ++ (white ++ (column.typeName ++ (flags ++ after)))))
      = words column.name ++ words (column.typeName ++ flags ++ after) := by
        rw [words_blank_append blankBefore, words_append_gap blank nonempty, List.append_assoc]
    _ = column.name :: column.typeName :: added := by
        rw [words_append_blank blankAfter, cut, name, type]
        rfl

/-! ## Columns in a list -/

/-- Two languages one after the other are not cut if neither is. -/
theorem Uncuttable.mul (uncuttable : Uncuttable first) (uncuttableRest : Uncuttable following) :
    Uncuttable (first * following) := by
  -- The parentheses match in both texts, and so in both together.
  rintro _ written
  obtain ⟨front, isFront, rest, isRest, rfl⟩ := Language.mem_mul.1 written
  exact (uncuttable front isFront).append (uncuttableRest rest isRest)

/-- The empty text is not cut. -/
theorem uncuttable_one : Uncuttable 1 := by
  -- There is no comma in it.
  rintro _ rfl
  exact blank_nil.unsplit

/-- A keyword behind a gap is not cut. -/
theorem uncuttable_gap_mul_word (keyword : Bytes) (isWord : isIdentifier keyword = true) :
    Uncuttable (gap * word keyword) := by
  -- Neither white space nor a word has a comma or a parenthesis.
  refine .mul (fun _ isGap => isGap.1.unsplit) fun spelled spells => ?_
  exact unsplit_of_isIdentifier (isIdentifier_of_upper_eq isWord spells)

/-- The constraints of a column are not cut. -/
theorem uncuttable_constraints (isPrimary isUnique : Bool) :
    Uncuttable (constraints isPrimary isUnique) := by
  -- The two kinds of constraints are gaps and words, or nothing.
  have key : Uncuttable (primaryKey isPrimary) := by
    cases isPrimary with
    | false => exact uncuttable_one
    | true =>
      have uncuttable := (uncuttable_gap_mul_word "PRIMARY" (by decide)).mul
        (uncuttable_gap_mul_word "KEY" (by decide))
      rw [← mul_assoc] at uncuttable
      exact uncuttable
  have distinct : Uncuttable (unique isUnique) := by
    cases isUnique with
    | false => exact uncuttable_one
    | true => exact uncuttable_gap_mul_word "UNIQUE" (by decide)
  -- They are written in either order.
  rintro text (isText | isText)
  · exact key.mul distinct text isText
  · exact distinct.mul key text isText

/-- A written column is not cut, though its type may contain commas. -/
theorem unsplit_of_mem_declared (written : text ∈ declared column) : Unsplit text := by
  obtain ⟨declarable, written⟩ := written
  have blank : Uncuttable spaces := fun _ blank => Blank.unsplit blank
  have apart : Uncuttable gap := fun _ isGap => isGap.1.unsplit
  have name : Uncuttable {column.name} := by
    rintro _ rfl
    exact unsplit_of_isIdentifier declarable.isName
  have type : Uncuttable {column.typeName} := by
    -- All its commas stand within parentheses.
    rintro _ rfl
    exact declarable.nested.unsplit
  exact ((((blank.mul name).mul apart).mul type).mul (uncuttable_constraints _ _)).mul blank
    text written

end Grammar

open Grammar

namespace ColumnClause

/-- A column with its type in capitals. -/
def capital (column : ColumnClause) : ColumnClause :=
  { column with typeName := upper column.typeName }

variable {keyword text : Bytes} {column : ColumnClause}

/-- A keyword occurs in a text in capitals exactly if one of the words mentions it. -/
theorem occursIn_upper_iff (isWord : isIdentifier keyword = true)
    (isCapital : upper keyword = keyword) :
    occursIn keyword (upper text) = true ↔ ∃ word ∈ words text, Mentions keyword word := by
  -- A keyword has no white space in it, so that it occurs within a word of the text.
  rw [occursIn_iff, infix_iff_exists_word (ne_nil_of_isIdentifier isWord)
    (fun _ => isSpace_of_mem isWord), words_upper]
  simp only [List.mem_map, exists_exists_and_eq_and, Mentions, isCapital]

/-- A keyword occurs in a written column if the name, the type or a constraint mentions it. -/
theorem occursIn_upper_of_mem (isWord : isIdentifier keyword = true)
    (isCapital : upper keyword = keyword) (written : text ∈ declared column) :
    occursIn keyword (upper (trim text)) = true ↔
      Mentions keyword column.name ∨ Mentions keyword column.typeName ∨
        ∃ word ∈ keyWords column.isPrimary ++ uniqueWords column.isUnique, keyword <:+: word := by
  obtain ⟨added, cut, same⟩ := exists_words_of_mem_declared written
  have constrained : (∃ word ∈ added, Mentions keyword word) ↔
      ∃ word ∈ keyWords column.isPrimary ++ uniqueWords column.isUnique, keyword <:+: word := by
    -- Only the capitals of a word matter, and neither does the order of the words.
    simp only [← same.mem_iff, List.mem_map, exists_exists_and_eq_and, Mentions, isCapital]
  rw [occursIn_upper_iff isWord isCapital, words_trim, cut]
  simp only [List.mem_cons, exists_eq_or_imp, constrained]

/-- A written column is read, with white space around it or without. -/
theorem parse_of_mem_declared (written : text ∈ declared column) :
    parse text = .ok column.capital := by
  obtain ⟨added, cut, -⟩ := exists_words_of_mem_declared written
  have declarable := written.1
  -- Which of the constraints tells a keyword is seen from the words of each.
  have tellsPrimary : ∀ isPrimary isUnique, (∃ word ∈ keyWords isPrimary ++ uniqueWords isUnique,
      utf8 "PRIMARY" <:+: word) ↔ isPrimary = true := by decide
  have tellsKey : ∀ isPrimary isUnique, (∃ word ∈ keyWords isPrimary ++ uniqueWords isUnique,
      utf8 "KEY" <:+: word) ↔ isPrimary = true := by decide
  have tellsUnique : ∀ isPrimary isUnique, (∃ word ∈ keyWords isPrimary ++ uniqueWords isUnique,
      utf8 "UNIQUE" <:+: word) ↔ isUnique = true := by decide
  have isPrimary : (occursIn "PRIMARY" (upper (trim text)) &&
      occursIn "KEY" (upper (trim text))) = column.isPrimary := by
    have unmentioned := declarable.notPrimary
    rw [Bool.eq_iff_iff, Bool.and_eq_true, occursIn_upper_of_mem (by decide) (by decide) written,
      occursIn_upper_of_mem (by decide) (by decide) written, tellsPrimary, tellsKey]
    tauto
  have isUnique : occursIn "UNIQUE" (upper (trim text)) = column.isUnique := by
    obtain ⟨notInName, notInType⟩ := declarable.notUnique
    rw [Bool.eq_iff_iff, occursIn_upper_of_mem (by decide) (by decide) written, tellsUnique]
    simp only [notInName, notInType, false_or]
  have split : words (trim text) = column.name :: column.typeName :: added := by
    rw [words_trim, cut]
  simp [parse, read?, split, declarable.isName, isPrimary, isUnique, capital]

end ColumnClause

namespace TableDefinition

/-- The table of some columns, of which one is the primary key. -/
def ofColumns (table : Bytes) (columns : List ColumnClause) (key : Bytes) : TableDefinition where
  table
  -- The types go into capitals, and only the column of the key is marked.
  columns := columns.map fun column =>
    { column with typeName := upper column.typeName, isPrimary := column.name == key }
  primaryKey := key
  uniqueColumns := ((columns.filter (·.isUnique)).map (·.name)).eraseDups

variable {text table : Bytes} {columns : List ColumnClause}

/-- A written table is taken apart into its name and the text of its columns. -/
theorem exists_readBody? (written : text ∈ Grammar.definition table columns) :
    ∃ body ∈ separated declared columns, readBody? text = some (table, body) := by
  simp only [Grammar.definition, mul_assoc] at written
  obtain ⟨rest, isRest, readCreate⟩ := exists_keyword? (by decide) apart_gap_mul written
  obtain ⟨rest, isRest, readWord⟩ :=
    exists_keyword? (by decide) apart_gap_mul (mem_spaces_mul_of_gap isRest)
  obtain ⟨rest, isRest, readTable⟩ :=
    exists_identifier? (apart_symbol_mul rfl) (mem_spaces_mul_of_gap isRest)
  obtain ⟨rest, isRest, readOpen⟩ := exists_symbol? rfl isRest
  -- Whatever parentheses the types contain, the columns go up to the last one.
  obtain ⟨body, isBody, rest, cut, atEnd⟩ := exists_splitAtLast? isRest
  exact ⟨body, isBody, by simp [readBody?, readCreate, readWord, readTable, readOpen, cut, atEnd]⟩

/-- The columns of a written table are read one by one. -/
theorem mapM_parse_of_mem (written : text ∈ separated declared columns) :
    (splitOutsideParentheses 0 text).mapM ColumnClause.parse =
      .ok (columns.map ColumnClause.capital) := by
  -- The text is cut at the commas between the columns, and at no other.
  have items : List.Forall₂ (fun part column => part ∈ declared column)
      (splitOutsideParentheses 0 text) columns :=
    forall₂_split_of_mem_separated (fun _ _ isColumn => (unsplit_of_mem_declared isColumn).whole)
      (fun _ _ isColumn =>
        (unsplit_of_mem_declared isColumn).splitOutsideParentheses_append_comma)
      written
  rw [mapM_eq_ok_iff, List.forall₂_map_right_iff]
  exact items.imp fun _ _ => ColumnClause.parse_of_mem_declared

/-- Of several primary keys the last one counts. -/
theorem ofClauses_map_capital {front behind : List ColumnClause} {key : ColumnClause}
    (isKey : key.isPrimary = true) (last : ∀ column ∈ behind, column.isPrimary = false)
    (table : Bytes) :
    ofClauses table ((front ++ key :: behind).map ColumnClause.capital) =
      .ok (ofColumns table (front ++ key :: behind) key.name) := by
  have none : behind.filter (·.isPrimary) = [] := by
    rw [List.filter_eq_nil_iff]
    exact fun column among => by simp [last column among]
  have found : ((front ++ key :: behind).filter (·.isPrimary)).getLast? = some key := by
    rw [List.filter_append, List.filter_cons_of_pos isKey, none, List.getLast?_concat]
  -- A type in capitals makes no difference to the constraints of a column.
  have kept : (((front ++ key :: behind).map ColumnClause.capital).filter (·.isPrimary)).getLast? =
      some key.capital := by
    rw [List.filter_map, List.getLast?_map]
    exact congrArg (Option.map ColumnClause.capital) found
  rw [ofClauses, kept]
  simp only [ofColumns, List.map_map, List.filter_map]
  rfl

/-- A written table is read. -/
theorem parse_of_mem {front behind : List ColumnClause} {key : ColumnClause}
    (written : text ∈ Grammar.definition table (front ++ key :: behind))
    (isKey : key.isPrimary = true) (last : ∀ column ∈ behind, column.isPrimary = false) :
    parse text = .ok (ofColumns table (front ++ key :: behind) key.name) := by
  -- The body is found in the text, and its parts are read as the columns.
  obtain ⟨body, isBody, read⟩ := exists_readBody? written
  rw [parse, read]
  simp only [StatementKind.expect, Option.elim_some, Bind.bind, Except.bind,
    mapM_parse_of_mem isBody, ofClauses_map_capital isKey last]

end TableDefinition

/-- A text that begins with the words CREATE TABLE is a definition. -/
theorem StatementKind.ofText?_of_mem_definition {text table : Bytes} {columns : List ColumnClause}
    (written : text ∈ Grammar.definition table columns) : ofText? text = some .createTable := by
  -- Both words are read at the start, with a gap between them and another behind.
  simp only [Grammar.definition, mul_assoc] at written
  obtain ⟨rest, isRest, readCreate⟩ := exists_keyword? (by decide) apart_gap_mul written
  obtain ⟨rest, -, readWord⟩ :=
    exists_keyword? (by decide) apart_gap_mul (mem_spaces_mul_of_gap isRest)
  simp [ofText?, readCreate, readWord]

/-- What a table of some columns is declared as without a statement, its types as they stand. -/
def Schema.ofColumns (table : Bytes) (columns : List ColumnClause) (key : Bytes)
    (uniques : List Bytes) : Schema where
  name := table
  columns := columns.map fun column => .declare column.name column.typeName
  primaryKey := key
  uniqueColumns := uniques

namespace Database

/-- Unique columns that are repeated make no difference to the table that is created. -/
theorem runCreate_congr {schema : Schema} {uniques : List Bytes}
    (same : uniques.eraseDups = schema.uniqueColumns.eraseDups) (db : Database) :
    db.runCreate { schema with uniqueColumns := uniques } = db.runCreate schema := by
  -- The repetitions are dropped before anything is made of the unique columns.
  have tables : Table.create { schema with uniqueColumns := uniques } = Table.create schema := by
    simp only [Table.create, same, Schema.index?]
  simp only [runCreate, create, tables, logCreated]

/-- A definition creates what is created without a statement, whatever case its types are in. -/
theorem runCreate_ofColumns {columns : List ColumnClause} {uniques : List Bytes}
    (same : uniques.eraseDups = ((columns.filter (·.isUnique)).map (·.name)).eraseDups)
    (db : Database) (table key : Bytes) :
    db.runCreate (TableDefinition.ofColumns table columns key).schema =
      db.runCreate (.ofColumns table columns key uniques) := by
  have declared : (TableDefinition.ofColumns table columns key).schema.columns =
      (Schema.ofColumns table columns key uniques).columns := by
    simp [TableDefinition.schema, TableDefinition.ofColumns, Schema.ofColumns, Column.declare]
  have distinct : (TableDefinition.ofColumns table columns key).uniqueColumns.eraseDups =
      uniques.eraseDups := by
    rw [same, TableDefinition.ofColumns, eraseDups_eraseDups]
  -- Apart from its unique columns, the schema of the definition is the one that is declared.
  have schema : (TableDefinition.ofColumns table columns key).schema =
      { Schema.ofColumns table columns key uniques with
        uniqueColumns := (TableDefinition.ofColumns table columns key).uniqueColumns } :=
    congrArg (fun declared => Schema.mk table declared key
      (TableDefinition.ofColumns table columns key).uniqueColumns) declared
  rw [schema, runCreate_congr distinct]

end Database

/--
A written table is read as that table, of which the last primary key counts. To execute the text
does to any database what creating the table without a statement does.
-/
theorem definition_reads_back {text table : Bytes} {columns : List ColumnClause}
    (written : text ∈ Grammar.definition table columns)
    (keyed : ∃ column ∈ columns, column.isPrimary = true) :
    ∃ front key behind, columns = front ++ key :: behind ∧ key.isPrimary = true ∧
      (∀ column ∈ behind, column.isPrimary = false) ∧
      Statement.parse text = .ok (.createTable (.ofColumns table columns key.name)) ∧
      ∀ (db : Database) (uniques : List Bytes),
        uniques.eraseDups = ((columns.filter (·.isUnique)).map (·.name)).eraseDups →
          (db.execute text).state =
              (db.createTable (.ofColumns table columns key.name uniques)).state ∧
            (db.execute text).result =
              (db.createTable (.ofColumns table columns key.name uniques)).result := by
  -- The list is cut at its last primary key.
  obtain ⟨key, found⟩ : ∃ key, columns.reverse.find? (·.isPrimary) = some key := by
    rw [← Option.isSome_iff_exists, List.find?_isSome]
    simpa using keyed
  obtain ⟨isKey, behind, front, cut, none⟩ := List.find?_eq_some_iff_append.1 found
  have whole : columns = front.reverse ++ key :: behind.reverse := by
    have reversed := congrArg List.reverse cut
    simpa using reversed
  have last : ∀ column ∈ behind.reverse, column.isPrimary = false := by
    simpa using none
  have kind := StatementKind.ofText?_of_mem_definition written
  have parsed : Statement.parse text = .ok (.createTable (.ofColumns table columns key.name)) := by
    rw [whole] at written ⊢
    rw [Statement.parse, kind]
    simp [Statement.parseAs, TableDefinition.parse_of_mem written isKey last]
  refine ⟨front.reverse, key, behind.reverse, whole, isKey, last, parsed, ?_⟩
  intro db uniques same
  -- Only the log tells whether a statement asked for the table.
  have created := db.runCreate_ofColumns same table key.name
  rw [Database.execute, parsed, Database.createTable, Database.state_logFailure,
    Database.state_logFailure, Database.result_logFailure, Database.result_logFailure]
  simp only [Database.run, created, and_self]

/-- A comma within a type is no separator, and of two primary keys the second one counts. -/
theorem definition_reads_back_two_keys :
    Statement.parse "create TABLE t( a Decimal(10,2) primary KEY, b\ttext UNIQUE PRIMARY key );" =
        .ok (.createTable ⟨"t", [⟨"a", "DECIMAL(10,2)", false, false⟩, ⟨"b", "TEXT", true, true⟩],
          "b", ["b"]⟩) ∧
      (Database.empty.execute
          "create TABLE t( a Decimal(10,2) primary KEY, b\ttext UNIQUE PRIMARY key );").state =
        (Database.empty.createTable
          ⟨"t", [.declare "a" "Decimal(10,2)", .declare "b" "text"], "b", ["b"]⟩).state := by
  have nothing : utf8 "" ∈ spaces := blank_nil
  have space : utf8 " " ∈ spaces := (by decide : Blank " ")
  have gap : utf8 " " ∈ Grammar.gap := ⟨space, by decide⟩
  have tab : utf8 "\t" ∈ Grammar.gap := ⟨(by decide : Blank "\t"), by decide⟩
  have create : utf8 "create" ∈ word "CREATE" := (by decide : upper "create" = upper "CREATE")
  have table : utf8 "TABLE" ∈ word "TABLE" := rfl
  have name : utf8 "t" ∈ identifier [] "t" := ⟨rfl, by decide, by simp⟩
  have opening : utf8 "(" ∈ symbol openParenthesis := rfl
  have separator : utf8 "," ∈ symbol comma := rfl
  have closing : utf8 ")" ∈ symbol closeParenthesis := rfl
  have finish : utf8 ";" ∈ ending := mem_ending_iff.2 (.semicolon blank_nil blank_nil)
  have primary : utf8 "primary" ∈ word "PRIMARY" :=
    (by decide : upper "primary" = upper "PRIMARY")
  have capital : utf8 "PRIMARY" ∈ word "PRIMARY" := rfl
  have key : utf8 "KEY" ∈ word "KEY" := rfl
  have small : utf8 "key" ∈ word "KEY" := (by decide : upper "key" = upper "KEY")
  have unique : utf8 "UNIQUE" ∈ word "UNIQUE" := rfl
  have single : ∀ bytes : Bytes, bytes ∈ ({bytes} : Language UInt8) := fun _ => rfl
  -- The key of the first column stands alone, that of the second one behind its other constraint.
  have keyed := append_mem_mul (append_mem_mul (append_mem_mul gap primary) gap) key
  have keyedSmall := append_mem_mul (append_mem_mul (append_mem_mul gap capital) gap) small
  have flags : utf8 " primary KEY" ∈ constraints true false :=
    .inl (append_mem_mul keyed Language.nil_mem_one)
  have flagged : utf8 " UNIQUE PRIMARY key" ∈ constraints true true :=
    .inr (append_mem_mul (append_mem_mul gap unique) keyedSmall)
  have first : utf8 " a Decimal(10,2) primary KEY" ∈
      declared ⟨"a", "Decimal(10,2)", true, false⟩ :=
    ⟨by decide +kernel,
      append_mem_mul (append_mem_mul (append_mem_mul (append_mem_mul
        (append_mem_mul space (single "a")) gap) (single "Decimal(10,2)")) flags) nothing⟩
  have second : utf8 " b\ttext UNIQUE PRIMARY key " ∈ declared ⟨"b", "text", true, true⟩ :=
    ⟨by decide +kernel,
      append_mem_mul (append_mem_mul (append_mem_mul (append_mem_mul
        (append_mem_mul space (single "b")) tab) (single "text")) flagged) space⟩
  have columns : utf8 " a Decimal(10,2) primary KEY, b\ttext UNIQUE PRIMARY key " ∈
      separated declared [⟨"a", "Decimal(10,2)", true, false⟩, ⟨"b", "text", true, true⟩] :=
    append_mem_mul (append_mem_mul first separator) second
  have written := append_mem_mul nothing <| append_mem_mul create <| append_mem_mul gap <|
    append_mem_mul table <| append_mem_mul gap <| append_mem_mul name <| append_mem_mul nothing <|
    append_mem_mul opening <| append_mem_mul columns <| append_mem_mul closing finish
  have same : utf8 "create TABLE t( a Decimal(10,2) primary KEY, b\ttext UNIQUE PRIMARY key );" ∈
      Grammar.definition "t" [⟨"a", "Decimal(10,2)", true, false⟩, ⟨"b", "text", true, true⟩] := by
    simp only [Grammar.definition, mul_assoc] at written ⊢
    exact written
  obtain ⟨front, last, behind, cut, isKey, none, parsed, created⟩ :=
    definition_reads_back same ⟨⟨"b", "text", true, true⟩, by simp, rfl⟩
  -- Nothing stands behind the second column, and the first one is not the last key.
  have isSecond : last = ⟨"b", "text", true, true⟩ := by
    rcases front with _ | ⟨one, _ | ⟨two, front⟩⟩
    · obtain ⟨-, rfl⟩ := List.cons.inj cut
      exact absurd (none _ List.mem_cons_self) (by decide)
    · exact (List.cons.inj (List.cons.inj cut).2).1.symm
    · simp at cut
  subst isSecond
  refine ⟨parsed.trans ?_, (created Database.empty ["b"] (by decide)).1⟩
  decide

end TableStore
