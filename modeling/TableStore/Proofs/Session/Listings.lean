import TableStore.Proofs.Database.OneLine
import TableStore.Proofs.Session.Headlines
import TableStore.Proofs.Session.Rectangle

/-!
What a session shows. Main statements: whatever rows there are, and whatever the names of tables and
columns on one line, nothing in a listing passes for a headline, and a reply has just its own.
-/

namespace TableStore

variable {text : Bytes}

/-! ## Rows -/

namespace Relation

/-- Rows are shown without headlines, whatever is in them. -/
theorem prints_grid (relation : Relation) : Prints relation.grid [] := by
  have lines : ∀ line ∈ relation.gridLines, Prints line [] := by
    rw [gridLines_eq]
    refine List.forall_mem_map.2 fun line among => ?_
    -- A line of the table is indented, so that it is no headline.
    obtain ⟨texts, all, rfl⟩ := relation.exists_lineOf_of_mem _ line among
    exact Prints.aside (oneLine_lineOf all) rfl
  have count :
      Prints (utf8 "[rows=" ++ decimal relation.rows.length ++ utf8 "]" ++ [lineFeed]) [] :=
    Prints.aside (by simp +decide [oneLine_decimal]) rfl
  have whole : Prints _ [] := (Prints.flatten lines).append count
  simpa only [grid, List.append_assoc] using whole

end Relation

/-! ## Replies and the help -/

/-- A reply is its headline, and rows without one. -/
theorem Reply.prints_text {reply : Reply} (oneLine : OneLine reply.message) :
    Prints reply.text [reply.headline] := by
  -- A refusal tells its status besides the message.
  have status (status : Status) : OneLine status.name := by cases status <;> decide
  unfold text headline
  split
  · -- The rows of a success come after its headline.
    have rows : Prints (if reply.relation.columns.isEmpty then []
        else if reply.relation.rows.isEmpty then utf8 "No rows returned.\n"
        else reply.relation.grid) [] := by
      split_ifs
      · exact Prints.nil
      · exact @Prints.aside (utf8 "No rows returned.") (by decide) (by decide)
      · exact reply.relation.prints_grid
    have headline := @Prints.of_isHeadline (utf8 "OK: " ++ reply.message)
      (by simp +decide [oneLine]) rfl (by simp [isHeadline])
    exact headline.append rows
  · exact Prints.of_isHeadline (by simp +decide [oneLine, status]) rfl (by simp [isHeadline])

/-- The help has no headlines. -/
theorem prints_help : Prints (helpLines.flatMap (· ++ [lineFeed])) [] := by
  rw [List.flatMap_def]
  -- The lines are few and fixed, so that each of them is looked at.
  have silent : ∀ line ∈ helpLines,
      OneLine line ∧ prompt.isPrefixOf line = false ∧ isHeadline line = false := by decide
  refine Prints.flatten (List.forall_mem_map.2 fun line among => ?_)
  obtain ⟨oneLine, unprompted, unheaded⟩ := silent line among
  exact Prints.of_not_isHeadline oneLine unprompted unheaded

/-! ## Tables and columns -/

/-- A text that is filled up with spaces is on one line exactly if it was. -/
@[simp] theorem oneLine_padRight_iff {width : Nat} :
    OneLine (padRight width text) ↔ OneLine text := by
  -- Spaces do not end a line.
  simp [padRight, oneLine_spaces]

/-- A line of a list is indented. -/
theorem prints_listLine {number last : Bytes} {columns : List (Nat × Bytes)}
    (isNumber : OneLine number) (all : ∀ column ∈ columns, OneLine column.2)
    (isLast : OneLine last) : Prints (listLine number columns last) [] := by
  -- A line end would have to be in one of the columns.
  have filled : OneLine (columns.flatMap fun column => padRight column.1 column.2) := by
    intro among
    obtain ⟨column, isColumn, among⟩ := List.mem_flatMap.1 among
    exact oneLine_padRight_iff.2 (all column isColumn) among
  have whole : OneLine (utf8 "  " ++ padRight 3 number ++
      (columns.flatMap fun column => padRight column.1 column.2) ++ last) := by
    simp +decide [isNumber, filled, isLast]
  -- The two spaces in front tell the line from a headline.
  exact Prints.aside whole rfl

/-- The list of the numbered members of a collection, one on each line. -/
theorem prints_numbered {α : Type} {members : List α} {line : α × Nat → Bytes}
    (all : ∀ member ∈ members, ∀ number, Prints (line (member, number)) []) :
    Prints ((members.zipIdx 1).flatMap line) [] := by
  -- Each member has its own line, whatever number it gets.
  rw [List.flatMap_def]
  refine Prints.flatten (List.forall_mem_map.2 fun (member, number) among => ?_)
  exact all member (List.fst_mem_of_mem_zipIdx among) number

/-- The tables are listed without headlines. -/
theorem Database.OneLine.prints_listing {db : Database} (oneLine : db.OneLine) :
    Prints db.listing [] := by
  -- A table is listed with its name and three numbers.
  have row : ∀ member ∈ db.tables.toList, ∀ number, Prints (listLine (decimal number)
      [(18, member.2.name), (10, decimal member.2.columns.length)]
      (decimal member.2.rows.size)) [] := by
    intro member among number
    have present : db.table? member.1 = some member.2 :=
      Std.ExtTreeMap.mem_toList_iff_getElem?_eq_some.1 among
    refine prints_listLine (oneLine_decimal _) ?_ (oneLine_decimal _)
    simp [(oneLine member.1 member.2 present).name, oneLine_decimal]
  -- The fixed lines begin apart, and so do those of the tables.
  have nothing : Prints (utf8 "(no tables yet)\n") [] :=
    @Prints.aside (utf8 "(no tables yet)") (by decide) (by decide)
  have count : Prints (utf8 "Tables (" ++ decimal db.tables.toList.length ++ utf8 "):\n") [] :=
    @Prints.said _ _ _ (utf8 "):") (by decide) (by decide) (by simp +decide [oneLine_decimal])
  have titles : Prints (listLine "#" [(18, "Name"), (10, "Columns")] "Rows") [] :=
    prints_listLine (by decide) (by decide) (by decide)
  have rule : Prints (utf8 "  ----------------------------------------\n") [] :=
    @Prints.aside (utf8 "  ----------------------------------------") (by decide) (by decide)
  unfold listing
  dsimp only
  -- Either there is no table, or a head and one line for each of them.
  split
  · exact nothing
  · exact ((count.append titles).append rule).append (prints_numbered row)

/-- The name of a type is on one line. -/
theorem DataType.oneLine_name (type : DataType) : OneLine type.name := by
  -- The names are few and fixed.
  cases type <;> decide

/-- What is said of the constraints on a column is on one line. -/
theorem Table.oneLine_constraintText (table : Table) (column : Bytes) :
    TableStore.OneLine (table.constraintText column) := by
  -- One of three fixed texts is said.
  unfold constraintText
  split_ifs <;> decide

/-- The columns of a table are listed without headlines. -/
theorem Table.OneLine.prints_listing {table : Table} (oneLine : table.OneLine) :
    Prints table.listing [] := by
  -- A column is listed with its name, its type and what it stores.
  have row : ∀ column ∈ table.columns, ∀ number, Prints (listLine (decimal number)
      [(18, column.name), (16, column.typeName), (10, column.type.name)]
      (table.constraintText column.name)) [] := by
    intro column among number
    obtain ⟨isName, isType⟩ := oneLine.column among
    refine prints_listLine (oneLine_decimal _) ?_ (table.oneLine_constraintText _)
    simp [isName, isType, column.type.oneLine_name]
  -- The head of the list is told with the name of the table.
  have head : Prints (utf8 "Table: " ++ table.name ++ utf8 " (" ++ decimal table.rows.size ++
      utf8 " rows)\n") [] :=
    @Prints.said _ _ _ (utf8 " rows)") (by decide) rfl
      (by simp +decide [oneLine.name, oneLine_decimal])
  have titles :
      Prints (listLine "#" [(18, "Name"), (16, "Type"), (10, "Stored")] "Constraints") [] :=
    prints_listLine (by decide) (by decide) (by decide)
  have rule : Prints
      (utf8 "  ----------------------------------------------------------------------\n") [] :=
    @Prints.aside (utf8 "  ----------------------------------------------------------------------")
      (by decide) (by decide)
  exact ((head.append titles).append rule).append (prints_numbered row)

end TableStore
