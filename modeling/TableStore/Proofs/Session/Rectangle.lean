import Mathlib.Algebra.GroupWithZero.Nat
import TableStore.Proofs.Session.Wrapping
import TableStore.Session.Basic

/-!
Rows as a table of text. Main statement: all lines of the table are equally long, and each column
has all that its values have but white space, whatever the bytes of names and values.
-/

namespace TableStore

/-! ## Lines -/

/-- The length of a line: it is indented, and has a gap between each two columns. -/
def lineWidth (widths : List Nat) : Nat := 2 + widths.sum + 2 * (widths.length - 1)

/-- Where a column begins: behind the indentation, and the columns before it with their gaps. -/
def columnStart (widths : List Nat) (column : Nat) : Nat :=
  2 + ((widths.take column).map (· + 2)).sum

/-- What a line has in a column. -/
def columnText (widths : List Nat) (column : Nat) (line : Bytes) : Bytes :=
  (line.drop (columnStart widths column)).take (widths.getD column 0)

/-- The line of the texts in all columns. -/
def lineOf (texts : List Bytes) : Bytes := utf8 "  " ++ joinWith "  " texts

variable {texts : List Bytes} {widths : List Nat} {cells : List Cell}

/-- A gap in front of every text is an indentation and a gap between each two of them. -/
theorem lineOf_eq_flatMap (nonempty : texts ≠ []) :
    lineOf texts = texts.flatMap (utf8 "  " ++ ·) := by
  -- A first text has a gap in front of it, and so has every text behind it.
  induction texts with
  | nil => exact absurd rfl nonempty
  | cons text texts ih =>
    cases texts with
    | nil => simp [lineOf, joinWith]
    | cons other texts =>
      have rest := ih (List.cons_ne_nil other texts)
      rw [List.flatMap_cons, ← rest]
      simp [lineOf, joinWith]

/-- A line is as long as its columns and the gaps in front of them. -/
theorem length_lineOf (fit : texts.map List.length = widths) (nonempty : widths ≠ []) :
    (lineOf texts).length = lineWidth widths := by
  subst fit
  -- Every text comes with its own gap of two bytes.
  have each : (texts.flatMap (utf8 "  " ++ ·)).length =
      (texts.map List.length).sum + 2 * texts.length := by
    clear nonempty
    induction texts with
    | nil => rfl
    | cons text texts ih =>
      rw [List.flatMap_cons, List.length_append, List.length_append, ih, List.map_cons,
        List.sum_cons, List.length_cons, show (utf8 "  ").length = 2 from rfl]
      omega
  rw [ne_eq, List.map_eq_nil_iff] at nonempty
  -- The first gap is the indentation, and there is one between each two columns.
  have some := List.length_pos_of_ne_nil nonempty
  rw [lineOf_eq_flatMap nonempty, each, lineWidth, List.length_map]
  omega

/-- Every column has its text. -/
theorem columnText_lineOf (fit : texts.map List.length = widths) (nonempty : widths ≠ [])
    (column : Nat) : columnText widths column (lineOf texts) = texts.getD column [] := by
  subst fit
  rw [ne_eq, List.map_eq_nil_iff] at nonempty
  rw [lineOf_eq_flatMap nonempty]
  clear nonempty
  induction texts generalizing column with
  | nil => simp [columnText]
  | cons text texts ih =>
    rw [List.flatMap_cons]
    cases column with
    | zero =>
      have start : columnStart ((text :: texts).map List.length) 0 = (utf8 "  ").length := rfl
      rw [columnText, start, List.append_assoc, List.drop_left' rfl]
      exact List.take_left' rfl
    | succ column =>
      -- The first column and the gap in front of it are passed over.
      have start : columnStart ((text :: texts).map List.length) (column + 1) =
          (utf8 "  " ++ text).length + columnStart (texts.map List.length) column := by
        simp only [columnStart, List.map_cons, List.take_succ_cons, List.sum_cons,
          List.length_append, show (utf8 "  ").length = 2 from rfl]
        omega
      rw [columnText, start, List.drop_length_add_append]
      exact ih column

/-- A line of texts without line ends has none. -/
theorem oneLine_lineOf (all : ∀ text ∈ texts, OneLine text) : OneLine (lineOf texts) := by
  -- A line without texts is an indentation alone.
  by_cases nothing : texts = []
  · subst nothing
    decide
  · -- A line end would have to be in one of the texts, since the gaps have none.
    rw [lineOf_eq_flatMap nothing]
    intro among
    obtain ⟨text, isText, among⟩ := List.mem_flatMap.1 among
    exact oneLine_append_iff.2 ⟨by decide, all text isText⟩ among

/-- Texts that are made as wide as their columns fit them. -/
theorem map_length_zip {α : Type} {members : List α} {form : Nat × α → Bytes}
    (same : members.length = widths.length) (fits : ∀ member, (form member).length = member.1) :
    ((widths.zip members).map form).map List.length = widths := by
  -- Each text is as wide as its column, and the columns are taken one by one.
  rw [List.map_map, Function.comp_def, funext fits, List.map_fst_zip same.ge]

namespace Relation

/-! ## Widths -/

/-- Columns that are widened for rows stay as many, and none becomes narrower than one byte. -/
theorem foldl_widen {rows : List (List Cell)} {start : List Nat}
    (full : ∀ cells ∈ rows, cells.length = start.length) (positive : ∀ width ∈ start, 1 ≤ width) :
    let widest := rows.foldl (fun widths cells =>
      widths.zipWith (fun width cell => max width cell.text.length) cells) start
    widest.length = start.length ∧ ∀ width ∈ widest, 1 ≤ width := by
  -- A row widens the columns for the next ones, so that those at the start stay quantified over.
  induction rows generalizing start with
  | nil => exact ⟨rfl, positive⟩
  | cons cells rows ih =>
    obtain ⟨first, others⟩ := List.forall_mem_cons.1 full
    have same : (start.zipWith (fun width cell => max width cell.text.length) cells).length =
        start.length := by
      rw [List.length_zipWith, first, Nat.min_self]
    rw [← same] at others ⊢
    refine ih others fun width among => ?_
    -- A widened column is one from before, made as wide as a cell.
    have isWidened : width ∈ (start.zip cells).map
        (Function.uncurry fun width cell => max width cell.text.length) := by
      rwa [List.map_uncurry_zip_eq_zipWith]
    obtain ⟨member, isMember, rfl⟩ := List.mem_map.1 isWidened
    exact (positive member.1 (List.of_mem_zip isMember).1).trans (le_max_left ..)

/-- Every column is one byte wide at least and forty at most. -/
theorem columnWidths_bounded {headers : List Bytes} {rows : List (List Cell)}
    (full : ∀ cells ∈ rows, cells.length = headers.length) :
    (columnWidths headers rows).length = headers.length ∧
      ∀ width ∈ columnWidths headers rows, 1 ≤ width ∧ width ≤ 40 := by
  -- The titles give the first widths, and the rows widen them.
  obtain ⟨same, positive⟩ := @foldl_widen rows (headers.map fun header => max 1 header.length)
    (by simpa using full) (List.forall_mem_map.2 fun header _ => le_max_left ..)
  refine ⟨?_, List.forall_mem_map.2 fun width among => ⟨?_, min_le_left ..⟩⟩
  · rw [columnWidths, List.length_map]
    exact same.trans (List.length_map ..)
  · exact le_min (by decide) (positive width among)

/-! ## Rows -/

/-- What a cell has on one of the lines of its row. -/
def cellLine (width : Nat) (cell : Cell) (line : Nat) : Bytes :=
  fitText width cell.toRight ((wrapText width cell.text).getD line [])

/-- The number of lines of a row. -/
def rowHeight (widths : List Nat) (cells : List Cell) : Nat :=
  (widths.zip cells).foldl (fun height member =>
    max height (wrapText member.1 member.2.text).length) 1

/-- What the columns have on one of the lines of a row. -/
def cellLines (widths : List Nat) (cells : List Cell) (line : Nat) : List Bytes :=
  (widths.zip cells).map fun member => cellLine member.1 member.2 line

/-- The lines of a row, without the line feeds. -/
def rowBlock (widths : List Nat) (cells : List Cell) : List Bytes :=
  (List.range (rowHeight widths cells)).map fun line => lineOf (cellLines widths cells line)

/-- The lines of a row are those of its block, each with a line end. -/
theorem rowLines_eq (widths : List Nat) (cells : List Cell) :
    rowLines widths cells = (rowBlock widths cells).map (· ++ [lineFeed]) := by
  -- The block has as many lines as the tallest cell, which both count alike.
  simp only [rowLines, rowBlock, rowHeight, List.foldl_map, List.map_map]
  rfl

/-- On every line a column is as wide as it is. -/
theorem map_length_cellLines (same : cells.length = widths.length) (line : Nat) :
    -- Every cell is cut or filled up to the width of its column.
    (cellLines widths cells line).map List.length = widths :=
  map_length_zip same fun _ => length_fitText ..

/-- A row has as many lines as any of its cells, and one at least. -/
theorem le_rowHeight (widths : List Nat) (cells : List Cell) :
    1 ≤ rowHeight widths cells ∧ ∀ member ∈ widths.zip cells,
      (wrapText member.1 member.2.text).length ≤ rowHeight widths cells := by
  -- The height grows from cell to cell, so that it stays quantified over.
  have general (members : List (Nat × Cell)) (start : Nat) :
      let height := members.foldl (fun height member =>
        max height (wrapText member.1 member.2.text).length) start
      start ≤ height ∧ ∀ member ∈ members, (wrapText member.1 member.2.text).length ≤ height := by
    induction members generalizing start with
    | nil => exact ⟨le_rfl, by simp⟩
    | cons member members ih =>
      obtain ⟨grown, others⟩ := ih (max start (wrapText member.1 member.2.text).length)
      refine ⟨(le_max_left ..).trans grown, List.forall_mem_cons.2 ⟨?_, others⟩⟩
      exact (le_max_right ..).trans grown
  exact general (widths.zip cells) 1

/-- The parts of a list are got one after another, and nothing behind them. -/
theorem flatMap_range_getD (parts : List Bytes) {count : Nat} (enough : parts.length ≤ count) :
    ((List.range count).flatMap fun position => parts.getD position []) = parts.flatten := by
  -- The first position gives the first part, and the others are those of the rest.
  induction parts generalizing count with
  | nil => simp
  | cons part parts ih =>
    obtain ⟨count, rfl⟩ := Nat.exists_eq_add_one_of_ne_zero (Nat.ne_zero_of_lt enough)
    rw [List.range_succ_eq_map, List.flatMap_cons, List.flatMap_map, List.flatten_cons]
    simp only [List.getD_cons_zero, List.getD_cons_succ]
    rw [ih (Nat.le_of_succ_le_succ enough)]

/-- The lines of a cell have all of its text but white space. -/
theorem solidOf_cellLines {width : Nat} (positive : 1 ≤ width) (cell : Cell) {height : Nat}
    (enough : (wrapText width cell.text).length ≤ height) :
    solidOf ((List.range height).flatMap (cellLine width cell)) = solidOf cell.text := by
  -- Every line fits, so that none is cut off.
  have each (line : Nat) : solidOf (cellLine width cell line) =
      solidOf ((wrapText width cell.text).getD line []) := by
    refine solidOf_fitText ?_ cell.toRight
    rw [List.getD_eq_getElem?_getD]
    cases found : (wrapText width cell.text)[line]? with
    | none => exact Nat.zero_le _
    | some part => exact length_le_of_mem_wrapText positive part (List.mem_of_getElem? found)
  rw [solidOf_flatMap]
  simp only [each]
  rw [← solidOf_flatMap, flatMap_range_getD _ enough, solidOf_flatten_wrapText]

/-- A row has in every column all of the cell there but white space. -/
theorem solidOf_rowBlock (nonempty : widths ≠ []) (same : cells.length = widths.length)
    (positive : ∀ width ∈ widths, 1 ≤ width) {column : Nat} {cell : Cell}
    (found : cells[column]? = some cell) :
    solidOf ((rowBlock widths cells).flatMap (columnText widths column)) = solidOf cell.text := by
  obtain ⟨inside, -⟩ := List.getElem?_eq_some_iff.1 found
  have isWidth : widths[column]? = some widths[column] := List.getElem?_eq_getElem (same ▸ inside)
  have isMember : (widths.zip cells)[column]? = some (widths[column], cell) :=
    List.getElem?_zip_eq_some.2 ⟨isWidth, found⟩
  have shown (line : Nat) : columnText widths column (lineOf (cellLines widths cells line)) =
      cellLine widths[column] cell line := by
    rw [columnText_lineOf (map_length_cellLines same line) nonempty, cellLines,
      List.getD_eq_getElem?_getD, List.getElem?_map, isMember]
    rfl
  -- Cut out of the lines of the row, the column has the lines of the cell one after another.
  rw [rowBlock, List.flatMap_map]
  simp only [shown]
  exact solidOf_cellLines (positive _ (List.getElem_mem _)) cell
    ((le_rowHeight widths cells).2 _ (List.mem_of_getElem? isMember))

/-- Every row has a line. -/
theorem rowBlock_ne_nil (widths : List Nat) (cells : List Cell) : rowBlock widths cells ≠ [] := by
  have positive := (le_rowHeight widths cells).1
  -- A row is one line high at least.
  intro nothing
  have none := congrArg List.length nothing
  rw [rowBlock, List.length_map, List.length_range, List.length_nil] at none
  omega

/-! ## The table -/

/-- The names of the columns, each as wide as its column. -/
def titles (relation : Relation) (widths : List Nat) : List Bytes :=
  (widths.zip relation.headers).map fun member => fitText member.1 false member.2

/-- The line under the names of the columns. -/
def ruleOf (titles : List Bytes) : Bytes :=
  lineOf [(joinWith "  " titles).map fun _ => (0x2D : UInt8)]

/-- The lines of every row. -/
def rowBlocks (relation : Relation) (widths : List Nat) : List (List Bytes) :=
  relation.cellRows.map (rowBlock widths)

/-- The lines of the table, without the line feeds. -/
def tableLines (relation : Relation) (widths : List Nat) : List Bytes :=
  lineOf (relation.titles widths) :: ruleOf (relation.titles widths) ::
    (relation.rowBlocks widths).flatten

/-- The table is printed line by line. -/
theorem gridLines_eq (relation : Relation) :
    relation.gridLines =
      (relation.tableLines (columnWidths relation.headers relation.cellRows)).map
        (· ++ [lineFeed]) := by
  -- The lines of all rows are those of their blocks, one block after the other.
  have rows (widths : List Nat) : relation.cellRows.flatMap (rowLines widths) =
      (relation.rowBlocks widths).flatten.map (· ++ [lineFeed]) := by
    have each : rowLines widths = fun cells => (rowBlock widths cells).map (· ++ [lineFeed]) :=
      funext (rowLines_eq widths)
    rw [rowBlocks, ← List.flatMap_def, List.map_flatMap, each]
  simp only [gridLines, rows]
  rfl

/-- Every line of the table is one of texts, none of which has a line end. -/
theorem exists_lineOf_of_mem (relation : Relation) (widths : List Nat) :
    ∀ line ∈ relation.tableLines widths,
      ∃ texts, (∀ text ∈ texts, OneLine text) ∧ lineOf texts = line := by
  -- The lines are the titles, the rule, and those of the blocks.
  refine List.forall_mem_cons.2 ⟨⟨_, ?_, rfl⟩, List.forall_mem_cons.2 ⟨⟨_, ?_, rfl⟩, ?_⟩⟩
  · refine List.forall_mem_map.2 fun member among => OneLine.fitText ?_ member.1 false
    obtain ⟨column, -, shown⟩ := List.mem_map.1 (List.of_mem_zip among).2
    exact shown ▸ oneLine_flattenText column
  · refine List.forall_mem_singleton.2 fun among => ?_
    obtain ⟨_, -, same⟩ := List.mem_map.1 among
    exact absurd same (by decide)
  · intro line among
    -- A line of a block is made of the cells of its row.
    obtain ⟨_, isBlock, isLine⟩ := List.mem_flatten.1 among
    obtain ⟨cells, isRow, rfl⟩ := List.mem_map.1 isBlock
    obtain ⟨number, -, rfl⟩ := List.mem_map.1 isLine
    refine ⟨_, List.forall_mem_map.2 fun member among => ?_, rfl⟩
    obtain ⟨row, -, rfl⟩ := List.mem_map.1 isRow
    obtain ⟨value, -, shown⟩ := List.mem_map.1 (List.of_mem_zip among).2
    have cell : OneLine member.2.text := shown ▸ oneLine_flattenText value.toText
    exact (cell.getD_wrapText member.1 number).fitText member.1 member.2.toRight

/-- All lines of the table are equally long. -/
theorem length_of_mem_tableLines {relation : Relation} (nonempty : widths ≠ [])
    (headers : relation.headers.length = widths.length)
    (full : ∀ cells ∈ relation.cellRows, cells.length = widths.length) :
    ∀ line ∈ relation.tableLines widths, line.length = lineWidth widths := by
  -- The titles are cut or filled up to the widths of their columns.
  have fit : (relation.titles widths).map List.length = widths :=
    map_length_zip headers fun _ => length_fitText ..
  -- The rule is as long as the titles.
  have rule : (ruleOf (relation.titles widths)).length =
      (lineOf (relation.titles widths)).length := by
    have single (text : Bytes) : joinWith "  " [text] = text := List.append_nil text
    rw [ruleOf, lineOf, lineOf, single, List.length_append, List.length_append, List.length_map]
  -- What is left is about the lines of the blocks.
  rw [length_lineOf fit nonempty] at rule
  refine List.forall_mem_cons.2 ⟨length_lineOf fit nonempty, List.forall_mem_cons.2 ⟨rule, ?_⟩⟩
  intro line among
  obtain ⟨_, isBlock, isLine⟩ := List.mem_flatten.1 among
  obtain ⟨cells, isRow, rfl⟩ := List.mem_map.1 isBlock
  obtain ⟨number, -, rfl⟩ := List.mem_map.1 isLine
  exact length_lineOf (map_length_cellLines (full cells isRow) number) nonempty

/-- The lines of a table, which are equally long and have all of the rows but white space. -/
structure Rectangle (relation : Relation) (widths : List Nat) (header rule : Bytes)
    (blocks : List (List Bytes)) : Prop where
  length_widths : widths.length = relation.columns.length
  bounded : ∀ width ∈ widths, 1 ≤ width ∧ width ≤ 40
  flush : ∀ line ∈ header :: rule :: blocks.flatten,
    OneLine line ∧ line.length = lineWidth widths
  kept : List.Forall₂ (fun row block => block ≠ [] ∧ ∀ column value, row[column]? = some value →
    solidOf (block.flatMap (columnText widths column)) = solidOf value.toText) relation.rows blocks

/-- The table of rows that have a value for every column is rectangular. -/
theorem rectangle {relation : Relation} (columns : relation.columns ≠ [])
    (full : ∀ row ∈ relation.rows, row.length = relation.columns.length) :
    let widths := columnWidths relation.headers relation.cellRows
    relation.Rectangle widths (lineOf (relation.titles widths)) (ruleOf (relation.titles widths))
      (relation.rowBlocks widths) := by
  have headers : relation.headers.length = relation.columns.length := List.length_map ..
  have cells : ∀ cells ∈ relation.cellRows, cells.length = relation.headers.length := by
    refine List.forall_mem_map.2 fun row among => ?_
    rw [List.length_map, full row among, headers]
  obtain ⟨same, bounded⟩ := columnWidths_bounded cells
  -- Nothing but the bounds matters of how the widths are found.
  generalize columnWidths relation.headers relation.cellRows = widths at same bounded
  rw [← same] at cells
  have nonempty : widths ≠ [] := by
    rwa [← List.length_pos_iff, same, headers, List.length_pos_iff]
  refine ⟨same.trans headers, bounded, fun line among => ⟨?_, ?_⟩, ?_⟩
  · obtain ⟨texts, all, rfl⟩ := relation.exists_lineOf_of_mem widths line among
    exact oneLine_lineOf all
  · exact length_of_mem_tableLines nonempty same.symm cells line among
  · rw [rowBlocks, cellRows, List.map_map, List.forall₂_map_right_iff, List.forall₂_same]
    refine fun row among => ⟨rowBlock_ne_nil _ _, fun column value found => ?_⟩
    have cell : (row.map Cell.ofValue)[column]? = some (.ofValue value) := by
      rw [List.getElem?_map, found, Option.map_some]
    have kept := solidOf_rowBlock nonempty (cells _ (List.mem_map_of_mem among))
      (fun width among => (bounded width among).1) cell
    exact kept.trans (solidOf_flattenText _)

end Relation

/--
The rows of a reply that have a value for every column are shown as a table of lines that are
equally long. Whatever its bytes, a text is wrapped in finitely many passes, and each column of the
lines of a row has all of the value there but white space.
-/
theorem replies_show_rectangles {reply : Reply} (succeeded : reply.isSuccess = true)
    (columns : reply.relation.columns ≠ []) (rows : reply.relation.rows ≠ [])
    (full : ∀ row ∈ reply.relation.rows, row.length = reply.relation.columns.length) :
    ∃ widths header rule blocks, reply.relation.Rectangle widths header rule blocks ∧
      (∀ width ∈ widths, ∀ text : Bytes, (wrapPass width)^[text.length] ([], text) =
        (if text = [] then [] else wrapText width text, [])) ∧
      reply.text = utf8 "OK: " ++ reply.message ++ utf8 "\n" ++
        ((header :: rule :: blocks.flatten).flatMap (· ++ [lineFeed]) ++
          utf8 "[rows=" ++ decimal reply.relation.rows.length ++ utf8 "]\n") := by
  -- The table that is printed is a rectangle, with the widths that its columns have.
  have rectangle := Relation.rectangle columns full
  -- A reply that succeeds with columns and rows is shown with a table.
  have shown : reply.text =
      utf8 "OK: " ++ reply.message ++ utf8 "\n" ++ reply.relation.grid := by
    simp [Reply.text, succeeded, columns, rows]
  refine ⟨_, _, _, _, rectangle, fun width among text => ?_, ?_⟩
  · exact iterate_wrapPass (rectangle.bounded width among).1 le_rfl []
  · rw [shown, Relation.grid, Relation.gridLines_eq, ← List.flatMap_def,
      List.append_assoc _ _ [lineFeed]]
    rfl

/-- A run of blanks and a word that are both wider than the column lose nothing else. -/
theorem replies_show_rectangles_wider_than_columns :
    ∃ widths header rule block, Relation.Rectangle ⟨["id", "a\nb"], [[.integer (-7), .text
        "\t\t\t\t\t\t\t\t\t\t\tabcdefghijklmnopqrstuvwxyz0123456789abcdef\x0b\n 1\r"]]⟩
        widths header rule [block] ∧
      solidOf (block.flatMap (columnText widths 0)) = "-7" ∧
      solidOf (block.flatMap (columnText widths 1)) =
        "abcdefghijklmnopqrstuvwxyz0123456789abcdef1" := by
  obtain ⟨widths, header, rule, blocks, rectangle, -⟩ := @replies_show_rectangles
    ⟨.ok, "Selected 1 row(s)", ⟨["id", "a\nb"], [[.integer (-7), .text
      "\t\t\t\t\t\t\t\t\t\t\tabcdefghijklmnopqrstuvwxyz0123456789abcdef\x0b\n 1\r"]]⟩⟩
    rfl (by decide) (by decide) (by decide)
  -- There is one row, with two columns.
  obtain ⟨block, none, ⟨-, kept⟩, isNone, rfl⟩ := List.forall₂_cons_left_iff.1 rectangle.kept
  obtain rfl := List.forall₂_nil_left_iff.1 isNone
  refine ⟨widths, header, rule, block, rectangle, (kept 0 _ rfl).trans ?_, (kept 1 _ rfl).trans ?_⟩
  · decide +kernel
  · decide +kernel

end TableStore
