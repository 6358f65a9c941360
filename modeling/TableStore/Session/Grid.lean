import TableStore.Relation

/-!
Rows as a table of text: columns as wide as their longest text, at most forty bytes, with longer
texts wrapped over several lines.
-/

namespace TableStore

/-- No column of the table is wider. -/
def maximalWidth : Nat := 40

/-- A text on one line: line ends become one space and tabs become four. -/
def flattenText (text : Bytes) : Bytes :=
  text.flatMap fun byte =>
    -- Every line end counts by itself, so that a pair of them becomes two spaces.
    if byte == 0x0A || byte == 0x0D then [space]
    else if byte == 0x09 then List.replicate 4 space
    else [byte]

/-- A text filled up with spaces on the right to a width, if it is shorter. -/
def padRight (width : Nat) (text : Bytes) : Bytes :=
  text ++ List.replicate (width - text.length) space

/-- A text of exactly a given width, cut or filled up with spaces. -/
def fitText (width : Nat) (toRight : Bool) (text : Bytes) : Bytes :=
  -- One of the two does nothing: either the text is cut or it is filled up.
  let text := text.take width
  let padding := List.replicate (width - text.length) space
  if toRight then padding ++ text else text ++ padding

/-- The width is exact. -/
theorem length_fitText (width : Nat) (toRight : Bool) (text : Bytes) :
    (fitText width toRight text).length = width := by
  -- The padding makes up for what is missing after the cut, on whichever side it stands.
  cases toRight <;>
    simp only [fitText, if_true, Bool.false_eq_true, if_false, List.length_append,
      List.length_replicate, List.length_take] <;> omega

/-- How much of a text longer than a width goes on one line: up to the last space that fits. -/
def breakAt (width : Nat) (text : Bytes) : Nat :=
  -- The space stays with the line, and without one the line is as long as it can be.
  match splitAtLast? space (text.take width) with
  | some (before, _) => before.length + 1
  | none => width

/-- The first line of a text longer than a width, and how much of the text it takes up. -/
def firstLine (width : Nat) (text : Bytes) : Bytes × Nat :=
  let line := dropTrailingSpaces (text.take (breakAt width text))
  -- Where only white space would be left, the text is broken at the width.
  if line.isEmpty then (text.take width, width) else (line, breakAt width text)

/-- A line takes up some of the text. -/
theorem breakAt_pos {width : Nat} (positive : 0 < width) (text : Bytes) :
    0 < breakAt width text := by
  -- A space that fits is taken along, and without one the whole width is.
  unfold breakAt
  split
  · exact Nat.succ_pos _
  · exact positive

/-- The first line takes up some of the text. -/
theorem firstLine_pos {width : Nat} (positive : 0 < width) (text : Bytes) :
    0 < (firstLine width text).2 := by
  -- Either the line is broken at the width, or as far as the last space that fits.
  simp only [firstLine]
  split
  · exact positive
  · exact breakAt_pos positive text

/-- The lines of a text in a column of a given width. -/
def wrapText (width : Nat) (text : Bytes) : List Bytes :=
  if _fits : width = 0 ∨ text.length ≤ width then [text]
  else
    -- The next line begins behind the white space at the break.
    let first := firstLine width text
    let rest := skipSpaces (text.drop first.2)
    first.1 :: (if rest.isEmpty then [] else wrapText width rest)
termination_by text.length
decreasing_by
  have positive : 0 < width := by omega
  have taken := firstLine_pos positive text
  have left := length_skipSpaces_le (text.drop (firstLine width text).2)
  simp only [List.length_drop] at left
  omega

/-- One cell of the table of text: its text, and whether it stands to the right. -/
structure Cell where
  text : Bytes
  toRight : Bool
deriving DecidableEq

namespace Cell

/-- The cell of a value; numbers stand to the right. -/
def ofValue (value : Value) : Cell :=
  { text := flattenText value.toText, toRight := value.isNumeric }

end Cell

namespace Relation

/-- The column names as the table shows them. -/
def headers (relation : Relation) : List Bytes := relation.columns.map flattenText

/-- The cells of the rows. -/
def cellRows (relation : Relation) : List (List Cell) := relation.rows.map (·.map Cell.ofValue)

/--
The widths of the columns: that of the longest text in each, at least one and at most the maximum.
-/
def columnWidths (headers : List Bytes) (rows : List (List Cell)) : List Nat :=
  -- The headers give the least widths, and each row may widen them.
  let widen (widths : List Nat) (cells : List Cell) : List Nat :=
    widths.zipWith (fun width cell => max width cell.text.length) cells
  let widest := rows.foldl widen (headers.map fun header => max 1 header.length)
  widest.map (min maximalWidth)

/-- One line of the table, indented and with gaps between the columns. -/
def gridLine (texts : List Bytes) : Bytes := "  " ++ joinWith "  " texts ++ [lineFeed]

/-- The lines of a row: as many as its tallest cell has. -/
def rowLines (widths : List Nat) (cells : List Cell) : List Bytes :=
  -- Every cell is wrapped by itself, and cells that run out are filled up with spaces.
  let wrapped := (widths.zip cells).map fun (width, cell) =>
    (width, cell.toRight, wrapText width cell.text)
  let height := wrapped.foldl (fun height (_, _, lines) => max height lines.length) 1
  (List.range height).map fun line =>
    gridLine (wrapped.map fun (width, toRight, lines) => fitText width toRight (lines.getD line []))

/-- The lines of the table: the column names, a rule as long as they are, and the rows. -/
def gridLines (relation : Relation) : List Bytes :=
  let headers := relation.headers
  -- All lines are built from the same widths.
  let rows := relation.cellRows
  let widths := columnWidths headers rows
  let titles := (widths.zip headers).map fun (width, header) => fitText width false header
  let rule := (joinWith "  " titles).map fun _ => (0x2D : UInt8)
  gridLine titles :: gridLine [rule] :: rows.flatMap (rowLines widths)

/-- The table and the number of rows. -/
def grid (relation : Relation) : Bytes :=
  relation.gridLines.flatten ++ "[rows=" ++ decimal relation.rows.length ++ "]" ++ [lineFeed]

end Relation

end TableStore
