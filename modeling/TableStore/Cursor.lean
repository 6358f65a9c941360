import TableStore.Token

/-! A position in a text that the token readers move forward. -/

namespace TableStore

/-- A text and how many of its bytes have been read. -/
structure Cursor where
  input : Bytes
  position : Nat
deriving DecidableEq

namespace Cursor

/-- A cursor before the first byte of a text. -/
def start (input : Bytes) : Cursor := { input, position := 0 }

/-- The text not yet read. -/
def rest (cursor : Cursor) : Bytes := cursor.input.drop cursor.position

/-- The cursor moved to where a given text is left to read. -/
def moveTo (cursor : Cursor) (rest : Bytes) : Cursor :=
  { cursor with position := cursor.input.length - rest.length }

/-- The cursor moved over the white space ahead of it. -/
def skipSpaces (cursor : Cursor) : Cursor := cursor.moveTo (TableStore.skipSpaces cursor.rest)

/-- The cursor at an offset, or at the end of the text if the offset is beyond it. -/
def seek (cursor : Cursor) (offset : Nat) : Cursor :=
  { cursor with position := min offset cursor.input.length }

/-- Moves over a token that has no text of its own; without one, only over the white space. -/
def accept (cursor : Cursor) (read : Option Bytes) : Bool × Cursor :=
  match read with
  -- What is left behind the token tells how far to go.
  | some rest => (true, cursor.moveTo rest)
  | none => (false, cursor.skipSpaces)

/-- Moves over a token and gives its text; without one, moves only over the white space. -/
def take (cursor : Cursor) (read : Option (Bytes × Bytes)) : Option Bytes × Cursor :=
  match read with
  | some (token, rest) => (some token, cursor.moveTo rest)
  | none => (none, cursor.skipSpaces)

/-- Moves over a keyword, in any letter case. -/
def keyword (cursor : Cursor) (word : Bytes) : Bool × Cursor :=
  cursor.accept (Token.keyword? word cursor.rest)

/-- Moves over a single byte. -/
def symbol (cursor : Cursor) (byte : UInt8) : Bool × Cursor :=
  cursor.accept (Token.symbol? byte cursor.rest)

/-- Moves over a name. -/
def identifier (cursor : Cursor) : Option Bytes × Cursor :=
  cursor.take (Token.identifier? cursor.rest)

/-- Moves over a value. -/
def value (cursor : Cursor) : Option Bytes × Cursor := cursor.take (Token.value? cursor.rest)

/-- Moves over the end of a statement and tells whether the text ends there. -/
def finish (cursor : Cursor) : Bool × Cursor :=
  let rest := Token.afterEnd cursor.rest
  (rest.isEmpty, cursor.moveTo rest)

end Cursor

end TableStore
