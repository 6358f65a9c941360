import TableStore.Binary64.Numeral
import TableStore.Value.Basic

/-! The value that a literal in a statement stands for. -/

namespace TableStore

/-- What stands between the quotes of a text that starts and ends with the same quote. -/
def unquote? (text : Bytes) : Option Bytes :=
  match text with
  -- One byte alone can begin and end nothing.
  | first :: rest =>
    if isQuote first && rest.getLast? == some first then some rest.dropLast else none
  | [] => none

/--
The value of a literal: a quoted text as it stands, else an integer, else a number, else the
bare text without the white space around it.
-/
def readLiteral (text : Bytes) : Value :=
  let bare := trim text
  -- The order decides: a quoted number stays a text.
  match unquote? bare with
  | some inner => .text inner
  | none => match readInteger bare with
    | some number => .integer number
    | none => match Binary64.read bare with
      | some number => .float number
      | none => .text bare

end TableStore
