import TableStore.Quoted

/-!
Readers of one token at the start of a text. Each skips the white space ahead of the token and
gives back the text behind it, or nothing if another token stands there.
-/

namespace TableStore

namespace Token

/-- Reads a keyword in any letter case. -/
def keyword? (word text : Bytes) : Option Bytes := dropWord? word (skipSpaces text)

/-- Reads a single byte. -/
def symbol? (symbol : UInt8) (text : Bytes) : Option Bytes :=
  -- White space in front of a token is always skipped.
  match skipSpaces text with
  | byte :: rest => if byte == symbol then some rest else none
  | [] => none

/-- A symbol is read exactly if it is the first byte that is not white space. -/
theorem symbol?_eq_some_iff {symbol : UInt8} {text rest : Bytes} :
    symbol? symbol text = some rest ↔ skipSpaces text = symbol :: rest := by
  -- Only a first byte that is the symbol itself is taken.
  unfold symbol?
  split <;> simp_all

/-- Reads a name, the longest run of word bytes. -/
def identifier? (text : Bytes) : Option (Bytes × Bytes) :=
  let text := skipSpaces text
  -- The name is all the word bytes that follow one another.
  let name := text.takeWhile isWordByte
  if name.isEmpty then none else some (name, text.dropWhile isWordByte)

/-- A name is read exactly if it stands behind the white space and does not go on. -/
theorem identifier?_eq_some_iff {text name rest : Bytes} :
    identifier? text = some (name, rest) ↔
      skipSpaces text = name ++ rest ∧ isIdentifier name = true ∧
        rest.head?.any isWordByte = false := by
  simp only [identifier?]
  generalize skipSpaces text = text
  constructor
  · intro read
    -- The run of word bytes is the name, and what stops it is no word byte.
    split at read
    · simp at read
    · rename_i nonempty
      obtain ⟨rfl, rfl⟩ := Prod.mk.inj (Option.some.inj read)
      refine ⟨List.takeWhile_append_dropWhile.symm, by simp_all [isIdentifier], ?_⟩
      have ends := List.head?_dropWhile_not isWordByte text
      cases first : (text.dropWhile isWordByte).head? with
      | none => rfl
      | some byte =>
        rw [first] at ends
        exact ends
  · rintro ⟨rfl, isName, ends⟩
    -- A name is made of word bytes alone, so that the run is exactly the name.
    have word : ∀ byte ∈ name, isWordByte byte = true := by simp_all [isIdentifier]
    have nonempty : name ≠ [] := by simp_all [isIdentifier]
    rw [List.takeWhile_append_of_pos word, List.dropWhile_append_of_pos word]
    cases rest <;> simp_all

/-- A text without the semicolon and the white space that may end a statement. -/
def dropEnd (text : Bytes) : Bytes :=
  let text := dropTrailingSpaces text
  if text.getLast? = some semicolon then dropTrailingSpaces text.dropLast else text

/--
Reads a value: a quoted run up to its closing quote, or else all that remains of the statement.
The quotes belong to the token.
-/
def value? (text : Bytes) : Option (Bytes × Bytes) :=
  let text := skipSpaces text
  -- A run without its closing quote is no token.
  let token := match text with
    | [] => []
    | first :: rest =>
      if isQuote first then
        if rest.contains first then first :: rest.takeWhile (· != first) ++ [first] else []
      else dropEnd text
  if token.isEmpty then none else some (token, text.drop token.length)

/-- What is left after the white space and the one semicolon that may end a statement. -/
def afterEnd (text : Bytes) : Bytes :=
  match skipSpaces text with
  | 0x3B :: rest => skipSpaces rest
  | text => text

/-- Whether a statement may end here. -/
def isAtEnd (text : Bytes) : Bool := (afterEnd text).isEmpty

end Token

end TableStore
