/-! Byte strings, the classes of ASCII bytes, and the ways of cutting a text at white space. -/

namespace TableStore

/-- All text is a string of bytes, whether or not it is valid UTF-8. -/
abbrev Bytes := List UInt8

/-- The UTF-8 bytes of a text. -/
def utf8 (text : String) : Bytes := text.toByteArray.data.toList

/-- A quoted text stands for its bytes. -/
instance : Coe String Bytes := ⟨utf8⟩

/-- The byte that opens and closes a single-quoted text. -/
abbrev apostrophe : UInt8 := 0x27

/-- The byte that opens and closes a double-quoted text. -/
abbrev quotationMark : UInt8 := 0x22

/-- The byte that separates the items of a list. -/
abbrev comma : UInt8 := 0x2C

/-- The byte that joins a table name to a column name. -/
abbrev period : UInt8 := 0x2E

/-- The byte that may end a statement. -/
abbrev semicolon : UInt8 := 0x3B

/-- The byte between a column and its value. -/
abbrev equalsSign : UInt8 := 0x3D

/-- The byte that opens a list of columns or values. -/
abbrev openParenthesis : UInt8 := 0x28

/-- The byte that closes a list of columns or values. -/
abbrev closeParenthesis : UInt8 := 0x29

/-- The byte that ends a line. -/
abbrev lineFeed : UInt8 := 0x0A

/-- The byte that fills a column of text. -/
abbrev space : UInt8 := 0x20

/-- White space is the space and the five controls from tab to carriage return. -/
def isSpace (byte : UInt8) : Bool := byte == space || (0x09 ≤ byte && byte ≤ 0x0D)

/-- The ten ASCII digits. -/
def isDigit (byte : UInt8) : Bool := 0x30 ≤ byte && byte ≤ 0x39

/-- The ASCII capital letters. -/
def isUpper (byte : UInt8) : Bool := 0x41 ≤ byte && byte ≤ 0x5A

/-- The ASCII small letters. -/
def isLower (byte : UInt8) : Bool := 0x61 ≤ byte && byte ≤ 0x7A

/-- A word is made of ASCII letters, digits and low lines; bytes above ASCII belong to no word. -/
def isWordByte (byte : UInt8) : Bool :=
  isUpper byte || isLower byte || isDigit byte || byte == 0x5F

/-- Either of the two bytes that open a quoted run. -/
def isQuote (byte : UInt8) : Bool := byte == apostrophe || byte == quotationMark

/-- The capital of a small ASCII letter; every other byte is kept. -/
def upperByte (byte : UInt8) : UInt8 := if isLower byte then byte - 0x20 else byte

/-- The small form of an ASCII capital; every other byte is kept. -/
def lowerByte (byte : UInt8) : UInt8 := if isUpper byte then byte + 0x20 else byte

/-- A text with its ASCII letters in capitals. -/
def upper (text : Bytes) : Bytes := text.map upperByte

/-- A text with its ASCII letters in small form. -/
def lower (text : Bytes) : Bytes := text.map lowerByte

/-- A text without its leading white space. -/
def skipSpaces (text : Bytes) : Bytes := text.dropWhile isSpace

/-- The white space that is skipped and what is left make up the text. -/
theorem takeWhile_append_skipSpaces (text : Bytes) :
    text.takeWhile isSpace ++ skipSpaces text = text := List.takeWhile_append_dropWhile

/-- Skipping white space never makes a text longer. -/
theorem length_skipSpaces_le (text : Bytes) : (skipSpaces text).length ≤ text.length :=
  -- What is dropped is a prefix, and what is left is a part of the text.
  (List.dropWhile_sublist _).length_le

/-- A text without its trailing white space. -/
def dropTrailingSpaces (text : Bytes) : Bytes := (text.reverse.dropWhile isSpace).reverse

/-- A text without the white space at its two ends. -/
def trim (text : Bytes) : Bytes := dropTrailingSpaces (skipSpaces text)

/-- The pieces between the bytes that a test picks out, always at least one. -/
def splitWhere (cuts : UInt8 → Bool) : Bytes → List Bytes
  | [] => [[]]
  | byte :: rest =>
    -- A cut begins a new piece, and any other byte joins the first piece of the rest.
    if cuts byte then [] :: splitWhere cuts rest
    else (splitWhere cuts rest).modifyHead (byte :: ·)

/-- The texts before and after the first occurrence of a byte. -/
def splitAtFirst? (separator : UInt8) : Bytes → Option (Bytes × Bytes)
  | [] => none
  | byte :: rest =>
    if byte == separator then some ([], rest)
    else (splitAtFirst? separator rest).map fun (before, after) => (byte :: before, after)

/-- A text is cut at the first occurrence: there is none before it. -/
theorem splitAtFirst?_eq_some_iff {separator : UInt8} {text before after : Bytes} :
    splitAtFirst? separator text = some (before, after) ↔
      text = before ++ separator :: after ∧ separator ∉ before := by
  constructor
  · intro cut
    fun_induction splitAtFirst? separator text generalizing before with
    | case1 => simp at cut
    | case2 byte rest found => simp_all
    | case3 byte rest other ih =>
      -- The rest is cut, and the byte in front of it is no separator.
      obtain ⟨⟨_, _⟩, cutRest, same⟩ := Option.map_eq_some_iff.1 cut
      obtain ⟨rfl, rfl⟩ := Prod.mk.inj same
      obtain ⟨rfl, absent⟩ := ih cutRest
      grind
  · rintro ⟨rfl, absent⟩
    induction before with
    | nil => simp [splitAtFirst?]
    | cons byte before ih => grind [splitAtFirst?]

/-- The texts before and after the last occurrence of a byte. -/
def splitAtLast? (separator : UInt8) : Bytes → Option (Bytes × Bytes)
  | [] => none
  | byte :: rest =>
    -- The rest is searched first, so that a later occurrence comes before this one.
    match splitAtLast? separator rest with
    | some (before, after) => some (byte :: before, after)
    | none => if byte == separator then some ([], rest) else none

/-- A text is not cut exactly if it does not contain the separator. -/
theorem splitAtLast?_eq_none_iff {separator : UInt8} {text : Bytes} :
    splitAtLast? separator text = none ↔ separator ∉ text := by
  -- The text is cut at a separator exactly if there is one in it, at its head or behind.
  fun_induction splitAtLast? separator text <;> grind

/-- A text is cut at the last occurrence: there is none after it. -/
theorem splitAtLast?_eq_some_iff {separator : UInt8} {text before after : Bytes} :
    splitAtLast? separator text = some (before, after) ↔
      text = before ++ separator :: after ∧ separator ∉ after := by
  constructor
  · intro cut
    -- A byte is the last separator only if the rest has none.
    fun_induction splitAtLast? separator text generalizing before <;>
      grind [splitAtLast?_eq_none_iff]
  · rintro ⟨rfl, absent⟩
    induction before with
    | nil => simp [splitAtLast?, splitAtLast?_eq_none_iff.2 absent]
    | cons byte before ih => simp [splitAtLast?, ih]

/-- The maximal runs of bytes that are not white space. -/
def words (text : Bytes) : List Bytes := (splitWhere isSpace text).filter (· ≠ [])

/-- The lines of a text; what follows the last line feed is a line only if it is not empty. -/
def lines (text : Bytes) : List Bytes :=
  let pieces := splitWhere (· == lineFeed) text
  if pieces.getLast? = some [] then pieces.dropLast else pieces

/-- A name is a non-empty run of word bytes. -/
def isIdentifier (text : Bytes) : Bool := text ≠ [] && text.all isWordByte

/-- Whether one text occurs inside another. -/
def occursIn (part : Bytes) : Bytes → Bool
  | [] => part.isEmpty
  | byte :: rest => part.isPrefixOf (byte :: rest) || occursIn part rest

/-- The texts with a separator between each two of them. -/
def joinWith (separator : Bytes) (parts : List Bytes) : Bytes :=
  (parts.intersperse separator).flatten

end TableStore
