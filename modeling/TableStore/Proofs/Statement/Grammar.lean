import Mathlib.Computability.Language
import TableStore.Proofs.Token
import TableStore.Statement.Condition

/-!
The texts of which statements are made, as languages over bytes. Main statements: a reader takes a
token off a text exactly if the text is a written form of the token with more text behind it, and
the clause that ends a statement is read exactly as it is written.
-/

namespace TableStore

namespace Grammar

/-- Any white space. -/
def spaces : Language UInt8 := {text | Blank text}

/-- White space that sets two words apart. -/
def gap : Language UInt8 := {text | Blank text ∧ text ≠ []}

/-- A keyword in any letter case. -/
def word (keyword : Bytes) : Language UInt8 := {text | upper text = upper keyword}

/-- A name that is, in any letter case, none of the reserved words. -/
def identifier (reserved : List Bytes) (name : Bytes) : Language UInt8 :=
  {text | text = name ∧ isIdentifier name = true ∧ ∀ word ∈ reserved, upper name ≠ upper word}

/-- A single byte. -/
def symbol (byte : UInt8) : Language UInt8 := {[byte]}

/-- A text between two quotes of one kind that does not contain them. -/
def quoted (inside : Bytes) : Language UInt8 :=
  {text | ∃ quote, isQuote quote = true ∧ quote ∉ inside ∧ text = quote :: (inside ++ [quote])}

/-- White space, or a semicolon between white space. -/
def ending : Language UInt8 := spaces * (1 + symbol semicolon * spaces)

/-- A table and one of its columns. -/
def member (reserved : List Bytes) (table column : Bytes) : Language UInt8 :=
  identifier reserved table * spaces * symbol period * spaces * identifier reserved column

/-- The name of a column with that of its table in front. -/
def qualified (reserved : List Bytes) (name : Bytes) : Language UInt8 :=
  {text | ∃ table column, name = table ++ period :: column ∧ text ∈ member reserved table column}

/-- A column, which may be qualified by a table. -/
def column (reserved : List Bytes) (name : Bytes) : Language UInt8 :=
  identifier reserved name + qualified reserved name

/-- A value without quotes around it, in which some words do not occur outside quoted runs. -/
structure Bare (excluded : List Bytes) (token : Bytes) : Prop where
  nonempty : token ≠ []
  starts : token.head?.any isSpace = false
  ends : token.getLast?.any isSpace = false
  unquoted : token.head?.any isQuote = false
  single : ∀ word ∈ excluded, hasWord word token = false

/-- The words that would join a second condition to a bare value. -/
def compounding : List Bytes := ["AND", "OR"]

/--
The value of a condition and the end of the statement. A bare value ends in a semicolon only if the
statement ends in another one.
-/
inductive ValueAndEnd (reserved : List Bytes) : Value → Bytes → Prop
  | quoted {inside run closing : Bytes} (isRun : run ∈ Grammar.quoted inside)
      (closes : closing ∈ ending) : ValueAndEnd reserved (.text inside) (run ++ closing)
  | bare {token closing : Bytes} (isBare : Bare (compounding ++ reserved) token)
      (closes : closing ∈ ending) (own : token.getLast? = some semicolon → semicolon ∈ closing) :
      ValueAndEnd reserved (readLiteral token) (token ++ closing)

/-- The value of a condition and the end of the statement. -/
def valueAndEnd (reserved : List Bytes) (value : Value) : Language UInt8 :=
  {text | ValueAndEnd reserved value text}

/-- A condition and the end of the statement. -/
def condition (reserved : List Bytes) (condition : Condition) : Language UInt8 :=
  word "WHERE" * gap * column reserved condition.column * spaces * symbol equalsSign * spaces *
    valueAndEnd reserved condition.value

/-- The condition, if there is one, and the end of the statement. -/
def clause (reserved : List Bytes) : Option Condition → Language UInt8
  | none => ending
  | some found => gap * condition reserved found

/--
A value in a list of values: a quoted run, or else a text without quotes and commas, which may be
blank.
-/
inductive Literal : Value → Bytes → Prop
  | quoted {inside run : Bytes} (isRun : run ∈ Grammar.quoted inside) : Literal (.text inside) run
  | bare {text : Bytes} (plain : ∀ byte ∈ text, isQuote byte = false ∧ byte ≠ comma) :
      Literal (readLiteral text) text

/-- The written forms of a value in a list of values. -/
def literal (value : Value) : Language UInt8 := {text | Literal value text}

/-- The items of one value or more with commas between them. -/
def separated {α : Type} (item : α → Language UInt8) : List α → Language UInt8
  -- There is no list without items.
  | [] => 0
  | [value] => item value
  | value :: next :: values => item value * symbol comma * separated item (next :: values)

/-- No text goes on with a word in front of it. -/
def Apart (language : Language UInt8) : Prop := ∀ text ∈ language, EndsWord text

/-- Every text begins with a word. -/
def Begins (language : Language UInt8) : Prop := ∀ text ∈ language, ¬EndsWord text

open Language (append_mem_mul)

variable {keyword name text rest : Bytes} {reserved : List Bytes}
  {first following : Language UInt8}

/-! ## What a text begins with -/

/-- White space that sets words apart is white space. -/
theorem mem_spaces_mul_of_gap (written : text ∈ gap * following) : text ∈ spaces * following := by
  -- The gap is white space, besides not being empty.
  obtain ⟨white, ⟨blank, -⟩, behind, isBehind, rfl⟩ := Language.mem_mul.1 written
  exact append_mem_mul blank isBehind

/-- No white space is white space too. -/
theorem mem_spaces_mul_self (written : text ∈ following) : text ∈ spaces * following :=
  -- An empty text is put in front.
  Language.mem_mul.2 ⟨[], blank_nil, text, written, rfl⟩

/-- White space behind a word ends it. -/
theorem apart_gap_mul : Apart (gap * following) := by
  rintro text written
  -- The gap has a first byte, which is white space and so no word byte.
  obtain ⟨white, ⟨blank, nonempty⟩, behind, -, rfl⟩ := Language.mem_mul.1 written
  obtain ⟨byte, white, rfl⟩ := List.exists_cons_of_ne_nil nonempty
  simpa [EndsWord] using isWordByte_of_isSpace (blank byte List.mem_cons_self)

/-- No word runs out of white space. -/
theorem getLast?_append_of_mem_gap {white : Bytes} (isGap : white ∈ gap) (front : Bytes) :
    (front ++ white).getLast?.any isWordByte = false := by
  -- The last byte is that of the gap, which is not empty.
  rw [List.getLast?_append_of_ne_nil _ isGap.2]
  exact (Option.any_eq_false _ _).2 fun byte last =>
    isWordByte_of_isSpace (isGap.1 byte (List.mem_of_getLast? last))

/-- A symbol behind a word ends it, with white space in front or without. -/
theorem apart_symbol_mul {byte : UInt8} (outside : isWordByte byte = false) :
    Apart (spaces * (symbol byte * following)) := by
  rintro text written
  -- Either the white space or the symbol comes first, and neither is a word byte.
  obtain ⟨white, blank, behind, isBehind, rfl⟩ := Language.mem_mul.1 written
  obtain ⟨_, rfl, rest, -, rfl⟩ := Language.mem_mul.1 isBehind
  exact blank.endsWord_append outside

/-- A name does not end the word in front of it. -/
theorem not_endsWord_of_isIdentifier (isName : isIdentifier name = true) : ¬EndsWord name := by
  -- The first byte of a name is a word byte.
  obtain ⟨byte, name, rfl⟩ := List.exists_cons_of_ne_nil (ne_nil_of_isIdentifier isName)
  simp [EndsWord, isWordByte_of_mem isName List.mem_cons_self]

/-- What begins with a word still does with more text behind it. -/
theorem Begins.mul (begins : Begins first) : Begins (first * following) := by
  rintro _ written ends
  -- If the whole text ended a word, so would its first part, whose first byte is the same.
  obtain ⟨front, isFront, rest, -, rfl⟩ := Language.mem_mul.1 written
  refine begins front isFront ?_
  cases front with
  | nil => rfl
  | cons byte front => exact ends

/-- A keyword begins with a word byte, in any letter case. -/
theorem begins_word (isWord : isIdentifier keyword = true) : Begins (word keyword) :=
  -- The spelling of a keyword is a name like the keyword itself.
  fun _ spells => not_endsWord_of_isIdentifier (isIdentifier_of_upper_eq isWord spells)

/-- A name begins with a word byte. -/
theorem begins_identifier : Begins (identifier reserved name) := by
  -- The text is the name itself.
  rintro _ ⟨rfl, isName, -⟩
  exact not_endsWord_of_isIdentifier isName

/-- A column begins with a name, its own or that of its table. -/
theorem begins_column : Begins (column reserved name) := by
  intro text written
  -- Either the column stands alone, or its table is in front of it.
  rcases (Language.mem_add _ _ _).1 written with plain | ⟨table, column, -, isMember⟩
  · exact begins_identifier text plain
  · simp only [member, mul_assoc] at isMember
    exact begins_identifier.mul text isMember

/-- A word behind another one is set apart from it. -/
theorem mem_gap_mul (begins : Begins following) (ends : EndsWord text)
    (written : text ∈ spaces * following) : text ∈ gap * following := by
  obtain ⟨white, blank, behind, isBehind, rfl⟩ := Language.mem_mul.1 written
  refine append_mem_mul ⟨blank, ?_⟩ isBehind
  -- Without white space the word would go on.
  rintro rfl
  exact begins behind isBehind ends

/-! ## Tokens -/

/-- A keyword is read wherever it is written and does not go on. -/
theorem exists_keyword? (isWord : isIdentifier keyword = true) (apart : Apart following)
    (written : text ∈ spaces * (word keyword * following)) :
    ∃ rest ∈ following, Token.keyword? keyword text = some rest := by
  obtain ⟨white, blank, behind, isBehind, rfl⟩ := Language.mem_mul.1 written
  obtain ⟨spelled, spells, rest, isRest, rfl⟩ := Language.mem_mul.1 isBehind
  refine ⟨rest, isRest, ?_⟩
  -- Skipping stops in front of the word, since no white space begins it.
  have starts := head?_append_of_isIdentifier (isIdentifier_of_upper_eq isWord spells) rest
  rw [Token.keyword?, skipSpaces_append blank, skipSpaces_eq_self starts]
  exact dropWord?_eq_some_iff.2 ⟨spelled, rfl, spells, apart rest isRest⟩

/-- Where one word is written, no other is read. -/
theorem keyword?_eq_none_of_mem {other : Bytes} (isWord : isIdentifier keyword = true)
    (isOther : isIdentifier other = true) (different : upper keyword ≠ upper other)
    (apart : Apart following)
    (written : text ∈ spaces * (word keyword * following)) : Token.keyword? other text = none := by
  obtain ⟨white, blank, behind, isBehind, rfl⟩ := Language.mem_mul.1 written
  obtain ⟨spelled, spells, rest, isRest, rfl⟩ := Language.mem_mul.1 isBehind
  have isSpelled := isIdentifier_of_upper_eq isWord spells
  have kept : skipSpaces (white ++ (spelled ++ rest)) = spelled ++ rest :=
    (skipSpaces_append blank _).trans
      (skipSpaces_eq_self (head?_append_of_isIdentifier isSpelled rest))
  rw [Option.eq_none_iff_forall_ne_some]
  intro found read
  -- Both words would be the name that the text begins with.
  obtain ⟨spelledOther, keptOther, spellsOther, endsOther⟩ := dropWord?_eq_some_iff.1 read
  have name := Token.identifier?_eq_some_iff.2 ⟨kept, isSpelled, apart rest isRest⟩
  have nameOther := Token.identifier?_eq_some_iff.2
    ⟨keptOther, isIdentifier_of_upper_eq isOther spellsOther, endsOther⟩
  obtain ⟨rfl, -⟩ := Prod.mk.inj (Option.some.inj (name.symm.trans nameOther))
  exact different (spells.symm.trans spellsOther)

/-- A keyword that is read is written at the start of the text. -/
theorem mem_of_keyword? (read : Token.keyword? keyword text = some rest)
    (isRest : rest ∈ following) : text ∈ spaces * (word keyword * following) := by
  -- What is skipped in front of the word is white space.
  obtain ⟨white, blank, cut⟩ := exists_blank_append_skipSpaces text
  obtain ⟨spelled, kept, spells, -⟩ := dropWord?_eq_some_iff.1 read
  rw [cut, kept]
  exact append_mem_mul blank (append_mem_mul spells isRest)

/-- What a keyword leaves behind does not go on with it. -/
theorem endsWord_of_keyword? (read : Token.keyword? keyword text = some rest) : EndsWord rest := by
  -- That no word byte follows is part of what it is to read a keyword.
  obtain ⟨-, -, -, ends⟩ := dropWord?_eq_some_iff.1 read
  exact ends

/-- A name is read wherever it is written and does not go on. -/
theorem exists_identifier? (apart : Apart following)
    (written : text ∈ spaces * (identifier reserved name * following)) :
    ∃ rest ∈ following, Token.identifier? text = some (name, rest) := by
  -- The white space is skipped, and the name ends where the rest begins.
  obtain ⟨white, blank, behind, isBehind, rfl⟩ := Language.mem_mul.1 written
  obtain ⟨_, ⟨rfl, isName, -⟩, rest, isRest, rfl⟩ := Language.mem_mul.1 isBehind
  refine ⟨rest, isRest, Token.identifier?_eq_some_iff.2 ⟨?_, isName, apart rest isRest⟩⟩
  exact (skipSpaces_append blank _).trans
    (skipSpaces_eq_self (head?_append_of_isIdentifier isName rest))

/-- A name that is read is written at the start of the text. -/
theorem mem_of_identifier? (read : Token.identifier? text = some (name, rest))
    (isRest : rest ∈ following) : text ∈ spaces * (identifier [] name * following) := by
  -- The text is what was skipped, the name, and the rest.
  obtain ⟨white, blank, cut⟩ := exists_blank_append_skipSpaces text
  obtain ⟨kept, isName, -⟩ := Token.identifier?_eq_some_iff.1 read
  rw [cut, kept]
  exact append_mem_mul blank (append_mem_mul ⟨rfl, isName, by simp⟩ isRest)

/-- What a name leaves behind does not go on with it. -/
theorem endsWord_of_identifier? (read : Token.identifier? text = some (name, rest)) :
    -- That no word byte follows is part of what it is to read a name.
    EndsWord rest := (Token.identifier?_eq_some_iff.1 read).2.2

/-- A symbol is read wherever it is written. -/
theorem exists_symbol? {byte : UInt8} (solid : isSpace byte = false)
    (written : text ∈ spaces * (symbol byte * following)) :
    ∃ rest ∈ following, Token.symbol? byte text = some rest := by
  obtain ⟨white, blank, behind, isBehind, rfl⟩ := Language.mem_mul.1 written
  obtain ⟨_, rfl, rest, isRest, rfl⟩ := Language.mem_mul.1 isBehind
  refine ⟨rest, isRest, Token.symbol?_eq_some_iff.2 ?_⟩
  -- Skipping stops in front of the symbol.
  rw [skipSpaces_append blank]
  exact skipSpaces_eq_self solid

/-- A symbol that is read is written at the start of the text. -/
theorem mem_of_symbol? {byte : UInt8} (read : Token.symbol? byte text = some rest)
    (isRest : rest ∈ following) : text ∈ spaces * (symbol byte * following) := by
  -- The text is what was skipped, the symbol, and the rest.
  obtain ⟨white, blank, cut⟩ := exists_blank_append_skipSpaces text
  rw [cut, Token.symbol?_eq_some_iff.1 read]
  exact append_mem_mul blank (append_mem_mul (Set.mem_singleton [byte]) isRest)

/-- Another symbol stands there. -/
theorem symbol?_eq_none {byte other : UInt8} (solid : isSpace other = false)
    (different : other ≠ byte) (written : text ∈ spaces * (symbol other * following)) :
    Token.symbol? byte text = none := by
  obtain ⟨white, blank, behind, isBehind, rfl⟩ := Language.mem_mul.1 written
  obtain ⟨_, rfl, rest, -, rfl⟩ := Language.mem_mul.1 isBehind
  have kept : skipSpaces (white ++ (other :: rest)) = other :: rest :=
    (skipSpaces_append blank _).trans (skipSpaces_eq_self solid)
  -- The first byte behind the white space would be both symbols.
  rw [Option.eq_none_iff_forall_ne_some]
  intro found read
  have same := kept.symm.trans (Token.symbol?_eq_some_iff.1 read)
  exact different (List.cons.inj same).1

/-! ## Conditions -/

/-- The written endings are those that a statement may have. -/
theorem mem_ending_iff : text ∈ ending ↔ Ending text := by
  rw [ending, Language.mem_mul]
  constructor
  · rintro ⟨white, blank, behind, isBehind, rfl⟩
    -- A semicolon may stand behind the first white space or not.
    rcases (Language.mem_add _ _ _).1 isBehind with rfl | isBehind
    · rw [List.append_nil]
      exact .spaces blank
    · obtain ⟨_, rfl, last, blankLast, rfl⟩ := Language.mem_mul.1 isBehind
      exact .semicolon blank blankLast
  · intro isEnding
    cases isEnding with
    | spaces blank => exact ⟨text, blank, [], .inl rfl, List.append_nil text⟩
    | semicolon blank blankLast =>
      exact append_mem_mul blank (.inr (append_mem_mul (Set.mem_singleton [semicolon]) blankLast))

/-- A table and its column are read token by token. -/
theorem exists_member? {table column : Bytes} (apart : Apart following)
    (written : text ∈ spaces * (member reserved table column * following)) :
    ∃ behindTable behindPeriod, ∃ rest ∈ following,
      Token.identifier? text = some (table, behindTable) ∧
        Token.symbol? period behindTable = some behindPeriod ∧
          Token.identifier? behindPeriod = some (column, rest) := by
  -- The three tokens are read one after another.
  simp only [member, mul_assoc] at written
  obtain ⟨behindTable, isBehindTable, readTable⟩ :=
    exists_identifier? (apart_symbol_mul rfl) written
  obtain ⟨behindPeriod, isBehindPeriod, readPeriod⟩ := exists_symbol? rfl isBehindTable
  obtain ⟨rest, isRest, readColumn⟩ := exists_identifier? apart isBehindPeriod
  exact ⟨behindTable, behindPeriod, rest, isRest, readTable, readPeriod, readColumn⟩

/-- A column in front of an equals sign is read. -/
theorem exists_readColumn? (written :
      text ∈ spaces * (column reserved name * (spaces * (symbol equalsSign * following)))) :
    ∃ rest ∈ spaces * (symbol equalsSign * following),
      Condition.readColumn? text = some (name, rest) := by
  obtain ⟨white, blank, behind, isBehind, rfl⟩ := Language.mem_mul.1 written
  obtain ⟨names, isColumn, rest, isRest, rfl⟩ := Language.mem_mul.1 isBehind
  have apart : Apart (spaces * (symbol equalsSign * following)) := apart_symbol_mul rfl
  rcases (Language.mem_add _ _ _).1 isColumn with plain | ⟨table, column, rfl, isNames⟩
  · -- No period follows a column that is not qualified.
    obtain ⟨rest, isRest, readName⟩ := exists_identifier? apart
      (append_mem_mul blank (append_mem_mul plain isRest))
    have readPeriod : Token.symbol? period rest = none :=
      symbol?_eq_none rfl (by decide) isRest
    exact ⟨rest, isRest, by simp [Condition.readColumn?, readName, readPeriod]⟩
  · obtain ⟨_, _, rest, isRest, readTable, readPeriod, readName⟩ := exists_member? apart
      (append_mem_mul blank (append_mem_mul isNames isRest))
    exact ⟨rest, isRest, by simp [Condition.readColumn?, readTable, readPeriod, readName]⟩

/-- A column that is read is written at the start of the text. -/
theorem mem_of_readColumn? (read : Condition.readColumn? text = some (name, rest))
    (isRest : rest ∈ following) : text ∈ spaces * (column [] name * following) := by
  simp only [Condition.readColumn?, Option.bind_eq_bind, Option.bind_eq_some_iff, Prod.exists]
    at read
  obtain ⟨first, behind, readFirst, read⟩ := read
  cases readPeriod : Token.symbol? period behind with
  | none =>
    simp only [readPeriod, Option.pure_def, Option.some.injEq, Prod.mk.injEq] at read
    obtain ⟨rfl, rfl⟩ := read
    rw [column, add_mul, mul_add]
    exact .inl (mem_of_identifier? readFirst isRest)
  | some qualifies =>
    simp only [readPeriod, Option.bind_eq_some_iff, Prod.exists, Option.pure_def,
      Option.some.injEq, Prod.mk.injEq] at read
    obtain ⟨second, _, readSecond, rfl, rfl⟩ := read
    -- The three tokens are grouped as one column.
    have grouped := mem_of_identifier? readFirst
      (mem_of_symbol? readPeriod (mem_of_identifier? readSecond isRest))
    have regrouped : text ∈ spaces * (member [] first second * following) := by
      simpa only [member, mul_assoc] using grouped
    obtain ⟨white, blank, _, isBehind, rfl⟩ := Language.mem_mul.1 regrouped
    obtain ⟨names, isNames, rest, isRest, rfl⟩ := Language.mem_mul.1 isBehind
    exact append_mem_mul blank
      (append_mem_mul (.inr ⟨first, second, rfl, isNames⟩) isRest)

/-- A quoted run stands for what is inside. -/
theorem readLiteral_quoted {quote : UInt8} (isQuoted : isQuote quote = true) (inside : Bytes) :
    readLiteral (quote :: (inside ++ [quote])) = .text inside := by
  have solid := isSpace_of_isQuote isQuoted
  -- A quoted run has no white space at its ends.
  have trimmed : trim (quote :: (inside ++ [quote])) = quote :: (inside ++ [quote]) := by
    refine trim_eq_self solid ?_
    rw [← List.cons_append, List.getLast?_concat]
    exact solid
  simp [readLiteral, trimmed, unquote?, isQuoted]

/-- White space around a literal does not matter. -/
theorem readLiteral_eq_of_trim_eq {other : Bytes} (same : trim text = trim other) :
    readLiteral text = readLiteral other := by
  -- A literal is trimmed before anything else is done.
  simp only [readLiteral, same]

/-- A value is read up to the end of the statement. -/
theorem exists_value? {value : Value} (written : text ∈ spaces * valueAndEnd reserved value) :
    ∃ token rest, Token.value? text = some (token, rest) ∧ Condition.isCompound token = false ∧
      Token.isAtEnd rest = true ∧ readLiteral token = value := by
  obtain ⟨white, blank, behind, isBehind, rfl⟩ := Language.mem_mul.1 written
  cases isBehind with
  | @quoted inside run closing isRun closes =>
    obtain ⟨quote, isQuoted, absent, rfl⟩ := isRun
    -- The run is read up to the next quote of its kind, which is the one that ends it.
    have solid := isSpace_of_isQuote isQuoted
    have kept : skipSpaces (white ++ (quote :: (inside ++ [quote]) ++ closing)) =
        quote :: (inside ++ quote :: closing) := by
      rw [skipSpaces_append blank, List.cons_append, List.append_assoc]
      exact skipSpaces_eq_self solid
    refine ⟨_, closing, Token.value?_quoted isQuoted absent kept, ?_, ?_,
      readLiteral_quoted isQuoted inside⟩
    · simp [Condition.isCompound, isQuoted]
    · exact Token.isAtEnd_iff.2 (mem_ending_iff.1 closes)
  | @bare token closing isBare closes own =>
    have readValue := Token.value?_append_ending blank isBare.nonempty isBare.starts isBare.ends
      isBare.unquoted (mem_ending_iff.1 closes) own
    refine ⟨token, closing, readValue, ?_, Token.isAtEnd_iff.2 (mem_ending_iff.1 closes), rfl⟩
    have single := isBare.single
    simp only [compounding, List.cons_append, List.nil_append, List.forall_mem_cons] at single
    simp [Condition.isCompound, single.1, single.2.1]

/-- A value that is read up to the end of the statement is written there. -/
theorem mem_of_value? {token : Bytes} (read : Token.value? text = some (token, rest))
    (plain : Condition.isCompound token = false) (atEnd : Token.isAtEnd rest = true) :
    text ∈ spaces * valueAndEnd [] (readLiteral token) := by
  -- The value begins behind the white space, and not with more of it.
  have solid := head?_skipSpaces text
  obtain ⟨white, blank, cut⟩ := exists_blank_append_skipSpaces text
  obtain ⟨kept, isValue⟩ := Token.value?_eq_some_iff.1 read
  rw [kept] at solid
  -- The white space is put aside, and what is left is the value with the ending.
  suffices written : token ++ rest ∈ valueAndEnd [] (readLiteral token) by
    rw [cut, kept]
    exact append_mem_mul blank written
  -- A quoted value closes itself, and a bare one ends where the statement may.
  cases isValue with
  | quoted isQuoted absent =>
    rw [readLiteral_quoted isQuoted]
    exact .quoted ⟨_, isQuoted, absent, rfl⟩ (mem_ending_iff.2 (Token.isAtEnd_iff.1 atEnd))
  | bare nonempty unquoted ends closes own =>
    rw [List.head?_append_of_ne_nil _ nonempty] at solid
    have single : ∀ word ∈ compounding ++ [], hasWord word token = false := by
      simpa [compounding, Condition.isCompound, unquoted] using plain
    exact .bare ⟨nonempty, solid, ends, unquoted, single⟩ (mem_ending_iff.2 closes) own

/-- A clause begins with white space or a semicolon, if with anything. -/
theorem apart_clause {found : Option Condition} : Apart (clause reserved found) := by
  -- Without a condition there is an ending, and with one there is a gap first.
  cases found with
  | none => exact fun _ written => (mem_ending_iff.1 written).endsWord
  | some found => exact apart_gap_mul

/-- A condition is read as it is written. -/
theorem readClause?_of_mem_condition {found : Condition}
    (written : text ∈ spaces * condition reserved found) :
    Condition.readClause? text = some (some found) := by
  simp only [condition, mul_assoc] at written
  -- Token after token is read off, up to the value that ends the statement.
  obtain ⟨rest, isRest, readWord⟩ :=
    exists_keyword? (by decide) apart_gap_mul written
  obtain ⟨rest, isRest, readColumn⟩ := exists_readColumn? (mem_spaces_mul_of_gap isRest)
  obtain ⟨rest, isRest, readEquals⟩ := exists_symbol? rfl isRest
  obtain ⟨token, rest, readValue, plain, atEnd, value⟩ := exists_value? isRest
  simp [Condition.readClause?, Condition.read?, readWord, readColumn, readEquals, readValue,
    plain, atEnd, value]

/-- A clause is read as it is written. -/
theorem readClause?_of_mem {found : Option Condition} (written : text ∈ clause reserved found) :
    Condition.readClause? text = some found := by
  cases found with
  | none =>
    -- The end of a statement holds no word.
    have isEnding := mem_ending_iff.1 written
    have readWord : Token.keyword? "WHERE" text = none :=
      Token.keyword?_eq_none (by decide) isEnding.skipSpaces.endsWord
    simp [Condition.readClause?, readWord, Token.isAtEnd_iff.2 isEnding]
  | some found => exact readClause?_of_mem_condition (mem_spaces_mul_of_gap written)

/-- A condition that is read is written there. -/
theorem mem_of_readClause?_some {found : Condition}
    (read : Condition.readClause? text = some (some found)) :
    text ∈ spaces * condition [] found := by
  simp only [Condition.readClause?] at read
  cases readWord : Token.keyword? "WHERE" text with
  | none => simp [readWord, Option.bind_eq_some_iff] at read
  | some behindWord =>
    simp only [readWord, Option.map_eq_some_iff, Prod.exists, Prod.mk.injEq, Condition.read?,
      Option.bind_eq_bind, Option.bind_eq_some_iff, Option.guard_eq_some', Option.pure_def,
      Option.some.injEq, Bool.not_eq_true'] at read
    obtain ⟨_, _, ⟨_, _, ⟨column, _, readColumn, _, readEquals, token, _, readValue, _, plain, rfl,
      rfl⟩, rfl, rfl⟩, _, atEnd, same⟩ := read
    obtain rfl := Option.some.inj same
    have isValue := mem_of_value? readValue plain atEnd
    have isRest := mem_of_readColumn? readColumn (mem_of_symbol? readEquals isValue)
    -- The words are set apart, since none of them goes on.
    have isCondition := mem_of_keyword? readWord
      (mem_gap_mul begins_column.mul (endsWord_of_keyword? readWord) isRest)
    simpa only [condition, mul_assoc] using isCondition

/-- A clause that is read behind a word is written there. -/
theorem mem_of_readClause? {found : Option Condition} (ends : EndsWord text)
    (read : Condition.readClause? text = some found) : text ∈ clause [] found := by
  -- A condition is read behind its word, and without one the statement ends.
  cases found with
  | some found =>
    have isCondition := mem_of_readClause?_some read
    simp only [condition, mul_assoc] at isCondition
    -- What stands in front of the word is a gap, since the head of the clause ends a word.
    have apart := mem_gap_mul (begins_word (by decide)).mul ends isCondition
    simpa only [clause, condition, mul_assoc] using apart
  | none =>
    simp only [Condition.readClause?] at read
    -- A keyword that were read would need a condition behind it.
    cases readWord : Token.keyword? "WHERE" text with
    | none =>
      simp only [readWord, Option.pure_def, Option.bind_eq_bind, Option.bind_some,
        Option.bind_eq_some_iff, Option.guard_eq_some'] at read
      obtain ⟨_, atEnd, -⟩ := read
      exact mem_ending_iff.2 (Token.isAtEnd_iff.1 atEnd)
    | some behindWord => simp [readWord, Option.bind_eq_some_iff] at read

/-! ## Lists -/

/-- A value in a list is not cut into several. -/
theorem uncut_of_mem_literal {value : Value} (written : text ∈ literal value) :
    Uncut comma text := by
  -- A quoted run hides its commas, and a bare literal has none.
  cases written with
  | quoted isRun =>
    obtain ⟨quote, isQuoted, absent, rfl⟩ := isRun
    exact uncut_quoted _ isQuoted absent
  | bare plain => exact uncut_of_forall plain

/-- A written value is read back as itself. -/
theorem readLiteral_of_mem_literal {value : Value} (written : text ∈ literal value) :
    readLiteral text = value := by
  -- The quotes are taken off, and a bare literal is what it is read as.
  cases written with
  | quoted isRun =>
    obtain ⟨quote, isQuoted, -, rfl⟩ := isRun
    exact readLiteral_quoted isQuoted _
  | bare => rfl

/-- What stands between parentheses is cut off in front of the last one, behind which a statement
ends. -/
theorem exists_splitAtLast? (written : text ∈ first * (symbol closeParenthesis * ending)) :
    ∃ body ∈ first, ∃ rest, splitAtLast? closeParenthesis text = some (body, rest) ∧
      Token.isAtEnd rest = true := by
  obtain ⟨body, isBody, _, isClosed, rfl⟩ := Language.mem_mul.1 written
  obtain ⟨_, rfl, rest, isEnd, rfl⟩ := Language.mem_mul.1 isClosed
  have isEnding := mem_ending_iff.1 isEnd
  -- The end of a statement holds no parenthesis, so that the one in front of it is the last.
  have cut : splitAtLast? closeParenthesis (body ++ closeParenthesis :: rest) = some (body, rest) :=
    splitAtLast?_eq_some_iff.2 ⟨rfl, isEnding.closeParenthesis_notMem⟩
  exact ⟨body, isBody, rest, cut, Token.isAtEnd_iff.2 isEnding⟩

section Separated

variable {α : Type} {item : α → Language UInt8} {values : List α}

/--
The parts of a list are written forms of its values, if no cut is made within an item and one is
made at every comma behind one.
-/
theorem forall₂_split_of_mem_separated {split : Bytes → List Bytes}
    (whole : ∀ value, ∀ text ∈ item value, split text = [text])
    (cut : ∀ value, ∀ text ∈ item value, ∀ rest, split (text ++ comma :: rest) = text :: split rest)
    (written : text ∈ separated item values) :
    List.Forall₂ (fun part value => part ∈ item value) (split text) values := by
  fun_induction separated item values generalizing text with
  | case1 => exact absurd written (Language.notMem_zero text)
  | case2 value =>
    rw [whole value text written]
    exact .cons written .nil
  | case3 value next values ih =>
    rw [mul_assoc] at written
    obtain ⟨front, isItem, behind, isBehind, rfl⟩ := Language.mem_mul.1 written
    obtain ⟨_, rfl, rest, isRest, rfl⟩ := Language.mem_mul.1 isBehind
    -- The first cut is at the comma behind the first item, which has none itself.
    rw [List.singleton_append, cut value front isItem]
    exact .cons isItem (ih isRest)

/-- The parts of a list between the commas outside quoted runs are written forms of its values. -/
theorem forall₂_of_mem_separated (uncut : ∀ value, ∀ text ∈ item value, Uncut comma text)
    (written : text ∈ separated item values) :
    List.Forall₂ (fun part value => part ∈ item value) (splitOutsideQuotes comma text) values := by
  -- Each item is a part of its own, and the comma behind it is where it is cut.
  refine forall₂_split_of_mem_separated ?_ ?_ written
  · exact fun value text isItem => (uncut value text isItem).whole
  · exact fun value text isItem rest =>
      (uncut value text isItem).splitOutsideQuotes_append rfl rest

/-- A list ends in one of its items. -/
theorem exists_suffix_of_mem_separated (written : text ∈ separated item values) :
    ∃ value, ∃ last ∈ item value, last <:+ text := by
  fun_induction separated item values generalizing text with
  | case1 => exact absurd written (Language.notMem_zero text)
  | case2 value => exact ⟨value, text, written, List.suffix_refl text⟩
  | case3 value next values ih =>
    obtain ⟨front, -, rest, isRest, rfl⟩ := Language.mem_mul.1 written
    -- The end of the list is that of the items behind the first.
    obtain ⟨other, last, isLast, suffix⟩ := ih isRest
    exact ⟨other, last, isLast, suffix.trans ⟨front, rfl⟩⟩

/-- A list is free of a word that none of its items contains. -/
theorem free_of_mem_separated (isWord : isIdentifier keyword = true)
    (free : ∀ value, ∀ text ∈ item value, Free keyword text)
    (written : text ∈ separated item values) : Free keyword text := by
  fun_induction separated item values generalizing text with
  | case1 => exact absurd written (Language.notMem_zero text)
  | case2 value => exact free value text written
  | case3 value next values ih =>
    rw [mul_assoc] at written
    obtain ⟨front, isItem, behind, isBehind, rfl⟩ := Language.mem_mul.1 written
    obtain ⟨_, rfl, rest, isRest, rfl⟩ := Language.mem_mul.1 isBehind
    -- A comma belongs to no word, so that none goes over it.
    have freeComma := (free_singleton isWord rfl rfl : Free keyword [comma])
    exact (free value front isItem).append
      (freeComma.append (ih isRest) isWord (.inl rfl)) isWord (.inr rfl)

end Separated

end Grammar

end TableStore
