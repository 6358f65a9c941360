import TableStore.Proofs.Statement.Grammar
import TableStore.Statement.Parse

/-!
Insertions as they are written. Main statement: a written insertion is read as that insertion.
-/

namespace TableStore

open Language (append_mem_mul)

namespace Grammar

/-- A value of a row with white space around it. -/
def inserted (value : Value) : Language UInt8 := spaces * literal value * spaces

/-- The values of a row with commas between them. The last one of them is not left blank. -/
def row : List Value → Language UInt8
  | [] => spaces
  -- Blank text behind the last comma would be read as no value.
  | [value] => {text | text ∈ inserted value ∧ ¬Blank text}
  | value :: next :: values => inserted value * symbol comma * row (next :: values)

/-- The written forms of an insertion. -/
def insertion (insertion : Insertion) : Language UInt8 :=
  spaces * word "INSERT" * gap * word "INTO" * gap * identifier [] insertion.table * gap *
    word "VALUES" * spaces * symbol openParenthesis * row insertion.values *
    symbol closeParenthesis * ending

variable {text : Bytes} {value : Value} {values : List Value}

/-- The parts of a written value. -/
theorem exists_of_mem_inserted (written : text ∈ inserted value) :
    ∃ before bare after, Blank before ∧ Blank after ∧ bare ∈ literal value ∧
      text = before ++ (bare ++ after) := by
  -- The literal stands between two blanks, one of which is taken off at a time.
  simp only [inserted, mul_assoc] at written
  obtain ⟨before, blankBefore, _, isBehind, rfl⟩ := Language.mem_mul.1 written
  obtain ⟨bare, isLiteral, after, blankAfter, rfl⟩ := Language.mem_mul.1 isBehind
  exact ⟨before, bare, after, blankBefore, blankAfter, isLiteral, rfl⟩

/-- A value with white space around it is not cut into several. -/
theorem uncut_of_mem_inserted (written : text ∈ inserted value) : Uncut comma text := by
  obtain ⟨before, bare, after, blankBefore, blankAfter, isLiteral, rfl⟩ :=
    exists_of_mem_inserted written
  -- Neither the white space nor the literal has a comma outside quoted runs.
  have uncut := uncut_of_mem_literal isLiteral
  exact (blankBefore.uncut rfl).append (uncut.append (blankAfter.uncut rfl))

/-- A written value is read with the white space around it, of which a quoted run loses none. -/
theorem readLiteral_of_mem_inserted (written : text ∈ inserted value) :
    readLiteral text = value := by
  obtain ⟨before, bare, after, blankBefore, blankAfter, isLiteral, rfl⟩ :=
    exists_of_mem_inserted written
  -- Trimming the text leaves what trimming the literal leaves.
  rw [← readLiteral_of_mem_literal isLiteral]
  apply readLiteral_eq_of_trim_eq
  rw [trim_blank_append blankBefore, trim_append_blank blankAfter]

/-- A row of values is a list of them. -/
theorem mem_separated_of_mem_row (nonempty : values ≠ []) (written : text ∈ row values) :
    text ∈ separated inserted values := by
  -- The rows and the lists are built up alike, from the last value on.
  fun_induction row values generalizing text with
  | case1 => exact absurd rfl nonempty
  | case2 value => exact written.1
  | case3 value next values ih =>
    obtain ⟨front, isFront, rest, isRest, rfl⟩ := Language.mem_mul.1 written
    exact append_mem_mul isFront (ih (List.cons_ne_nil next values) isRest)

/-- No row of values ends in one that is left blank. -/
theorem not_blank_of_mem_row (nonempty : values ≠ []) (written : text ∈ row values) {last : Bytes}
    (isLast : (splitOutsideQuotes comma text).getLast? = some last) : ¬Blank last := by
  fun_induction row values generalizing text with
  | case1 => exact absurd rfl nonempty
  | case2 value =>
    -- The only part is the whole text.
    rw [(uncut_of_mem_inserted written.1).whole] at isLast
    obtain rfl := Option.some.inj isLast
    exact written.2
  | case3 value next values ih =>
    rw [mul_assoc] at written
    obtain ⟨front, isFront, _, isBehind, rfl⟩ := Language.mem_mul.1 written
    obtain ⟨_, rfl, rest, isRest, rfl⟩ := Language.mem_mul.1 isBehind
    -- The last part is that of the values behind the first comma.
    have cut := (uncut_of_mem_inserted isFront).splitOutsideQuotes_append rfl rest
    have parts : splitOutsideQuotes comma rest ≠ [] := splitPlain_ne_nil _ _ _
    rw [List.singleton_append, cut, ← List.singleton_append,
      List.getLast?_append_of_ne_nil _ parts] at isLast
    exact ih (List.cons_ne_nil next values) isRest isLast

end Grammar

open Grammar

namespace Insertion

variable {text : Bytes}

/-- A written row is read value by value. -/
theorem readValues_of_mem {values : List Value} (written : text ∈ row values) :
    readValues text = values := by
  cases values with
  | nil =>
    -- Nothing but white space stands between the parentheses, and it is no value.
    have blank : Blank text := written
    have whole : splitOutsideQuotes comma text = [text] := (blank.uncut rfl).whole
    simp [readValues, whole, trim_eq_nil_iff.2 blank]
  | cons value values =>
    have nonempty := List.cons_ne_nil value values
    have items := forall₂_of_mem_separated (fun _ _ => uncut_of_mem_inserted)
      (mem_separated_of_mem_row nonempty written)
    -- The last part is a value, so that none is dropped.
    have filled : (splitOutsideQuotes comma text).getLast?.any (fun last => (trim last).isEmpty) =
        false := by
      rw [Option.any_eq_false]
      intro last isLast
      have solid := not_blank_of_mem_row nonempty written isLast
      simpa using trim_eq_nil_iff.not.2 solid
    have literals : (splitOutsideQuotes comma text).map readLiteral = value :: values := by
      have same := items.imp fun _ _ => readLiteral_of_mem_inserted
      rwa [← List.forall₂_map_left_iff, List.forall₂_eq_eq_eq] at same
    simp [readValues, filled, literals]

/-- A written insertion is read. -/
theorem read?_of_mem {insertion : Insertion} (written : text ∈ Grammar.insertion insertion) :
    read? text = some insertion := by
  simp only [Grammar.insertion, mul_assoc] at written
  obtain ⟨rest, isRest, readInsert⟩ := exists_keyword? (by decide) apart_gap_mul written
  obtain ⟨rest, isRest, readInto⟩ :=
    exists_keyword? (by decide) apart_gap_mul (mem_spaces_mul_of_gap isRest)
  obtain ⟨rest, isRest, readTable⟩ :=
    exists_identifier? apart_gap_mul (mem_spaces_mul_of_gap isRest)
  obtain ⟨rest, isRest, readWord⟩ :=
    exists_keyword? (by decide) (apart_symbol_mul rfl) (mem_spaces_mul_of_gap isRest)
  obtain ⟨rest, isRest, readOpen⟩ := exists_symbol? rfl isRest
  -- Whatever parentheses the values contain, the row goes up to the last one.
  obtain ⟨body, isBody, rest, cut, atEnd⟩ := exists_splitAtLast? isRest
  simp [read?, readInsert, readInto, readTable, readWord, readOpen, cut, atEnd,
    readValues_of_mem isBody]

end Insertion

/-- A text that begins with the words INSERT INTO is an insertion. -/
theorem StatementKind.ofText?_of_mem_insertion {text : Bytes} {insertion : Insertion}
    (written : text ∈ Grammar.insertion insertion) : ofText? text = some .insert := by
  simp only [Grammar.insertion, mul_assoc] at written
  -- The other statements are told by other first words.
  have absent : Token.keyword? "CREATE" text = none :=
    keyword?_eq_none_of_mem (by decide) (by decide) (by decide) apart_gap_mul written
  obtain ⟨rest, isRest, readInsert⟩ := exists_keyword? (by decide) apart_gap_mul written
  obtain ⟨rest, -, readInto⟩ :=
    exists_keyword? (by decide) apart_gap_mul (mem_spaces_mul_of_gap isRest)
  simp [ofText?, absent, readInsert, readInto]

/-- A written insertion is read as that insertion. -/
theorem insertion_reads_back {text : Bytes} {insertion : Insertion}
    (written : text ∈ Grammar.insertion insertion) :
    Statement.parse text = .ok (.insert insertion) := by
  -- The words tell an insertion, and its reader reads what is written.
  have read := Insertion.read?_of_mem written
  have kind := StatementKind.ofText?_of_mem_insertion written
  rw [Statement.parse, kind]
  simp [Statement.parseAs, Insertion.parse, read, StatementKind.expect]

/-- A quoted value may contain all that ends a value or a row, and a value may be left blank. -/
theorem insertion_reads_back_delimiters :
    Statement.parse "Insert INTO t values( 'a,\n);' ,, 2 ) ;" =
      .ok (.insert ⟨"t", [.text "a,\n);", .text "", .integer 2]⟩) := by
  have nothing : utf8 "" ∈ spaces := blank_nil
  have space : utf8 " " ∈ spaces := (by decide : Blank " ")
  have gap : utf8 " " ∈ Grammar.gap := ⟨space, by decide⟩
  have insert : utf8 "Insert" ∈ word "INSERT" := (by decide : upper "Insert" = upper "INSERT")
  have into : utf8 "INTO" ∈ word "INTO" := rfl
  have table : utf8 "t" ∈ identifier [] "t" := ⟨rfl, by decide, by simp⟩
  have keyword : utf8 "values" ∈ word "VALUES" := (by decide : upper "values" = upper "VALUES")
  have opening : utf8 "(" ∈ symbol openParenthesis := rfl
  have separator : utf8 "," ∈ symbol comma := rfl
  have closing : utf8 ")" ∈ symbol closeParenthesis := rfl
  have finish : utf8 " ;" ∈ ending := mem_ending_iff.2 (.semicolon space blank_nil)
  have run : utf8 "'a,\n);'" ∈ literal (.text "a,\n);") := .quoted ⟨apostrophe, by decide⟩
  have blank : utf8 "" ∈ literal (readLiteral "") := .bare (by decide +kernel)
  have number : utf8 "2" ∈ literal (readLiteral "2") := .bare (by decide +kernel)
  -- The last value is not blank, unlike the one in front of it.
  have last : utf8 " 2 " ∈ row [readLiteral "2"] :=
    ⟨append_mem_mul (append_mem_mul space number) space, by decide⟩
  have filled : utf8 " 'a,\n);' " ∈ inserted (.text "a,\n);") :=
    append_mem_mul (append_mem_mul space run) space
  have skipped : utf8 "" ∈ inserted (readLiteral "") :=
    append_mem_mul (append_mem_mul nothing blank) nothing
  have values := append_mem_mul (append_mem_mul filled separator)
    (append_mem_mul (append_mem_mul skipped separator) last)
  have written := append_mem_mul nothing <| append_mem_mul insert <| append_mem_mul gap <|
    append_mem_mul into <| append_mem_mul gap <| append_mem_mul table <| append_mem_mul gap <|
    append_mem_mul keyword <| append_mem_mul nothing <| append_mem_mul opening <|
    append_mem_mul values <| append_mem_mul closing finish
  have literals : readLiteral "" = .text "" ∧ readLiteral "2" = .integer 2 := by decide +kernel
  rw [← literals.1, ← literals.2]
  apply insertion_reads_back
  simp only [Grammar.insertion, row, mul_assoc] at written ⊢
  exact written

end TableStore
