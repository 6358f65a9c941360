import TableStore.Proofs.Result
import TableStore.Proofs.Statement.Grammar
import TableStore.Proofs.Statement.Padding

/-! Updates as they are written. Main statement: a written update is read as that update. -/

namespace TableStore

namespace Grammar

/-- A bare text to which a column may be set: nothing in it ends it early. -/
structure BareAssigned (text : Bytes) : Prop where
  plain : ∀ byte ∈ text, isQuote byte = false ∧ byte ≠ comma ∧ byte ≠ semicolon
  single : hasWord "WHERE" text = false

/-- A value to which a column is set. -/
inductive Assigned : Value → Bytes → Prop
  | quoted {inside run : Bytes} (isRun : run ∈ Grammar.quoted inside) : Assigned (.text inside) run
  | bare {text : Bytes} (isBare : BareAssigned text) : Assigned (readLiteral text) text

/-- The values to which a column may be set. -/
def assigned (value : Value) : Language UInt8 := {text | Assigned value text}

/-- A column and its new value. -/
def assignment (assignment : Assignment) : Language UInt8 :=
  spaces * identifier ["WHERE"] assignment.column * spaces * symbol equalsSign * spaces *
    assigned assignment.value * spaces

/-- The written forms of an update. -/
def update (update : Update) : Language UInt8 :=
  spaces * word "UPDATE" * gap * identifier [] update.table * gap * word "SET" * gap *
    separated assignment update.assignments * clause [] update.condition

variable {text : Bytes} {found : Assignment}

/-- The parts of a written assignment. -/
theorem exists_of_mem_assignment (written : text ∈ assignment found) :
    ∃ before middle after last value, Blank before ∧ Blank middle ∧ Blank after ∧ Blank last ∧
      isIdentifier found.column = true ∧ upper found.column ≠ upper "WHERE" ∧
      Assigned found.value value ∧
      text = before ++ (found.column ++ (middle ++ equalsSign :: (after ++ (value ++ last)))) := by
  -- The products are taken apart from the left, each padding with what it stands before.
  simp only [assignment, mul_assoc] at written
  obtain ⟨before, blankBefore, _, isNamed, rfl⟩ := Language.mem_mul.1 written
  obtain ⟨_, ⟨rfl, isName, other⟩, _, isSet, rfl⟩ := Language.mem_mul.1 isNamed
  obtain ⟨middle, blankMiddle, _, isEqual, rfl⟩ := Language.mem_mul.1 isSet
  obtain ⟨_, rfl, _, isBehind, rfl⟩ := Language.mem_mul.1 isEqual
  obtain ⟨after, blankAfter, _, isPadded, rfl⟩ := Language.mem_mul.1 isBehind
  obtain ⟨value, isValue, last, blankLast, rfl⟩ := Language.mem_mul.1 isPadded
  exact ⟨before, middle, after, last, value, blankBefore, blankMiddle, blankAfter, blankLast,
    isName, other _ List.mem_cons_self, isValue, rfl⟩

/-- A new value is free of the word that ends the clause. -/
theorem free_of_assigned {value : Value} (written : Assigned value text) : Free "WHERE" text := by
  -- A run of its own closes what it opens; a bare value has no quotes and, by its side condition,
  -- no keyword.
  cases written with
  | quoted isRun =>
    obtain ⟨quote, isQuoted, absent, rfl⟩ := isRun
    exact free_quoted _ isQuoted absent
  | bare isBare =>
    exact ⟨closed_of_forall fun byte among => (isBare.plain byte among).1, isBare.single⟩

/-- A new value is one that may stand in a list of values. -/
theorem Assigned.mem_literal {value : Value} (written : Assigned value text) :
    text ∈ literal value := by
  -- A bare value of an assignment meets more than a bare value of a list has to.
  cases written with
  | quoted isRun => exact .quoted isRun
  | bare isBare =>
    refine .bare fun byte among => ?_
    obtain ⟨unquoted, other, -⟩ := isBare.plain byte among
    exact ⟨unquoted, other⟩

/--
An assignment is free of the word that ends the clause, since neither its name nor its value is.
-/
theorem free_of_mem_assignment (written : text ∈ assignment found) : Free "WHERE" text := by
  obtain ⟨before, middle, after, last, value, blankBefore, blankMiddle, blankAfter, blankLast,
    isName, other, isValue, rfl⟩ := exists_of_mem_assignment written
  have isWord : isIdentifier (utf8 "WHERE") = true := by decide
  -- From the end on: the equals sign belongs to no word and ends the name in front of it.
  have freeEquals := (free_singleton isWord rfl rfl : Free "WHERE" [equalsSign])
  have freeValue := (free_of_assigned isValue).append (blankLast.free isWord) isWord
    (.inr blankLast.endsWord)
  have freeBehind := freeEquals.append ((blankAfter.free isWord).append freeValue isWord
    blankAfter.seam) isWord (.inl rfl)
  have ends : EndsWord (middle ++ equalsSign :: (after ++ (value ++ last))) :=
    blankMiddle.endsWord_append rfl
  have freeSet := (blankMiddle.free isWord).append freeBehind isWord blankMiddle.seam
  exact (blankBefore.free isWord).append
    ((free_of_isIdentifier isName other).append freeSet isWord (.inr ends)) isWord blankBefore.seam

/-- No comma of an assignment separates, since the only one it can have stands within quotes. -/
theorem uncut_of_mem_assignment (written : text ∈ assignment found) : Uncut comma text := by
  obtain ⟨before, middle, after, last, value, blankBefore, blankMiddle, blankAfter, blankLast,
    isName, -, isValue, rfl⟩ := exists_of_mem_assignment written
  -- Every part is uncut: the name and the white space have no comma, the value has it in quotes.
  have uncutEquals : Uncut comma [equalsSign] := uncut_singleton rfl (by decide)
  have uncutValue := (uncut_of_mem_literal isValue.mem_literal).append (blankLast.uncut rfl)
  have uncutSet := (blankMiddle.uncut rfl).append
    (uncutEquals.append ((blankAfter.uncut rfl).append uncutValue))
  exact (blankBefore.uncut rfl).append ((uncut_of_isIdentifier isName rfl).append uncutSet)

/-- A written assignment is read, with white space around it or without. -/
theorem parse_of_mem_assignment (written : text ∈ assignment found) :
    Assignment.parse text = .ok found := by
  obtain ⟨before, middle, after, last, value, blankBefore, blankMiddle, blankAfter, blankLast,
    isName, -, isValue, rfl⟩ := exists_of_mem_assignment written
  have filled : ¬Blank (equalsSign :: (after ++ (value ++ last))) := fun blank =>
    absurd (blank equalsSign List.mem_cons_self) (by decide)
  -- Trimming takes white space off the value only, since the equals sign is none.
  obtain ⟨kept, gap, blank, trimmed, cut⟩ : ∃ kept gap, Blank gap ∧
      dropTrailingSpaces (equalsSign :: (after ++ (value ++ last))) = equalsSign :: kept ∧
      after ++ (value ++ last) = kept ++ gap := by
    obtain ⟨gap, blank, cut⟩ :=
      exists_dropTrailingSpaces_append_blank (equalsSign :: (after ++ (value ++ last)))
    obtain ⟨first, kept, trimmed⟩ :=
      List.exists_cons_of_ne_nil (dropTrailingSpaces_eq_nil_iff.not.2 filled)
    rw [trimmed, List.cons_append, List.cons.injEq] at cut
    obtain ⟨rfl, cut⟩ := cut
    exact ⟨kept, gap, blank, trimmed, cut⟩
  have item : trim (before ++ (found.column ++
      (middle ++ equalsSign :: (after ++ (value ++ last))))) =
        (found.column ++ middle) ++ equalsSign :: kept := by
    have starts := head?_append_of_isIdentifier isName
      (middle ++ equalsSign :: (after ++ (value ++ last)))
    rw [trim_blank_append blankBefore, trim, skipSpaces_eq_self starts, ← List.append_assoc,
      dropTrailingSpaces_append_of_not_blank _ filled, trimmed]
  have absent : equalsSign ∉ found.column ++ middle := by
    rw [List.mem_append, not_or]
    refine ⟨fun among => ?_, fun among => ?_⟩
    · exact absurd (isWordByte_of_mem isName among) (by decide)
    · exact absurd (blankMiddle _ among) (by decide)
  have column : trim (found.column ++ middle) = found.column := by
    rw [trim_append_blank blankMiddle, trim_eq_self_of_forall fun _ => isSpace_of_mem isName]
  have literal : readLiteral kept = found.value := by
    rw [← readLiteral_of_mem_literal isValue.mem_literal]
    refine readLiteral_eq_of_trim_eq ?_
    rw [← trim_append_blank blank, ← cut, trim_blank_append blankAfter, trim_append_blank blankLast]
  have parts := splitAtFirst?_eq_some_iff.2 ⟨item, absent⟩
  simp [Assignment.parse, Assignment.read?, parts, column, isName, literal]

/-- An equals sign and a new value end in a text without a semicolon that is not white space. -/
theorem exists_suffix_of_assigned {value : Value} (written : Assigned value text) {gap : Bytes}
    (blank : Blank gap) :
    ∃ rest, rest <:+ equalsSign :: (gap ++ text) ∧ ¬Blank rest ∧ semicolon ∉ rest := by
  cases written with
  | @quoted inside run isRun =>
    obtain ⟨quote, isQuoted, -, rfl⟩ := isRun
    -- A quoted run ends in its quote.
    refine ⟨[quote], ⟨equalsSign :: (gap ++ quote :: inside), by simp⟩, ?_, ?_⟩
    · simp [isSpace_of_isQuote isQuoted]
    · rintro among
      obtain rfl := List.mem_singleton.1 among
      exact absurd isQuoted (by decide)
  | bare isBare =>
    -- A bare value may be empty, but the equals sign in front of it is there.
    refine ⟨_, List.suffix_refl _, ?_, ?_⟩
    · exact fun blank => absurd (blank equalsSign List.mem_cons_self) (by decide)
    · rw [List.mem_cons, List.mem_append, not_or, not_or]
      refine ⟨by decide, fun among => ?_, fun among => (isBare.plain _ among).2.2 rfl⟩
      exact absurd (blank _ among) (by decide)

/-- No semicolon ends an assignment, with white space behind it or without. -/
theorem getLast?_of_mem_assignment (written : text ∈ assignment found) (front : Bytes) :
    (dropTrailingSpaces (front ++ text)).getLast? ≠ some semicolon := by
  obtain ⟨before, middle, after, last, value, -, -, blankAfter, blankLast, -, -, isValue, rfl⟩ :=
    exists_of_mem_assignment written
  obtain ⟨rest, ⟨begin, cut⟩, filled, absent⟩ := exists_suffix_of_assigned isValue blankAfter
  -- The white space behind the value is dropped, and what is left ends as the suffix does.
  have whole : front ++ (before ++ (found.column ++ (middle ++
      equalsSign :: (after ++ (value ++ last))))) =
      (front ++ before ++ found.column ++ middle ++ begin) ++ rest ++ last := by
    have set : equalsSign :: (after ++ (value ++ last)) = begin ++ (rest ++ last) := by
      rw [← List.append_assoc begin, cut, List.cons_append, List.append_assoc]
    simp only [set, List.append_assoc]
  obtain ⟨gap, -, kept⟩ := exists_dropTrailingSpaces_append_blank rest
  rw [whole, dropTrailingSpaces_append blankLast, dropTrailingSpaces_append_of_not_blank _ filled,
    List.getLast?_append_of_ne_nil _ (dropTrailingSpaces_eq_nil_iff.not.2 filled)]
  intro ends
  exact absent (kept ▸ List.mem_append_left gap (List.mem_of_getLast? ends))

end Grammar

open Grammar
open Language (append_mem_mul)

namespace Update

variable {text set closing : Bytes} {assignments : List Assignment} {found : Option Condition}

/-- What ends a list of assignments is no semicolon. -/
theorem getLast?_of_mem_assignments (written : text ∈ separated assignment assignments)
    (front : Bytes) : (dropTrailingSpaces (front ++ text)).getLast? ≠ some semicolon := by
  -- The text ends as its last assignment does.
  obtain ⟨found, last, isLast, begin, rfl⟩ := exists_suffix_of_mem_separated written
  rw [← List.append_assoc]
  exact getLast?_of_mem_assignment isLast _

/-- A list of assignments is never only white space. -/
theorem not_blank_of_mem_assignments (written : text ∈ separated assignment assignments) :
    ¬Blank text := by
  obtain ⟨found, last, isLast, begin, rfl⟩ := exists_suffix_of_mem_separated written
  -- Its last assignment has an equals sign.
  obtain ⟨before, middle, after, last, value, -, -, -, -, -, -, -, rfl⟩ :=
    exists_of_mem_assignment isLast
  exact fun blank => absurd (blank equalsSign (by simp)) (by decide)

/-- A written list of assignments is read item by item, with white space around it or without. -/
theorem mapM_parse_of_mem {clause : Bytes} (trimmed : trim clause = trim text)
    (written : text ∈ separated assignment assignments) :
    (splitOutsideQuotes comma clause).mapM Assignment.parse = .ok assignments := by
  -- No comma of an item separates, so that cutting at the commas gives the items back.
  have items := forall₂_of_mem_separated (fun _ _ => uncut_of_mem_assignment) written
  rw [Assignment.mapM_parse_congr trimmed, mapM_eq_ok_iff]
  exact items.imp fun _ _ => parse_of_mem_assignment

/-- A clause without a condition behind it goes on to the end of the statement. -/
theorem splitClause_of_ending (free : Free "WHERE" set)
    (unended : (dropTrailingSpaces set).getLast? ≠ some semicolon) (isEnding : Ending closing) :
    trim (splitClause (set ++ closing)).1 = trim set ∧
      Condition.readClause? (splitClause (set ++ closing)).2 = some none := by
  have padding : Padding set closing := ⟨isEnding, fun _ => unended⟩
  obtain ⟨trimmed, read⟩ := splitClause_append padding
  -- A semicolon could still follow the trimmed clause, so that none ends it.
  have unpadded : Padding set [semicolon] := ⟨.semicolon blank_nil blank_nil, fun _ => unended⟩
  have single : (trim set).getLast? ≠ some semicolon :=
    (unpadded.suffix (skipSpaces_suffix set)).single List.mem_cons_self
  have whole : splitClause set = (trim set, []) := by
    simp only [splitClause, free.splitAtWord?_eq_none, if_neg single]
  have nothing : Condition.readClause? [] = some none := by decide
  rw [trimmed, read, whole, trim_trim]
  exact ⟨rfl, nothing⟩

/-- A clause is cut off in front of the first word WHERE outside quoted runs. -/
theorem splitClause_of_condition {found : Condition} (free : Free "WHERE" set)
    (isClosing : closing ∈ gap * Grammar.condition [] found) :
    trim (splitClause (set ++ closing)).1 = trim set ∧
      Condition.readClause? (splitClause (set ++ closing)).2 = some (some found) := by
  obtain ⟨white, isGap, rest, isCondition, rfl⟩ := Language.mem_mul.1 isClosing
  have read := readClause?_of_mem_condition (mem_spaces_mul_self isCondition)
  have isWord : isIdentifier (utf8 "WHERE") = true := by decide
  -- What stands in front of the word WHERE is free of it up to the white space behind the clause.
  have freeGap := free.append (isGap.1.free isWord) isWord (.inr isGap.1.endsWord)
  simp only [Grammar.condition, mul_assoc] at isCondition
  obtain ⟨spelled, spells, value, isValue, rfl⟩ := Language.mem_mul.1 isCondition
  have cut := freeGap.splitAtWord? isWord (getLast?_append_of_mem_gap isGap set) spells
    (apart_gap_mul value isValue)
  rw [List.append_assoc] at cut
  rw [splitClause, cut, trim_append_blank isGap.1]
  exact ⟨rfl, read⟩

/-- The clause is cut out of what follows the word SET, whatever its quoted values contain. -/
theorem splitClause_of_mem
    (written : text ∈ gap * (separated assignment assignments * clause [] found)) :
    ∃ set ∈ separated assignment assignments, trim (splitClause text).1 = trim set ∧
      Condition.readClause? (splitClause text).2 = some found := by
  obtain ⟨white, ⟨blank, -⟩, _, isBehind, rfl⟩ := Language.mem_mul.1 written
  obtain ⟨set, isSet, closing, isClosing, rfl⟩ := Language.mem_mul.1 isBehind
  have isWord : isIdentifier (utf8 "WHERE") = true := by decide
  -- No assignment contains the word WHERE, and neither does the white space in front.
  have free : Free "WHERE" (white ++ set) := (blank.free isWord).append
    (free_of_mem_separated isWord (fun _ _ => free_of_mem_assignment) isSet) isWord blank.seam
  refine ⟨set, isSet, ?_⟩
  rw [← List.append_assoc, ← trim_blank_append blank set]
  cases found with
  | none =>
    exact splitClause_of_ending free (getLast?_of_mem_assignments isSet white)
      (mem_ending_iff.1 isClosing)
  | some found => exact splitClause_of_condition free isClosing

/-- A written update is read. -/
theorem parse_of_mem {update : Update} (written : text ∈ Grammar.update update) :
    parse text = .ok update := by
  simp only [Grammar.update, mul_assoc] at written
  obtain ⟨rest, isRest, readUpdate⟩ := exists_keyword? (by decide) apart_gap_mul written
  obtain ⟨rest, isRest, readTable⟩ :=
    exists_identifier? apart_gap_mul (mem_spaces_mul_of_gap isRest)
  obtain ⟨rest, isRest, readSet⟩ :=
    exists_keyword? (by decide) apart_gap_mul (mem_spaces_mul_of_gap isRest)
  obtain ⟨set, isSet, trimmed, readClause⟩ := splitClause_of_mem isRest
  -- A clause that holds an assignment is not empty.
  have nonempty : trim (splitClause rest).1 ≠ [] := by
    rw [trimmed]
    exact trim_eq_nil_iff.not.2 (not_blank_of_mem_assignments isSet)
  have readAssignments := mapM_parse_of_mem trimmed isSet
  simp [parse, readHead?, readUpdate, readTable, readSet, nonempty, StatementKind.expect,
    readAssignments, readClause, Bind.bind, Except.bind, Pure.pure, Except.pure]

end Update

/-- A written update is read as that update. -/
theorem update_reads_back {text : Bytes} {update : Update}
    (written : text ∈ Grammar.update update) : Statement.parse text = .ok (.update update) := by
  have parsed := Update.parse_of_mem written
  simp only [Grammar.update, mul_assoc] at written
  -- No other kind of statement begins with the word UPDATE.
  have absent : ∀ other : Bytes, isIdentifier other = true → upper "UPDATE" ≠ upper other →
      Token.keyword? other text = none := fun other isOther different =>
    keyword?_eq_none_of_mem (by decide) isOther different apart_gap_mul written
  obtain ⟨rest, -, readUpdate⟩ := exists_keyword? (by decide) apart_gap_mul written
  have kind : StatementKind.ofText? text = some .update := by
    simp [StatementKind.ofText?, readUpdate, absent "CREATE" (by decide) (by decide),
      absent "INSERT" (by decide) (by decide), absent "SELECT" (by decide) (by decide)]
  rw [Statement.parse, kind]
  simp [Statement.parseAs, parsed]

/-- A quoted value may contain all that ends a value elsewhere. -/
theorem update_reads_back_quoted_words :
    Statement.parse "Update t SET a='x, WHERE = ;' where c= \"AND\";" =
      .ok (.update ⟨"t", [⟨"a", .text "x, WHERE = ;"⟩], some ⟨"c", .text "AND"⟩⟩) := by
  -- One fact for each piece of the text, in the order of the grammar.
  have nothing : utf8 "" ∈ spaces := blank_nil
  have space : utf8 " " ∈ spaces := (by decide : Blank " ")
  have gap : utf8 " " ∈ Grammar.gap := ⟨space, by decide⟩
  have equals : utf8 "=" ∈ symbol equalsSign := rfl
  have update : utf8 "Update" ∈ word "UPDATE" := (by decide : upper "Update" = upper "UPDATE")
  have table : utf8 "t" ∈ identifier [] "t" := ⟨rfl, by decide, by simp⟩
  have set : utf8 "SET" ∈ word "SET" := rfl
  have assigned : utf8 "a" ∈ identifier ["WHERE"] "a" := ⟨rfl, by decide, by decide⟩
  have quotedValue : utf8 "'x, WHERE = ;'" ∈ Grammar.assigned (.text "x, WHERE = ;") :=
    .quoted ⟨apostrophe, by decide⟩
  have keyword : utf8 "where" ∈ word "WHERE" := (by decide : upper "where" = upper "WHERE")
  have column : utf8 "c" ∈ Grammar.column [] "c" := .inl ⟨rfl, by decide, by simp⟩
  have run : utf8 "\"AND\"" ∈ quoted "AND" := ⟨quotationMark, by decide⟩
  have closing : utf8 ";" ∈ ending := mem_ending_iff.2 (.semicolon blank_nil blank_nil)
  have value : utf8 "\"AND\"" ++ utf8 ";" ∈ valueAndEnd [] (.text "AND") := .quoted run closing
  -- The statement is the pieces, put together.
  have written := append_mem_mul nothing <| append_mem_mul update <| append_mem_mul gap <|
    append_mem_mul table <| append_mem_mul gap <| append_mem_mul set <| append_mem_mul gap <|
    append_mem_mul nothing <| append_mem_mul assigned <| append_mem_mul nothing <|
    append_mem_mul equals <| append_mem_mul nothing <| append_mem_mul quotedValue <|
    append_mem_mul nothing <| append_mem_mul gap <| append_mem_mul keyword <|
    append_mem_mul gap <| append_mem_mul column <| append_mem_mul nothing <|
    append_mem_mul equals <| append_mem_mul space value
  refine update_reads_back ?_
  simp only [Grammar.update, separated, assignment, clause, Grammar.condition, mul_assoc]
  exact written

end TableStore
