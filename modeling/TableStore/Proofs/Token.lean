import TableStore.Proofs.Quoted

/-!
Tokens in front of more text. Main statements: a statement ends at white space with one semicolon
in it at most, and an ending that is added to a text is left over by every reader.
-/

namespace TableStore

variable {word text rest ending : Bytes}

/-- White space with one semicolon in it at most. -/
inductive Ending : Bytes → Prop
  | spaces {gap : Bytes} (blank : Blank gap) : Ending gap
  | semicolon {gap last : Bytes} (blank : Blank gap) (blankLast : Blank last) :
      Ending (gap ++ semicolon :: last)

/-- An ending holds nothing but white space and semicolons. -/
theorem Ending.isSpace_or_eq (isEnding : Ending ending) {byte : UInt8} (among : byte ∈ ending) :
    isSpace byte = true ∨ byte = TableStore.semicolon := by
  -- The white space may have one semicolon in it.
  cases isEnding with
  | spaces blank => exact .inl (blank byte among)
  | semicolon blank blankLast =>
    rcases List.mem_append.1 among with among | among
    · exact .inl (blank byte among)
    · rcases List.mem_cons.1 among with rfl | among
      · exact .inr rfl
      · exact .inl (blankLast byte among)

/-- No byte of an ending is part of a word. -/
theorem Ending.isWordByte (isEnding : Ending ending) {byte : UInt8} (among : byte ∈ ending) :
    TableStore.isWordByte byte = false := by
  -- Neither white space nor the semicolon is.
  rcases isEnding.isSpace_or_eq among with white | rfl
  · exact isWordByte_of_isSpace white
  · rfl

/-- No byte of an ending is a quote. -/
theorem Ending.isQuote (isEnding : Ending ending) {byte : UInt8} (among : byte ∈ ending) :
    TableStore.isQuote byte = false := by
  -- Both kinds of byte differ from the quotes.
  rcases isEnding.isSpace_or_eq among with white | rfl
  · exact isQuote_of_isSpace white
  · rfl

/-- An ending closes no parenthesis. -/
theorem Ending.closeParenthesis_notMem (isEnding : Ending ending) : closeParenthesis ∉ ending := by
  -- The parenthesis is neither white space nor a semicolon.
  intro among
  rcases isEnding.isSpace_or_eq among with white | same
  · exact absurd white (by decide)
  · exact absurd same (by decide)

/-- A text without word bytes ends every word in front of it. -/
theorem endsWord_of_forall (outside : ∀ byte ∈ text, isWordByte byte = false) : EndsWord text := by
  -- Only the first byte counts.
  cases text with
  | nil => rfl
  | cons byte text => simpa [EndsWord] using outside byte List.mem_cons_self

/-- An ending ends every word in front of it. -/
theorem Ending.endsWord (isEnding : Ending ending) : EndsWord ending :=
  -- None of its bytes is a word byte.
  endsWord_of_forall fun _ among => isEnding.isWordByte among

/-- An ending without the white space in front of it is an ending. -/
theorem Ending.skipSpaces (isEnding : Ending ending) : Ending (skipSpaces ending) := by
  -- White space in front of the semicolon goes, and the rest stays.
  cases isEnding with
  | spaces blank =>
    rw [skipSpaces_eq_nil_iff.2 blank]
    exact .spaces blank_nil
  | semicolon blank blankLast =>
    rw [skipSpaces_append blank, skipSpaces_eq_self rfl]
    exact .semicolon blank_nil blankLast

/-- An ending without a semicolon is white space. -/
theorem Ending.blank (isEnding : Ending ending) (absent : TableStore.semicolon ∉ ending) :
    Blank ending := by
  -- Only the other form of an ending has a semicolon.
  cases isEnding with
  | spaces blank => exact blank
  | semicolon => simp at absent

/-- White space in front of an ending belongs to it. -/
theorem Ending.blank_append (isEnding : Ending ending) {gap : Bytes} (blank : Blank gap) :
    Ending (gap ++ ending) := by
  -- The white space joins the first part of either form.
  cases isEnding with
  | spaces blank' => exact .spaces (blank_append_iff.2 ⟨blank, blank'⟩)
  | semicolon blank' blankLast =>
    rw [← List.append_assoc]
    exact .semicolon (blank_append_iff.2 ⟨blank, blank'⟩) blankLast

/-- White space behind an ending belongs to it. -/
theorem Ending.append_blank (isEnding : Ending ending) {gap : Bytes} (blank : Blank gap) :
    Ending (ending ++ gap) := by
  -- The white space joins the last part of either form.
  cases isEnding with
  | spaces blank' => exact .spaces (blank_append_iff.2 ⟨blank', blank⟩)
  | semicolon blank' blankLast =>
    rw [List.append_assoc, List.cons_append]
    exact .semicolon blank' (blank_append_iff.2 ⟨blankLast, blank⟩)

/-- A search finds nothing in an ending. -/
theorem Ending.findWord_append (isWord : isIdentifier word = true)
    (isEnding : Ending ending) (text : Bytes) :
    findWord word (text ++ ending) 0 = findWord word text 0 := by
  -- A search goes on into the ending, where there is no word.
  have absent := findWordFrom_eq_none isWord fun _ => isEnding.isWordByte
  rw [findWord, findWordFrom_append isWord _ _ _ (.inr isEnding.endsWord), absent, Option.or_none,
    findWord]

namespace Token

/-! ## The end of a statement -/

/-- A text is an ending, as much of one as there is, and what is left behind it. -/
theorem exists_append_afterEnd (text : Bytes) :
    ∃ ending, Ending ending ∧ text = ending ++ afterEnd text ∧
      (afterEnd text).head?.any isSpace = false ∧
      ((afterEnd text).head? = some semicolon → semicolon ∈ ending) := by
  obtain ⟨gap, blank, cut⟩ := exists_blank_append_skipSpaces text
  rw [afterEnd]
  split
  · next last found =>
    -- The white space behind the semicolon is skipped as well.
    obtain ⟨gap', blank', cut'⟩ := exists_blank_append_skipSpaces last
    refine ⟨gap ++ semicolon :: gap', .semicolon blank blank', ?_, head?_skipSpaces last, by simp⟩
    rw [List.append_assoc, List.cons_append, ← cut', ← found, ← cut]
  · next other =>
    refine ⟨gap, .spaces blank, cut, head?_skipSpaces text, fun first => ?_⟩
    -- A semicolon behind the white space would have been passed over.
    obtain ⟨last, found⟩ := List.head?_eq_some_iff.1 first
    exact absurd found (other last)

/-- A statement may end exactly at an ending. -/
theorem isAtEnd_iff : isAtEnd text = true ↔ Ending text := by
  rw [isAtEnd, List.isEmpty_iff]
  constructor
  · intro atEnd
    -- Nothing is left behind the ending, which then is all of the text.
    obtain ⟨ending, isEnding, cut, -⟩ := exists_append_afterEnd text
    rw [cut, atEnd, List.append_nil]
    exact isEnding
  · intro isEnding
    cases isEnding with
    | spaces blank => simp [afterEnd, skipSpaces_eq_nil_iff.2 blank]
    | @semicolon gap last blank blankLast =>
      have kept : skipSpaces (semicolon :: last) = semicolon :: last := skipSpaces_eq_self rfl
      simp [afterEnd, skipSpaces_append blank, kept, skipSpaces_eq_nil_iff.2 blankLast]

/-- What stands in front of an ending is what is left without it. -/
theorem dropEnd_append {token : Bytes} (isEnding : Ending ending)
    (solid : token.getLast?.any isSpace = false)
    (own : token.getLast? = some semicolon → semicolon ∈ ending) :
    dropEnd (token ++ ending) = token := by
  cases isEnding with
  | spaces blank =>
    -- No semicolon belongs to the ending, so that the token ends in none.
    have absent : semicolon ∉ ending := fun among => absurd (blank _ among) (by decide)
    have last : token.getLast? ≠ some semicolon := fun ends => absent (own ends)
    rw [dropEnd, dropTrailingSpaces_append blank, dropTrailingSpaces_eq_self solid, if_neg last]
  | @semicolon gap last blank blankLast =>
    have kept : dropTrailingSpaces (token ++ (gap ++ semicolon :: last)) =
        (token ++ gap) ++ [semicolon] := by
      rw [← List.append_assoc, ← List.singleton_append, ← List.append_assoc,
        dropTrailingSpaces_append blankLast, dropTrailingSpaces_eq_self]
      rw [List.getLast?_concat]
      rfl
    simp only [dropEnd, kept, List.getLast?_concat, if_true, List.dropLast_concat]
    rw [dropTrailingSpaces_append blank, dropTrailingSpaces_eq_self solid]

/-- A text without its ending does not end in white space. -/
theorem getLast?_dropEnd (text : Bytes) : (dropEnd text).getLast?.any isSpace = false := by
  -- Whichever way the text is cut, trailing white space is dropped last.
  simp only [dropEnd]
  split <;> exact getLast?_dropTrailingSpaces _

/-- A text is what is left without its ending, and the ending. -/
theorem exists_dropEnd_append (text : Bytes) :
    ∃ ending, Ending ending ∧ text = dropEnd text ++ ending ∧
      ((dropEnd text).getLast? = some semicolon → semicolon ∈ ending) := by
  obtain ⟨last, blankLast, cut⟩ := exists_dropTrailingSpaces_append_blank text
  simp only [dropEnd]
  split
  · next ends =>
    -- The semicolon at the end is cut off, with the white space in front of it.
    obtain ⟨kept, isLast⟩ := List.getLast?_eq_some_iff.1 ends
    obtain ⟨gap, blank, cutKept⟩ := exists_dropTrailingSpaces_append_blank kept
    refine ⟨gap ++ semicolon :: last, .semicolon blank blankLast, ?_, by simp⟩
    rw [isLast, List.dropLast_concat, ← List.append_assoc, ← cutKept]
    rw [isLast] at cut
    simpa using cut
  · next ends => exact ⟨last, .spaces blankLast, cut, fun found => absurd found ends⟩

/-- Nothing is left without the ending exactly if the text is one. -/
theorem dropEnd_eq_nil_iff : dropEnd text = [] ↔ Ending text := by
  constructor
  · intro empty
    -- What is cut off is an ending, and here it is all of the text.
    obtain ⟨ending, isEnding, cut, -⟩ := exists_dropEnd_append text
    rwa [cut, empty]
  · intro isEnding
    have nothing : dropEnd ([] ++ text) = [] := dropEnd_append isEnding rfl (by simp)
    simpa using nothing

/-! ## Values -/

/-- A quoted run is read up to its closing quote. -/
theorem value?_quoted {quote : UInt8} (isQuoted : isQuote quote = true) {inside : Bytes}
    (absent : quote ∉ inside) (kept : skipSpaces text = quote :: (inside ++ quote :: rest)) :
    value? text = some (quote :: (inside ++ [quote]), rest) := by
  -- The run goes up to the first quote of its kind.
  have run : (inside ++ quote :: rest).takeWhile (· != quote) = inside := by
    rw [List.takeWhile_append_of_pos (by grind)]
    simp
  have token : quote :: (inside ++ quote :: rest) = (quote :: (inside ++ [quote])) ++ rest := by
    simp
  have behind : (quote :: (inside ++ [quote]) ++ rest).drop (quote :: (inside ++ [quote])).length =
      rest := List.drop_left
  rw [← token] at behind
  simp only [value?, kept, isQuoted, if_true, List.contains_iff_mem.2
    (List.mem_append_right inside List.mem_cons_self), run, List.cons_append, behind]
  rfl

/-- A quoted run without its closing quote is no value. -/
theorem value?_open {quote : UInt8} (isQuoted : isQuote quote = true) (absent : quote ∉ rest)
    (kept : skipSpaces text = quote :: rest) : value? text = none := by
  -- The search for the closing quote fails.
  simp [value?, kept, isQuoted, absent]

/-- A bare value is all that remains without the end of the statement. -/
theorem value?_bare (bare : (skipSpaces text).head?.any isQuote = false) :
    value? text =
      if dropEnd (skipSpaces text) = [] then none
      else some (dropEnd (skipSpaces text),
        (skipSpaces text).drop (dropEnd (skipSpaces text)).length) := by
  -- Unless it begins with a quote, the text is read as bare.
  rw [value?]
  cases kept : skipSpaces text with
  | nil => rfl
  | cons first rest =>
    have unquoted : isQuote first = false := by simpa [kept] using bare
    simp [unquoted]

/--
A value in front of what is left behind it: a quoted run, or a bare text in front of the end of the
statement, which has a semicolon of its own if the text ends in one.
-/
inductive IsValue : Bytes → Bytes → Prop
  | quoted {quote : UInt8} {inside rest : Bytes} (isQuoted : isQuote quote = true)
    (absent : quote ∉ inside) : IsValue (quote :: (inside ++ [quote])) rest
  | bare {token rest : Bytes} (nonempty : token ≠ []) (unquoted : token.head?.any isQuote = false)
    (ends : token.getLast?.any isSpace = false) (closes : Ending rest)
    (own : token.getLast? = some semicolon → semicolon ∈ rest) : IsValue token rest

/-- A value is read exactly if it is what stands behind the white space. -/
theorem value?_eq_some_iff {token : Bytes} :
    value? text = some (token, rest) ↔ skipSpaces text = token ++ rest ∧ IsValue token rest := by
  constructor
  · intro read
    by_cases unquoted : (skipSpaces text).head?.any isQuote = false
    · rw [value?_bare unquoted, Option.ite_none_left_eq_some] at read
      obtain ⟨nonempty, same⟩ := read
      obtain ⟨rfl, rfl⟩ := Prod.mk.inj (Option.some.inj same)
      -- What is cut off behind a bare value is the end of a statement, and the value is the rest.
      obtain ⟨closing, closes, whole, own⟩ := exists_dropEnd_append (skipSpaces text)
      have first : (dropEnd (skipSpaces text)).head? = (skipSpaces text).head? :=
        calc (dropEnd (skipSpaces text)).head?
            = (dropEnd (skipSpaces text) ++ closing).head? :=
              (List.head?_append_of_ne_nil _ nonempty).symm
          _ = (skipSpaces text).head? := by rw [← whole]
      have left : (skipSpaces text).drop (dropEnd (skipSpaces text)).length = closing :=
        calc (skipSpaces text).drop (dropEnd (skipSpaces text)).length
            = (dropEnd (skipSpaces text) ++ closing).drop (dropEnd (skipSpaces text)).length := by
              rw [← whole]
          _ = closing := List.drop_left
      rw [left]
      exact ⟨whole, .bare nonempty (first ▸ unquoted) (getLast?_dropEnd _) closes own⟩
    · obtain ⟨quote, behind, kept⟩ : ∃ quote behind, skipSpaces text = quote :: behind := by
        cases kept : skipSpaces text with
        | nil => simp [kept] at unquoted
        | cons quote behind => exact ⟨quote, behind, rfl⟩
      have isQuoted : isQuote quote = true := by simpa [kept] using unquoted
      -- Without its closing quote the run would be no value.
      have closed : quote ∈ behind := by
        by_contra opened
        rw [value?_open isQuoted opened kept] at read
        simp at read
      obtain ⟨inside, after, rfl, absent⟩ := List.eq_append_cons_of_mem closed
      rw [value?_quoted isQuoted absent kept] at read
      obtain ⟨rfl, rfl⟩ := Prod.mk.inj (Option.some.inj read)
      exact ⟨by simp [kept], .quoted isQuoted absent⟩
  · rintro ⟨kept, isValue⟩
    cases isValue with
    | quoted isQuoted absent => exact value?_quoted isQuoted absent (by simp [kept])
    | bare nonempty unquoted ends closes own =>
      have bare : (skipSpaces text).head?.any isQuote = false := by
        rw [kept, List.head?_append_of_ne_nil _ nonempty]
        exact unquoted
      -- All that is cut off behind the value is the end of the statement.
      rw [value?_bare bare, kept, dropEnd_append closes ends own, if_neg nonempty, List.drop_left]

/-- A bare value is read up to the end of the statement. -/
theorem value?_append_ending {white token : Bytes} (blank : Blank white) (nonempty : token ≠ [])
    (starts : token.head?.any isSpace = false) (ends : token.getLast?.any isSpace = false)
    (unquoted : token.head?.any isQuote = false) (closes : Ending ending)
    (own : token.getLast? = some semicolon → semicolon ∈ ending) :
    value? (white ++ (token ++ ending)) = some (token, ending) := by
  -- The value is in the place that the characterization of values asks for.
  refine value?_eq_some_iff.2 ⟨?_, .bare nonempty unquoted ends closes own⟩
  rw [skipSpaces_append blank]
  refine skipSpaces_eq_self ?_
  rw [List.head?_append_of_ne_nil _ nonempty]
  exact starts

/-- An ending holds no value. -/
theorem value?_eq_none (isEnding : Ending text) : value? text = none := by
  have kept := isEnding.skipSpaces
  -- An ending begins with no quote, so that it would be a bare value.
  have bare : (skipSpaces text).head?.any isQuote = false := by
    cases first : (skipSpaces text).head? with
    | none => rfl
    | some byte => exact kept.isQuote (List.mem_of_head? first)
  rw [value?_bare bare, if_pos (dropEnd_eq_nil_iff.2 kept)]

/-! ## Readers leave an ending over -/

/-- A text that holds no word behind its white space holds no keyword. -/
theorem keyword?_eq_none (isWord : isIdentifier word = true) (ends : EndsWord (skipSpaces text)) :
    keyword? word text = none := dropWord?_eq_none isWord ends

/-- No name is read exactly if no word byte stands behind the white space. -/
theorem identifier?_eq_none_iff : identifier? text = none ↔ EndsWord (skipSpaces text) := by
  -- The name is the longest run of word bytes, empty if the first byte is none.
  rw [identifier?, EndsWord]
  cases skipSpaces text with
  | nil => simp
  | cons byte rest => cases wordByte : isWordByte byte <;> simp [wordByte]

/-- An ending behind the text does not change whether a keyword is read. -/
theorem keyword?_append (word : Bytes) (isWord : isIdentifier word = true)
    (isEnding : Ending ending) (text : Bytes) :
    keyword? word (text ++ ending) = (keyword? word text).map (· ++ ending) := by
  by_cases blank : Blank text
  · -- Nothing but the ending is there.
    have absent : keyword? word text = none :=
      keyword?_eq_none isWord (by rw [skipSpaces_eq_nil_iff.2 blank]; rfl)
    rw [absent, keyword?, skipSpaces_append blank,
      dropWord?_eq_none isWord isEnding.skipSpaces.endsWord]
    rfl
  · -- Otherwise the white space that is skipped is all of the text.
    rw [keyword?, skipSpaces_append_of_not_blank blank,
      dropWord?_append (fun _ => isWordByte_of_mem isWord) _ isEnding.endsWord, keyword?]

/-- An ending behind the text does not change the name that is read. -/
theorem identifier?_append (isEnding : Ending ending) (text : Bytes) :
    identifier? (text ++ ending) =
      (identifier? text).map fun (name, rest) => (name, rest ++ ending) := by
  by_cases blank : Blank text
  · -- Nothing but the ending is there, and it begins no word.
    have absent : identifier? text = none :=
      identifier?_eq_none_iff.2 (by rw [skipSpaces_eq_nil_iff.2 blank]; rfl)
    rw [absent, Option.map_none, identifier?_eq_none_iff, skipSpaces_append blank]
    exact isEnding.skipSpaces.endsWord
  · have kept := skipSpaces_append_of_not_blank blank ending
    cases read : identifier? text with
    -- The name stands in front of the ending, which ends it at the latest.
    | some token =>
      obtain ⟨name, rest⟩ := token
      obtain ⟨cut, isName, ends⟩ := identifier?_eq_some_iff.1 read
      refine identifier?_eq_some_iff.2 ⟨?_, isName, ?_⟩
      · rw [kept, cut, List.append_assoc]
      · cases rest with
        | nil => exact isEnding.endsWord
        | cons byte rest => exact ends
    | none =>
      -- A text that begins with no name does not do so with more behind it.
      have ends := identifier?_eq_none_iff.1 read
      have filled : skipSpaces text ≠ [] := skipSpaces_eq_nil_iff.not.2 blank
      obtain ⟨byte, rest, cut⟩ := List.exists_cons_of_ne_nil filled
      rw [Option.map_none, identifier?_eq_none_iff, kept, cut]
      rw [cut] at ends
      exact ends

/--
An ending behind the text does not change whether a symbol is read, unless it is a semicolon.
-/
theorem symbol?_append (symbol : UInt8) (other : symbol ≠ semicolon)
    (solid : isSpace symbol = false) (isEnding : Ending ending) (text : Bytes) :
    symbol? symbol (text ++ ending) = (symbol? symbol text).map (· ++ ending) := by
  by_cases blank : Blank text
  · -- The symbol is none of the bytes of an ending.
    have absent : symbol? symbol (text ++ ending) = none := by
      rw [Option.eq_none_iff_forall_ne_some]
      intro rest read
      have found := symbol?_eq_some_iff.1 read
      rw [skipSpaces_append blank] at found
      have among : symbol ∈ ending :=
        (List.dropWhile_sublist isSpace).mem (by rw [← skipSpaces, found]; simp)
      rcases isEnding.isSpace_or_eq among with white | same
      · simp [solid] at white
      · exact other same
    rw [absent, symbol?, skipSpaces_eq_nil_iff.2 blank]
    rfl
  · -- The first byte that is not white space decides, and it is one of the text.
    have filled : skipSpaces text ≠ [] := skipSpaces_eq_nil_iff.not.2 blank
    obtain ⟨byte, rest, cut⟩ := List.exists_cons_of_ne_nil filled
    rw [symbol?, skipSpaces_append_of_not_blank blank, symbol?, cut, List.cons_append]
    by_cases same : byte = symbol <;> simp [same]

/-! ## Readers give back the end of their text -/

/-- What is left behind a keyword is the rear of the text. -/
theorem keyword?_suffix (read : keyword? word text = some rest) : rest <:+ text := by
  -- White space and the word are cut off in front.
  obtain ⟨written, cut, -, -⟩ := dropWord?_eq_some_iff.1 read
  exact List.IsSuffix.trans ⟨written, cut.symm⟩ (skipSpaces_suffix text)

/-- What is left behind a name is the rear of the text. -/
theorem identifier?_suffix {name : Bytes} (read : identifier? text = some (name, rest)) :
    rest <:+ text := by
  -- The name is cut off behind the white space.
  obtain ⟨cut, -, -⟩ := identifier?_eq_some_iff.1 read
  exact List.IsSuffix.trans ⟨name, cut.symm⟩ (skipSpaces_suffix text)

/-- What is left behind a symbol is the rear of the text. -/
theorem symbol?_suffix {symbol : UInt8} (read : symbol? symbol text = some rest) :
    rest <:+ text :=
  List.IsSuffix.trans ⟨[symbol], (symbol?_eq_some_iff.1 read).symm⟩ (skipSpaces_suffix text)

/-- What is left behind a value is the rear of the text. -/
theorem value?_suffix {token : Bytes} (read : value? text = some (token, rest)) :
    rest <:+ text := by
  -- The value is cut off as it is written, quotes included.
  obtain ⟨cut, -⟩ := value?_eq_some_iff.1 read
  exact List.IsSuffix.trans ⟨token, cut.symm⟩ (skipSpaces_suffix text)

end Token

end TableStore
