import Mathlib.Data.List.Basic
import TableStore.Proofs.Spaces
import TableStore.Quoted

/-!
Scans of a text that is put together from parts. Main statements: a search for a word goes on from
one part to the next unless the word could lie across them, and a text is cut at the separators
within its parts.
-/

namespace TableStore

variable {word front rest : Bytes}

/-- A text that leaves no quoted run open. -/
def Closed (text : Bytes) : Prop := text.foldl quoteAfter none = none

/-- Two texts of which no word runs from the first into the second. -/
def Seam (front rest : Bytes) : Prop := front.getLast?.any isWordByte = false ∨ EndsWord rest

/-- A text that is outside quoted runs at its end and has none of the words outside them. -/
structure Free (word text : Bytes) : Prop where
  closed : Closed text
  absent : hasWord word text = false

/-- No word runs out of white space. -/
theorem Blank.seam {gap : Bytes} (blank : Blank gap) : Seam gap rest := by
  -- The last byte of the white space, if there is one, is no word byte.
  refine .inl ?_
  cases last : gap.getLast? with
  | none => rfl
  | some byte => exact isWordByte_of_isSpace (blank byte (List.mem_of_getLast? last))

/-- Every byte of a name is a word byte. -/
theorem isWordByte_of_mem {name : Bytes} (isName : isIdentifier name = true) {byte : UInt8}
    (among : byte ∈ name) : isWordByte byte = true := by
  -- A name is defined as a text of word bytes that is not empty.
  simp only [isIdentifier, Bool.and_eq_true, List.all_eq_true] at isName
  exact isName.2 byte among

/-- A name is not empty. -/
theorem ne_nil_of_isIdentifier {name : Bytes} (isName : isIdentifier name = true) : name ≠ [] := by
  -- This is the first half of what makes a name.
  simp_all [isIdentifier]

/-- No byte of a name is white space. -/
theorem isSpace_of_mem {name : Bytes} (isName : isIdentifier name = true) {byte : UInt8}
    (among : byte ∈ name) : isSpace byte = false :=
  isSpace_of_isWordByte (isWordByte_of_mem isName among)

/-- No white space stands in front of a name. -/
theorem head?_append_of_isIdentifier {name : Bytes} (isName : isIdentifier name = true)
    (rest : Bytes) : (name ++ rest).head?.any isSpace = false := by
  -- A name has a first byte, and this one is a word byte.
  obtain ⟨byte, name, rfl⟩ := List.exists_cons_of_ne_nil (ne_nil_of_isIdentifier isName)
  exact isSpace_of_isWordByte (isWordByte_of_mem isName List.mem_cons_self)

/-- A letter case does not make a word byte of another byte. -/
theorem isWordByte_upperByte (byte : UInt8) : isWordByte (upperByte byte) = isWordByte byte := by
  -- Capitals and small letters are word bytes alike.
  grind [isWordByte, isUpper, isLower, isDigit, upperByte]

/-- A word in another letter case is a word. -/
theorem isIdentifier_of_upper_eq {written : Bytes} (isWord : isIdentifier word = true)
    (spells : upper written = upper word) : isIdentifier written = true := by
  have nonempty : written ≠ [] := by
    rintro rfl
    have empty : word = [] := by simpa [upper, eq_comm] using spells
    exact ne_nil_of_isIdentifier isWord empty
  have bytes : ∀ byte ∈ written, isWordByte byte = true := by
    intro byte among
    -- The capital of the byte is that of a byte of the word.
    have capital : upperByte byte ∈ upper word := spells ▸ List.mem_map_of_mem among
    obtain ⟨letter, amongWord, same⟩ := List.mem_map.1 capital
    rw [← isWordByte_upperByte, ← same, isWordByte_upperByte]
    exact isWordByte_of_mem isWord amongWord
  simpa [isIdentifier, nonempty] using bytes

/-! ## A word at the start of a text -/

/-- A text that begins with no word byte begins with no word. -/
theorem dropWord?_eq_none (isWord : isIdentifier word = true) {text : Bytes}
    (ends : EndsWord text) : dropWord? word text = none := by
  cases word with
  | nil => simp [isIdentifier] at isWord
  | cons letter word =>
    cases text with
    | nil => rfl
    | cons byte text =>
      -- A word byte and the byte that is none differ in every letter case.
      have isLetter := isWordByte_of_mem isWord List.mem_cons_self
      have different : upperByte letter ≠ upperByte byte := by
        intro same
        rw [← isWordByte_upperByte, same, isWordByte_upperByte] at isLetter
        simp [EndsWord, isLetter] at ends
      simp [dropWord?, different]

/-- What ends a word is left behind it. -/
theorem dropWord?_append (isWord : ∀ byte ∈ word, isWordByte byte = true) (text : Bytes)
    (ends : EndsWord rest) :
    dropWord? word (text ++ rest) = (dropWord? word text).map (· ++ rest) := by
  induction word generalizing text with
  | nil =>
    cases text with
    | nil =>
      rw [EndsWord] at ends
      simp [dropWord?, ends]
    | cons byte text => cases wordByte : isWordByte byte <;> simp [dropWord?, wordByte]
  | cons letter word ih =>
    cases text with
    | nil =>
      -- The word has no part in a text that begins with no word byte.
      have isName : isIdentifier (letter :: word) = true := by
        simpa [isIdentifier] using isWord
      rw [List.nil_append, dropWord?_eq_none isName ends]
      rfl
    | cons byte text =>
      have others := fun byte among => isWord byte (List.mem_cons_of_mem letter among)
      simp only [List.cons_append, dropWord?, ih others text]
      split <;> rfl

/-- A word at the start of a text does not go over a seam. -/
theorem isSome_dropWord?_append (isWord : isIdentifier word = true) (seam : Seam front rest)
    (nonempty : front ≠ []) :
    (dropWord? word (front ++ rest)).isSome = (dropWord? word front).isSome := by
  have bytes : ∀ byte ∈ word, isWordByte byte = true := fun _ => isWordByte_of_mem isWord
  rcases seam with last | ends
  · -- The last byte in front of the seam ends every word that begins before it.
    obtain ⟨begin, byte, rfl⟩ := List.eq_nil_or_concat' front |>.resolve_left nonempty
    have stops : ∀ behind, EndsWord (byte :: behind) := by
      intro behind
      simpa [EndsWord] using last
    rw [List.append_assoc, List.singleton_append, dropWord?_append bytes begin (stops rest),
      dropWord?_append bytes begin (stops []), Option.isSome_map, Option.isSome_map]
  · rw [dropWord?_append bytes front ends, Option.isSome_map]

/-! ## A word anywhere in a text -/

/-- Where a search begins to count does not matter. -/
theorem findWordFrom_eq_map (word : Bytes) (offset : Nat) (quote before : Option UInt8)
    (text : Bytes) :
    findWordFrom word 0 offset quote before text =
      (findWordFrom word 0 0 quote before text).map (· + offset) := by
  induction text generalizing offset quote before with
  | nil => rfl
  | cons byte text ih =>
    simp only [findWordFrom, Nat.zero_le, decide_true, Bool.and_true, Nat.zero_add]
    split
    · simp
    · -- One more byte has been passed, whatever was counted before it.
      rw [ih (offset + 1), ih 1, Option.map_map]
      congr 1
      funext found
      simp only [Function.comp_apply]
      omega

/-- A byte in front of a seam does not matter. -/
theorem findWordFrom_before (isWord : isIdentifier word = true) (offset : Nat)
    (quote : Option UInt8) {before : Option UInt8}
    (seam : before.any isWordByte = false ∨ EndsWord rest) :
    findWordFrom word 0 offset quote before rest = findWordFrom word 0 offset quote none rest := by
  cases rest with
  | nil => rfl
  | cons byte rest =>
    -- Either the byte in front ends all words, or no word begins behind it.
    rcases seam with plain | ends
    · simp [findWordFrom, plain]
    · simp [findWordFrom, dropWord?_eq_none isWord ends]

/-- A search goes over a seam in the state that the first text leaves behind. -/
theorem findWordFrom_append (isWord : isIdentifier word = true) (offset : Nat)
    (quote before : Option UInt8) (seam : Seam front rest) :
    findWordFrom word 0 offset quote before (front ++ rest) =
      (findWordFrom word 0 offset quote before front).or
        (findWordFrom word 0 (offset + front.length) (front.foldl quoteAfter quote)
          (front.getLast?.or before) rest) := by
  induction front generalizing offset quote before with
  | nil => simp [findWordFrom]
  | cons byte front ih =>
    have here := isSome_dropWord?_append isWord seam (List.cons_ne_nil byte front)
    -- What is left of the first text ends as it did, if anything is left.
    have seam' : Seam front rest := by
      rcases seam with last | ends
      · cases front with
        | nil => exact .inl rfl
        | cons next front => exact .inl (by simpa using last)
      · exact .inr ends
    rw [List.cons_append] at here
    simp only [List.cons_append, findWordFrom, here]
    split
    · rfl
    · have last : (byte :: front).getLast?.or before = front.getLast?.or (some byte) := by
        cases front <;> simp [List.getLast?_cons]
      rw [ih _ _ _ seam', last, List.foldl_cons, List.length_cons, Nat.add_right_comm,
        Nat.add_assoc]

/-- Behind a text that leaves no run open, a search goes on as if the rest stood alone. -/
theorem findWord_append (closed : Closed front) (isWord : isIdentifier word = true)
    (seam : Seam front rest) :
    findWord word (front ++ rest) 0 =
      (findWord word front 0).or ((findWord word rest 0).map (· + front.length)) := by
  have closed : front.foldl quoteAfter none = none := closed
  -- The byte in front of the seam is the only trace that the first text leaves.
  have fresh : findWordFrom word 0 front.length none front.getLast? rest =
      findWordFrom word 0 front.length none none rest :=
    findWordFrom_before isWord _ _ seam
  rw [findWord, findWord, findWord, findWordFrom_append isWord 0 none none seam, Nat.zero_add,
    closed, Option.or_none, fresh, findWordFrom_eq_map word front.length]

/--
A word occurs in two texts exactly if it occurs in one of them, unless it runs over the seam.
-/
theorem hasWord_append (closed : Closed front) (isWord : isIdentifier word = true)
    (seam : Seam front rest) :
    hasWord word (front ++ rest) = (hasWord word front || hasWord word rest) := by
  -- A search through both finds something if it does so in either of them.
  rw [hasWord, findWord_append closed isWord seam, Option.isSome_or, Option.isSome_map, hasWord,
    hasWord]

/-- Behind a text that is free of a word, a search finds what it finds in the rest. -/
theorem Free.findWord_append (free : Free word front) (isWord : isIdentifier word = true)
    (seam : Seam front rest) :
    findWord word (front ++ rest) 0 = (findWord word rest 0).map (· + front.length) := by
  -- The first text has nothing to be found, so that the search goes on to the rest.
  have absent : findWord word front 0 = none := by simpa [hasWord] using free.absent
  rw [TableStore.findWord_append free.closed isWord seam, absent, Option.none_or]

/-- Behind a text that is free of a word, the word occurs exactly if it does so in the rest. -/
theorem Free.hasWord_append (free : Free word front) (isWord : isIdentifier word = true)
    (seam : Seam front rest) : hasWord word (front ++ rest) = hasWord word rest := by
  -- The first text is of no account for either of the two reasons.
  rw [TableStore.hasWord_append free.closed isWord seam, free.absent, Bool.false_or]

/-- Two texts that leave no run open leave none open together. -/
theorem Closed.append (closed : Closed front) (closedRest : Closed rest) :
    Closed (front ++ rest) := by
  -- The pass over the second text starts as if there were nothing in front of it.
  have closed : front.foldl quoteAfter none = none := closed
  rw [Closed, List.foldl_append, closed]
  exact closedRest

/-- Two texts that are free of a word are so together. -/
theorem Free.append (free : Free word front) (freeRest : Free word rest)
    (isWord : isIdentifier word = true) (seam : Seam front rest) : Free word (front ++ rest) := by
  -- What is left is that the word does not run over the seam.
  refine ⟨free.closed.append freeRest.closed, ?_⟩
  rw [free.hasWord_append isWord seam]
  exact freeRest.absent

/-- No word is found in a text without word bytes. -/
theorem findWordFrom_eq_none (isWord : isIdentifier word = true) {text : Bytes}
    (none : ∀ byte ∈ text, isWordByte byte = false) (start offset : Nat)
    (quote before : Option UInt8) : findWordFrom word start offset quote before text = .none := by
  -- The word would start with a word byte, which no byte of the text is.
  induction text generalizing offset quote before with
  | nil => rfl
  | cons byte text ih =>
    have ends : EndsWord (byte :: text) := by simpa [EndsWord] using none byte List.mem_cons_self
    simp [findWordFrom, dropWord?_eq_none isWord ends,
      ih fun other among => none other (List.mem_cons_of_mem byte among)]

/-- What is found lies within the text. -/
theorem lt_of_findWordFrom_eq_some {text : Bytes} {start offset found : Nat}
    {quote before : Option UInt8}
    (isFound : findWordFrom word start offset quote before text = some found) :
    found < offset + text.length := by
  -- Either the word stands at the first byte, or it is found in the rest.
  induction text generalizing offset quote before with
  | nil => simp [findWordFrom] at isFound
  | cons byte text ih =>
    rw [findWordFrom] at isFound
    split at isFound
    · obtain rfl := Option.some.inj isFound
      simp
    · have later := ih isFound
      simp only [List.length_cons]
      omega

/-- A word that stands at the start of a text is found there. -/
theorem findWord_eq_zero (isWord : isIdentifier word = true) {written : Bytes}
    (spells : upper written = upper word) (ends : EndsWord rest) :
    findWord word (written ++ rest) 0 = some 0 := by
  have taken : dropWord? word (written ++ rest) = some rest :=
    dropWord?_eq_some_iff.2 ⟨written, rfl, spells, ends⟩
  have isWritten := isIdentifier_of_upper_eq isWord spells
  obtain ⟨byte, others, rfl⟩ := List.exists_cons_of_ne_nil (ne_nil_of_isIdentifier isWritten)
  have wordByte := isWordByte_of_mem isWritten List.mem_cons_self
  -- A word begins with no quote, so that the scan is outside quoted runs there.
  have unquoted := isQuote_of_isWordByte wordByte
  rw [List.cons_append] at taken ⊢
  simp [findWord, findWordFrom, isPlain, unquoted, taken]

/-- A text that is free of a word is not cut at it. -/
theorem Free.splitAtWord?_eq_none {text : Bytes} (free : Free word text) :
    TableStore.splitAtWord? word text = none := by
  -- The cut is made where the word is found, which is nowhere.
  have absent : findWord word text 0 = none := by simpa [hasWord] using free.absent
  rw [TableStore.splitAtWord?, absent, Option.map_none]

/-- A text is cut at the first word behind what is free of it. -/
theorem Free.splitAtWord? (free : Free word front) (isWord : isIdentifier word = true)
    (last : front.getLast?.any isWordByte = false) {written : Bytes}
    (spells : upper written = upper word) (ends : EndsWord rest) :
    TableStore.splitAtWord? word (front ++ (written ++ rest)) = some (front, written ++ rest) := by
  -- The search passes over the first text and stops at once behind it.
  rw [TableStore.splitAtWord?, free.findWord_append isWord (.inl last),
    findWord_eq_zero isWord spells ends]
  simp [List.splitAt_eq]

/-! ## Parts that are free of a word -/

/-- A text without quotes leaves no run open. -/
theorem closed_of_forall {text : Bytes} (unquoted : ∀ byte ∈ text, isQuote byte = false) :
    Closed text := by
  -- Every byte is passed with no run open and leaves none open.
  induction text with
  | nil => rfl
  | cons byte text ih =>
    rw [Closed, List.foldl_cons, quoteAfter, unquoted byte List.mem_cons_self]
    exact ih fun other among => unquoted other (List.mem_cons_of_mem byte among)

/-- White space leaves no quoted run open. -/
theorem Blank.closed {text : Bytes} (blank : Blank text) : Closed text :=
  -- No byte of white space is a quote.
  closed_of_forall fun byte among => isQuote_of_isSpace (blank byte among)

/-- A text of white space is free of every word. -/
theorem Blank.free {text : Bytes} (blank : Blank text) (isWord : isIdentifier word = true) :
    Free word text := by
  -- A word needs word bytes, and white space has none.
  have outside := fun byte among => isWordByte_of_isSpace (blank byte among)
  refine ⟨blank.closed, ?_⟩
  rw [hasWord, findWord, findWordFrom_eq_none isWord outside]
  rfl

/-- White space around a text adds no word to it. -/
theorem Free.padded {before text after : Bytes} (free : Free word text)
    (isWord : isIdentifier word = true) (blankBefore : Blank before) (blankAfter : Blank after) :
    Free word (before ++ (text ++ after)) := by
  -- The three texts are joined from the right, and neither seam is within a word.
  have freeAfter := free.append (blankAfter.free isWord) isWord (.inr blankAfter.endsWord)
  exact (blankBefore.free isWord).append freeAfter isWord blankBefore.seam

/-- A byte that is neither of a word nor a quote is free of every word. -/
theorem free_singleton (isWord : isIdentifier word = true) {byte : UInt8}
    (outside : isWordByte byte = false) (unquoted : isQuote byte = false) : Free word [byte] := by
  -- There is no quote to leave open, and no word byte for the word to start with.
  refine ⟨closed_of_forall (by simpa using unquoted), ?_⟩
  rw [hasWord, findWord, findWordFrom_eq_none isWord (by simpa using outside)]
  rfl

/-- No word begins within a run of word bytes. -/
theorem findWordFrom_within_name (word : Bytes) {text : Bytes}
    (bytes : ∀ byte ∈ text, isWordByte byte = true) (offset : Nat) (quote : Option UInt8)
    {before : UInt8} (wordByte : isWordByte before = true) :
    findWordFrom word 0 offset quote (some before) text = none := by
  induction text generalizing offset quote before with
  | nil => rfl
  | cons byte text ih =>
    -- The byte in front is of the same run, whichever byte comes next.
    have later := ih (fun other among => bytes other (List.mem_cons_of_mem byte among))
      (offset + 1) (quoteAfter quote byte) (bytes byte List.mem_cons_self)
    simp [findWordFrom, wordByte, later]

/-- A name leaves no quoted run open. -/
theorem closed_of_isIdentifier {name : Bytes} (isName : isIdentifier name = true) : Closed name :=
  -- No word byte is a quote.
  closed_of_forall fun _ among => isQuote_of_isWordByte (isWordByte_of_mem isName among)

/-- Another name is free of a word. -/
theorem free_of_isIdentifier {name : Bytes} (isName : isIdentifier name = true)
    (different : upper name ≠ upper word) : Free word name := by
  have bytes : ∀ byte ∈ name, isWordByte byte = true := fun _ => isWordByte_of_mem isName
  refine ⟨closed_of_isIdentifier isName, ?_⟩
  -- The word could only begin with the name, and then it would be all of it.
  have start : dropWord? word name = none := by
    rw [Option.eq_none_iff_forall_ne_some]
    intro rest taken
    obtain ⟨written, rfl, spells, ends⟩ := dropWord?_eq_some_iff.1 taken
    cases rest with
    | nil => exact different (by rw [List.append_nil, spells])
    | cons next rest => simp [bytes next (by simp)] at ends
  obtain ⟨byte, others, rfl⟩ := List.exists_cons_of_ne_nil (ne_nil_of_isIdentifier isName)
  have later := findWordFrom_within_name word
    (fun other among => bytes other (List.mem_cons_of_mem byte among)) (0 + 1)
    (quoteAfter none byte) (bytes byte List.mem_cons_self)
  simp [hasWord, findWord, findWordFrom, start, later]

/-- Within a quoted run only its own quote matters. -/
theorem quoteAfter_of_ne {quote byte : UInt8} (different : byte ≠ quote) :
    quoteAfter (some quote) byte = some quote := by
  -- A run ends only at the quote that it was opened with.
  rw [quoteAfter, if_neg (by simpa using different)]

/-- A quoted run stays open over all bytes but its own quote. -/
theorem foldl_quoteAfter_of_notMem {quote : UInt8} {inside : Bytes} (absent : quote ∉ inside) :
    inside.foldl quoteAfter (some quote) = some quote := by
  -- Every byte of the inside leaves the run as it is.
  induction inside with
  | nil => rfl
  | cons byte inside ih =>
    obtain ⟨different, absent⟩ := not_or.1 (List.mem_cons.not.1 absent)
    rw [List.foldl_cons, quoteAfter_of_ne (Ne.symm different)]
    exact ih absent

/-- A quoted run is closed by its last byte. -/
theorem closed_quoted {quote : UInt8} (isQuoted : isQuote quote = true) {inside : Bytes}
    (absent : quote ∉ inside) : Closed (quote :: (inside ++ [quote])) := by
  -- The first byte opens a run, the inside keeps it open, and the last byte closes it.
  have opens : quoteAfter none quote = some quote := by rw [quoteAfter, if_pos isQuoted]
  rw [Closed, List.foldl_cons, opens, List.foldl_append, foldl_quoteAfter_of_notMem absent]
  simp [quoteAfter]

/-- No word is found within a quoted run. -/
theorem findWordFrom_within_quotes (word : Bytes) {quote : UInt8} {inside : Bytes}
    (absent : quote ∉ inside) (offset : Nat) (before : Option UInt8) :
    findWordFrom word 0 offset (some quote) before (inside ++ [quote]) = none := by
  -- No byte of the inside is plain, so that no word may start there.
  induction inside generalizing offset before with
  | nil => simp [findWordFrom, isPlain]
  | cons byte inside ih =>
    obtain ⟨different, absent⟩ := not_or.1 (List.mem_cons.not.1 absent)
    simp [findWordFrom, isPlain, quoteAfter_of_ne (Ne.symm different), ih absent]

/-- A quoted run is free of every word, whatever stands in it. -/
theorem free_quoted (word : Bytes) {quote : UInt8} (isQuoted : isQuote quote = true)
    {inside : Bytes} (absent : quote ∉ inside) : Free word (quote :: (inside ++ [quote])) := by
  have opens : quoteAfter none quote = some quote := by rw [quoteAfter, if_pos isQuoted]
  -- The scan is inside the run from its first byte to its last.
  refine ⟨closed_quoted isQuoted absent, ?_⟩
  simp [hasWord, findWord, findWordFrom, isPlain, isQuoted, opens,
    findWordFrom_within_quotes word absent]

/-! ## Parts between separators -/

/-- A text that is outside quoted runs at its end and has no separator outside them. -/
structure Uncut (separator : UInt8) (text : Bytes) : Prop where
  closed : Closed text
  whole : splitOutsideQuotes separator text = [text]

variable {separator : UInt8}

/-- A text without a cut belongs to the first part of what follows it. -/
theorem splitPlain_append {quote : Option UInt8}
    (whole : splitPlain separator quote front = [front]) (rest : Bytes) :
    splitPlain separator quote (front ++ rest) =
      (splitPlain separator (front.foldl quoteAfter quote) rest).modifyHead (front ++ ·) := by
  induction front generalizing quote with
  | nil => cases parts : splitPlain separator quote rest <;> simp [parts]
  | cons byte front ih =>
    rw [splitPlain] at whole
    rw [List.cons_append, splitPlain]
    split at whole
    · simp at whole
    · next uncut =>
      rw [if_neg uncut]
      -- The byte is the first of the only part.
      have wholeRest : splitPlain separator (quoteAfter quote byte) front = [front] := by
        cases parts : splitPlain separator (quoteAfter quote byte) front <;> simp_all
      rw [ih wholeRest, List.foldl_cons, List.modifyHead_modifyHead]
      rfl

/-- Two texts without a cut have none together. -/
theorem Uncut.append (uncut : Uncut separator front) (uncutRest : Uncut separator rest) :
    Uncut separator (front ++ rest) := by
  -- The pass starts anew behind the first text, which is all one part.
  refine ⟨uncut.closed.append uncutRest.closed, ?_⟩
  have closed : front.foldl quoteAfter none = none := uncut.closed
  have whole : splitPlain separator none rest = [rest] := uncutRest.whole
  rw [splitOutsideQuotes, splitPlain_append uncut.whole, closed, whole]
  rfl

/-- A text is cut at a separator behind what has no cut. -/
theorem Uncut.splitOutsideQuotes_append (uncut : Uncut separator front)
    (unquoted : isQuote separator = false) (rest : Bytes) :
    splitOutsideQuotes separator (front ++ separator :: rest) =
      front :: splitOutsideQuotes separator rest := by
  -- The separator stands outside all runs, and ends the part that the first text is.
  have closed : front.foldl quoteAfter none = none := uncut.closed
  rw [splitOutsideQuotes, splitPlain_append uncut.whole, closed]
  simp [splitPlain, isPlain, unquoted, splitOutsideQuotes]

/-- A byte that is neither a quote nor the separator has no cut. -/
theorem uncut_singleton {byte : UInt8} (unquoted : isQuote byte = false)
    (other : byte ≠ separator) : Uncut separator [byte] := by
  refine ⟨closed_of_forall (by simpa using unquoted), ?_⟩
  -- The only byte joins the empty part behind it.
  simp [splitOutsideQuotes, splitPlain, other]

/-- A text without quotes and separators has no cut. -/
theorem uncut_of_forall {text : Bytes}
    (plain : ∀ byte ∈ text, isQuote byte = false ∧ byte ≠ separator) : Uncut separator text := by
  -- Byte by byte, each one is without a cut, and so are the others.
  induction text with
  | nil => exact ⟨rfl, rfl⟩
  | cons byte text ih =>
    obtain ⟨unquoted, other⟩ := plain byte List.mem_cons_self
    exact (uncut_singleton unquoted other).append
      (ih fun next among => plain next (List.mem_cons_of_mem byte among))

/-- White space has no cut at a separator that is none. -/
theorem Blank.uncut {text : Bytes} (blank : Blank text) (solid : isSpace separator = false) :
    Uncut separator text := by
  -- No white space is a quote or the separator.
  refine uncut_of_forall fun byte among => ⟨isQuote_of_isSpace (blank byte among), ?_⟩
  rintro rfl
  simp [blank byte among] at solid

/-- A name has no cut at a separator that is no word byte. -/
theorem uncut_of_isIdentifier {name : Bytes} (isName : isIdentifier name = true)
    (outside : isWordByte separator = false) : Uncut separator name := by
  -- No word byte is a quote or the separator.
  have bytes : ∀ byte ∈ name, isWordByte byte = true := fun _ => isWordByte_of_mem isName
  refine uncut_of_forall fun byte among => ⟨isQuote_of_isWordByte (bytes byte among), ?_⟩
  rintro rfl
  simp [bytes byte among] at outside

/-- A quoted run has no cut. -/
theorem uncut_quoted (separator : UInt8) {quote : UInt8} (isQuoted : isQuote quote = true)
    {inside : Bytes} (absent : quote ∉ inside) :
    Uncut separator (quote :: (inside ++ [quote])) := by
  have opens : quoteAfter none quote = some quote := by rw [quoteAfter, if_pos isQuoted]
  -- Inside the run no byte is plain.
  have hidden : ∀ text : Bytes, quote ∉ text →
      splitPlain separator (some quote) (text ++ [quote]) = [text ++ [quote]] := by
    intro text absent
    induction text with
    | nil => simp [splitPlain, isPlain]
    | cons byte text ih =>
      obtain ⟨different, absent⟩ := not_or.1 (List.mem_cons.not.1 absent)
      simp [splitPlain, isPlain, quoteAfter_of_ne (Ne.symm different), ih absent]
  refine ⟨closed_quoted isQuoted absent, ?_⟩
  simp [splitOutsideQuotes, splitPlain, isPlain, isQuoted, opens, hidden inside absent]

/-- A text of white space has no cut, whatever runs are open. -/
theorem Blank.splitPlain {text : Bytes} (blank : Blank text) (solid : isSpace separator = false)
    (quote : Option UInt8) : TableStore.splitPlain separator quote text = [text] := by
  induction text generalizing quote with
  | nil => rfl
  | cons byte text ih =>
    obtain ⟨white, blank⟩ := blank_cons_iff.1 blank
    -- The separator is no white space.
    have other : byte ≠ separator := by
      rintro rfl
      simp [solid] at white
    simp [TableStore.splitPlain, other, ih blank]

/-- White space behind a text changes no part but by white space behind it. -/
theorem map_dropTrailingSpaces_splitPlain {gap : Bytes} (blank : Blank gap)
    (solid : isSpace separator = false) (quote : Option UInt8) (text : Bytes) :
    (splitPlain separator quote (text ++ gap)).map dropTrailingSpaces =
      (splitPlain separator quote text).map dropTrailingSpaces := by
  fun_induction splitPlain separator quote text with
  | case1 quote =>
    rw [List.nil_append, blank.splitPlain solid quote, List.map_singleton, List.map_singleton,
      dropTrailingSpaces_eq_nil_iff.2 blank]
    rfl
  | case2 quote byte text cut ih =>
    simp only [List.cons_append, splitPlain, cut, if_true, List.map_cons, ih]
  | case3 quote byte text uncut ih =>
    -- The byte is put in front of the first of parts that agree but for white space.
    rw [List.cons_append, splitPlain, if_neg uncut]
    obtain ⟨first, others, cutLong⟩ :=
      List.exists_cons_of_ne_nil (splitPlain_ne_nil separator (quoteAfter quote byte) (text ++ gap))
    obtain ⟨first', others', cutShort⟩ :=
      List.exists_cons_of_ne_nil (splitPlain_ne_nil separator (quoteAfter quote byte) text)
    rw [cutLong, cutShort, List.map_cons, List.map_cons, List.cons.injEq] at ih
    have same : dropTrailingSpaces (byte :: first) = dropTrailingSpaces (byte :: first') := by
      have long := dropTrailingSpaces_append_dropTrailingSpaces [byte] first
      rw [ih.1, dropTrailingSpaces_append_dropTrailingSpaces] at long
      exact long.symm
    rw [cutLong, cutShort, List.modifyHead_cons, List.modifyHead_cons, List.map_cons,
      List.map_cons, ih.2, same]

/-- White space behind a text does not matter for its trimmed parts. -/
theorem map_trim_splitOutsideQuotes_append {gap : Bytes} (blank : Blank gap)
    (solid : isSpace separator = false) (text : Bytes) :
    (splitOutsideQuotes separator (text ++ gap)).map trim =
      (splitOutsideQuotes separator text).map trim := by
  -- Without trailing white space the last parts are the same, and trimming takes it off anyway.
  have same := congrArg (List.map trim) (map_dropTrailingSpaces_splitPlain blank solid none text)
  have unseen : trim ∘ dropTrailingSpaces = trim := funext trim_dropTrailingSpaces
  rwa [List.map_map, List.map_map, unseen] at same

/-- White space around a text does not matter for its trimmed parts. -/
theorem map_trim_splitOutsideQuotes_trim (solid : isSpace separator = false) (text : Bytes) :
    (splitOutsideQuotes separator (trim text)).map trim =
      (splitOutsideQuotes separator text).map trim := by
  obtain ⟨gap, gap', blank, blank', padded⟩ := exists_blank_append_trim_append_blank text
  have closed : gap.foldl quoteAfter none = none := blank.closed
  obtain ⟨first, others, cut⟩ :=
    List.exists_cons_of_ne_nil (splitPlain_ne_nil separator none (trim text ++ gap'))
  calc (splitOutsideQuotes separator (trim text)).map trim
      = (splitOutsideQuotes separator (trim text ++ gap')).map trim :=
        (map_trim_splitOutsideQuotes_append blank' solid (trim text)).symm
    _ = (splitOutsideQuotes separator (gap ++ (trim text ++ gap'))).map trim := by
        -- The white space in front belongs to the first part.
        rw [splitOutsideQuotes, splitOutsideQuotes,
          splitPlain_append (blank.splitPlain solid none), closed, cut]
        simp [trim_blank_append blank]
    _ = (splitOutsideQuotes separator text).map trim := by rw [← padded]

end TableStore
