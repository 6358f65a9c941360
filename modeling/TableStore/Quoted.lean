import TableStore.Bytes.Basic

/-!
Texts with quoted runs: the bytes outside the runs cut a text into parts, and the words outside
the runs are the only ones that count as keywords.
-/

namespace TableStore

/-- The quote left open after a byte: any quote opens a run, and only the same byte closes it. -/
def quoteAfter (quote : Option UInt8) (byte : UInt8) : Option UInt8 :=
  match quote with
  -- Within a run the other kind of quote is like any other byte.
  | none => if isQuote byte then some byte else none
  | some opening => if byte == opening then none else some opening

/-- Whether a byte lies outside every quoted run and is no quote itself. -/
def isPlain (quote : Option UInt8) (byte : UInt8) : Bool := quote.isNone && !isQuote byte

/-- The parts of a text between the separators outside quoted runs, from a given quote state. -/
def splitPlain (separator : UInt8) (quote : Option UInt8) : Bytes → List Bytes
  | [] => [[]]
  | byte :: rest =>
    -- No run is open at a separator, so that the next part begins outside one.
    if isPlain quote byte && byte == separator then [] :: splitPlain separator none rest
    else (splitPlain separator (quoteAfter quote byte) rest).modifyHead (byte :: ·)

/-- The parts of a text between the separators outside quoted runs, always at least one. -/
def splitOutsideQuotes (separator : UInt8) (text : Bytes) : List Bytes :=
  splitPlain separator none text

/-- There is always a part. -/
theorem splitPlain_ne_nil (separator : UInt8) (quote : Option UInt8) (text : Bytes) :
    splitPlain separator quote text ≠ [] := by
  -- A cut opens a part, and any other byte joins the first part of the rest.
  fun_induction splitPlain separator quote text with
  | case1 => simp
  | case2 => simp
  | case3 quote byte rest uncut ih => simpa using ih

/-- The parts with the separator between them make up the text. -/
theorem joinWith_splitPlain (separator : UInt8) (quote : Option UInt8) (text : Bytes) :
    joinWith [separator] (splitPlain separator quote text) = text := by
  fun_induction splitPlain separator quote text with
  | case1 => rfl
  | case2 quote byte rest cut ih =>
    obtain ⟨part, parts, split⟩ :=
      List.exists_cons_of_ne_nil (splitPlain_ne_nil separator none rest)
    rw [split] at ih ⊢
    simp_all [joinWith]
  | case3 quote byte rest uncut ih =>
    -- The byte belongs to the first part of the rest.
    obtain ⟨part, parts, split⟩ :=
      List.exists_cons_of_ne_nil (splitPlain_ne_nil separator (quoteAfter quote byte) rest)
    rw [split] at ih ⊢
    cases parts <;> simp_all [joinWith]

/-- Takes a word off a text, in any letter case, unless the word goes on after it. -/
def dropWord? : Bytes → Bytes → Option Bytes
  -- All letters are matched, and the word must end here.
  | [], text => if text.head?.any isWordByte then none else some text
  | _ :: _, [] => none
  | letter :: word, byte :: text =>
    if upperByte letter == upperByte byte then dropWord? word text else none

/-- A word is taken off a text that starts with it and does not go on with a word byte. -/
theorem dropWord?_eq_some_iff {word text rest : Bytes} :
    dropWord? word text = some rest ↔
      ∃ written, text = written ++ rest ∧ upper written = upper word ∧
        rest.head?.any isWordByte = false := by
  constructor
  · intro taken
    -- Letter by letter the word and the text agree, until the word is used up.
    fun_induction dropWord? word text with
    | case1 text goesOn => simp at taken
    | case2 text ends =>
      obtain rfl := Option.some.inj taken
      exact ⟨[], by simp_all [upper]⟩
    | case3 => simp at taken
    | case4 letter word byte text same ih =>
      obtain ⟨written, rfl, letters, ends⟩ := ih taken
      exact ⟨byte :: written, by simp_all [upper]⟩
    | case5 => simp at taken
  · rintro ⟨written, rfl, letters, ends⟩
    -- Conversely the written form is spelled letter by letter, so that the word is used up behind
    -- it.
    induction written generalizing word with
    | nil =>
      obtain rfl : word = [] := by simpa [upper, eq_comm] using letters
      simp [dropWord?, ends]
    | cons byte written ih =>
      cases word with
      | nil => simp [upper] at letters
      | cons letter word =>
        simp only [upper, List.map_cons, List.cons.injEq] at letters
        simp [dropWord?, letters.1.symm, ih letters.2]

/-- The offset of a word at or after `start`, given what the bytes before it leave behind. -/
def findWordFrom (word : Bytes) (start offset : Nat) (quote before : Option UInt8) :
    Bytes → Option Nat
  | [] => none
  | byte :: rest =>
    -- A word begins outside a run and behind no word byte.
    if isPlain quote byte && start ≤ offset && !before.any isWordByte
        && (dropWord? word (byte :: rest)).isSome
    then some offset
    else findWordFrom word start (offset + 1) (quoteAfter quote byte) (some byte) rest

/-- The least offset, not below `start`, of a whole word outside quoted runs. -/
def findWord (word text : Bytes) (start : Nat) : Option Nat :=
  findWordFrom word start 0 none none text

/-- A text cut before the first occurrence of a word outside quoted runs. -/
def splitAtWord? (word text : Bytes) : Option (Bytes × Bytes) :=
  (findWord word text 0).map text.splitAt

/-- Whether a word occurs in a text outside quoted runs. -/
def hasWord (word text : Bytes) : Bool := (findWord word text 0).isSome

end TableStore
