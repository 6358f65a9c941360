import Mathlib.Data.List.Induction
import Mathlib.Data.Set.Basic
import Mathlib.Order.Nat
import TableStore.Cursor
import TableStore.Proofs.Occurrences

/-!
Where a text is cut and where a word is found, as one pass over its quotes tells. Main statement:
both scans keep off the same quoted runs, and a cursor reads every word that the search has found.
-/

namespace TableStore

/-- The quote that a text leaves open: any quote opens a run, and only the same byte closes it. -/
inductive LeavesOpen : Bytes → Option UInt8 → Prop
  | start : LeavesOpen [] none
  | plain {front : Bytes} {byte : UInt8} (outside : LeavesOpen front none)
    (unquoted : isQuote byte = false) : LeavesOpen (front ++ [byte]) none
  | opens {front : Bytes} {quote : UInt8} (outside : LeavesOpen front none)
    (isQuoted : isQuote quote = true) : LeavesOpen (front ++ [quote]) (some quote)
  | within {front : Bytes} {byte quote : UInt8} (inside : LeavesOpen front (some quote))
    (other : byte ≠ quote) : LeavesOpen (front ++ [byte]) (some quote)
  | closes {front : Bytes} {quote : UInt8} (inside : LeavesOpen front (some quote)) :
    LeavesOpen (front ++ [quote]) none

/-- The places, from an offset on, at which a word stands while no quoted run is open. -/
def placesOf (word text : Bytes) (start : Nat) : Set Nat :=
  {offset | start ≤ offset ∧ LeavesOpen (text.take offset) none ∧ StandsAt word text offset}

/-- The offsets at which the parts of a text are cut apart, with one byte between two parts. -/
def cutsOf : List Bytes → List Nat
  | part :: next :: parts => part.length :: (cutsOf (next :: parts)).map (· + (part.length + 1))
  | _ => []

variable {text word : Bytes} {start offset : Nat} {separator : UInt8}

/-! ## The state of the pass -/

/-- What a text leaves open is what a scan that goes over it byte by byte has open behind it. -/
theorem leavesOpen_iff {quote : Option UInt8} :
    LeavesOpen text quote ↔ text.foldl quoteAfter none = quote := by
  constructor
  · intro leaves
    -- Each rule adds one byte, for which the scan takes one step.
    induction leaves with
    | start => rfl
    | plain outside unquoted ih => simp [ih, quoteAfter, unquoted]
    | opens outside isQuoted ih => simp [ih, quoteAfter, isQuoted]
    | within inside other ih => simp [ih, quoteAfter, other]
    | closes inside ih => simp [ih, quoteAfter]
  · intro leaves
    subst leaves
    -- The induction is from the end, where the rules add their byte.
    induction text using List.reverseRecOn with
    | nil => exact .start
    | append_singleton front byte ih =>
      rw [List.foldl_append, List.foldl_cons, List.foldl_nil]
      cases opened : front.foldl quoteAfter none with
      | none =>
        rw [opened] at ih
        rw [quoteAfter]
        split
        · next isQuoted => exact .opens ih isQuoted
        · next plain => exact .plain ih (Bool.eq_false_of_not_eq_true plain)
      | some quote =>
        rw [opened] at ih
        rw [quoteAfter]
        split
        · next same =>
          obtain rfl := eq_of_beq same
          exact .closes ih
        · next other => exact .within ih (by simpa using other)

/-! ## Cuts -/

/-- In front of an empty part there is nothing but its cut. -/
theorem cutsOf_nil_cons {parts : List Bytes} (nonempty : parts ≠ []) :
    cutsOf ([] :: parts) = 0 :: (cutsOf parts).map (· + 1) := by
  -- With a part behind it, the first cut stands right where the text begins.
  obtain ⟨next, parts, rfl⟩ := List.exists_cons_of_ne_nil nonempty
  rfl

/-- One more byte in the first part moves all cuts by one. -/
theorem cutsOf_modifyHead (byte : UInt8) (parts : List Bytes) :
    cutsOf (parts.modifyHead (byte :: ·)) = (cutsOf parts).map (· + 1) := by
  -- The first cut is behind the longer part, and all others are counted from there.
  match parts with
  | [] => rfl
  | [part] => rfl
  | part :: next :: parts =>
    simp [cutsOf, Function.comp_def, Nat.add_assoc]

/-- From any quote state on, a text is cut at the separators that are met while no run is open. -/
theorem mem_cutsOf_splitPlain (unquoted : isQuote separator = false) (quote : Option UInt8)
    (text : Bytes) (offset : Nat) :
    offset ∈ cutsOf (splitPlain separator quote text) ↔
      text[offset]? = some separator ∧ (text.take offset).foldl quoteAfter quote = none := by
  -- The induction is on the scan, which is one byte further for all offsets but the first.
  fun_induction splitPlain separator quote text generalizing offset with
  | case1 quote => simp [cutsOf]
  | case2 quote byte rest cut ih =>
    obtain ⟨plain, same⟩ : isPlain quote byte = true ∧ byte = separator := by simpa using cut
    obtain ⟨closed, -⟩ : quote = none ∧ isQuote byte = false := by simpa [isPlain] using plain
    rw [cutsOf_nil_cons (splitPlain_ne_nil separator none rest)]
    cases offset with
    | zero => simp [same, closed]
    | succ offset =>
      have goesOn : quoteAfter none separator = none := by simp [quoteAfter, unquoted]
      simp [ih, same, closed, goesOn]
  | case3 quote byte rest uncut ih =>
    rw [cutsOf_modifyHead]
    cases offset with
    | zero =>
      -- A separator outside all runs would have been a cut.
      have kept : byte = separator → quote ≠ none := by
        rintro rfl rfl
        simp [isPlain, unquoted] at uncut
      simpa using kept
    | succ offset => simp [ih]

/-- A quote opens or closes a run and never cuts a text. -/
theorem splitPlain_of_isQuote {separator : UInt8} (isQuoted : isQuote separator = true)
    (quote : Option UInt8) (text : Bytes) : splitPlain separator quote text = [text] := by
  fun_induction splitPlain separator quote text with
  | case1 => rfl
  | case2 quote byte rest cut ih =>
    -- A byte outside quoted runs at which the text is cut is no quote.
    obtain ⟨plain, rfl⟩ : isPlain quote byte = true ∧ byte = separator := by simpa using cut
    simp [isPlain, isQuoted] at plain
  | case3 quote byte rest uncut ih => simp [ih]

/-! ## Words -/

/-- A word stands outside quoted runs exactly if it stands where the pass has none open. -/
theorem standsOutside_iff :
    StandsOutside word text offset ↔
      LeavesOpen (text.take offset) none ∧ StandsAt word text offset := by
  -- The state of the pass tells whether a run is open where the word begins.
  rw [leavesOpen_iff]
  exact ⟨fun outside => ⟨outside.closed, outside.stands⟩, fun ⟨closed, stands⟩ => ⟨closed, stands⟩⟩

/-- What a search finds is the least of the places of a word. -/
theorem findWord_eq_some_iff_isLeast (isWord : isIdentifier word = true) {found : Nat} :
    findWord word text start = some found ↔ IsLeast (placesOf word text start) found := by
  rw [findWord_eq_some_iff isWord]
  constructor
  · intro isFound
    obtain ⟨reached, outside, first⟩ := isFound
    refine ⟨⟨reached, standsOutside_iff.1 outside⟩, fun offset place => ?_⟩
    -- A place before the one found would have been found.
    by_contra before
    exact first offset place.1 (by omega) (standsOutside_iff.2 place.2)
  · intro isLeast
    obtain ⟨place, least⟩ := isLeast
    refine ⟨place.1, standsOutside_iff.2 place.2, fun earlier reached before outside => ?_⟩
    have bound := least ⟨reached, standsOutside_iff.1 outside⟩
    omega

/-- A search finds nothing exactly if the word has no place. -/
theorem findWord_eq_none_iff (isWord : isIdentifier word = true) :
    findWord word text start = none ↔ placesOf word text start = ∅ := by
  constructor
  · intro none
    by_contra filled
    classical
    -- Of all the places there is a least one, which the search would find.
    have least := (Set.nonempty_iff_ne_empty.2 filled).isLeast_natFind
    rw [(findWord_eq_some_iff_isLeast isWord).2 least] at none
    simp at none
  · intro empty
    rw [Option.eq_none_iff_forall_ne_some]
    intro found isFound
    have place := ((findWord_eq_some_iff_isLeast isWord).1 isFound).1
    simp [empty] at place

/-- A cursor that is moved to where a word stands reads the word and stops right behind it. -/
theorem StandsAt.keyword (isWord : isIdentifier word = true) (stands : StandsAt word text offset) :
    ((Cursor.start text).seek offset).keyword word = (true, ⟨text, offset + word.length⟩) := by
  obtain ⟨before, written, after, rfl, rfl, spells, -, ends⟩ := stands
  have starts := head?_append_of_isIdentifier (isIdentifier_of_upper_eq isWord spells) after
  have length : written.length = word.length := by simpa [upper] using congrArg List.length spells
  have position : (Cursor.start (before ++ (written ++ after))).seek before.length =
      ⟨before ++ (written ++ after), before.length⟩ := by
    simp [Cursor.start, Cursor.seek]
  -- What is left to read begins with the word, so that no white space is skipped.
  have read : Token.keyword? word (written ++ after) = some after := by
    rw [Token.keyword?, skipSpaces_eq_self starts]
    exact dropWord?_eq_some_iff.2 ⟨written, rfl, spells, ends⟩
  rw [position, Cursor.keyword, Cursor.rest, List.drop_left, read]
  simp only [Cursor.accept, Cursor.moveTo, List.length_append, Prod.mk.injEq, Cursor.mk.injEq,
    true_and]
  omega

/-! ## Both scans -/

/--
Any byte that a text is split at makes the text again when it is put between the parts. Unless it is
a quote, which splits no text, the cuts are its places at which the pass over the quotes has no run
open. From any offset on, a search gives the least of the places at which the word stands, in any
letter case and with no word byte next to it, while the pass has no run open, and nothing exactly if
there is none; and a cursor that is moved to what is found reads the word and stops right behind it.
-/
theorem scans_keep_off_runs (text : Bytes) :
    (∀ separator, joinWith [separator] (splitOutsideQuotes separator text) = text) ∧
      (∀ separator offset, isQuote separator = false →
        (offset ∈ cutsOf (splitOutsideQuotes separator text) ↔
          text[offset]? = some separator ∧ LeavesOpen (text.take offset) none)) ∧
      (∀ quote, isQuote quote = true → splitOutsideQuotes quote text = [text]) ∧
      ∀ word start, isIdentifier word = true →
        (∀ found, findWord word text start = some found ↔
          IsLeast (placesOf word text start) found) ∧
        (findWord word text start = none ↔ placesOf word text start = ∅) ∧
        ∀ found, findWord word text start = some found →
          ((Cursor.start text).seek found).keyword word = (true, ⟨text, found + word.length⟩) := by
  refine ⟨fun separator => joinWith_splitPlain separator none text, ?_, ?_, ?_⟩
  · intro separator offset unquoted
    -- The parts are cut where the pass has no run open, whatever the separator.
    rw [splitOutsideQuotes, mem_cutsOf_splitPlain unquoted, leavesOpen_iff]
  · intro quote isQuoted
    -- A quote always stands inside a run, so that nothing is cut.
    exact splitPlain_of_isQuote isQuoted none text
  · intro word start isWord
    -- The two answers of the search are its least place and that there is none.
    refine ⟨fun found => findWord_eq_some_iff_isLeast isWord, findWord_eq_none_iff isWord, ?_⟩
    intro found isFound
    -- At a place the word stands with its ends, so the cursor there reads it.
    have place := ((findWord_eq_some_iff_isLeast isWord).1 isFound).1
    exact place.2.2.keyword isWord

/-- A word and a comma in a run are passed over, and so are those behind an apostrophe in a text. -/
theorem scans_keep_off_runs_unclosed :
    isQuote comma = false ∧ isQuote apostrophe = true ∧ isIdentifier "OR" = true ∧
      findWord "OR" "'a,OR', or b's, OR" 1 = some 8 ∧
      LeavesOpen ((utf8 "'a,OR', or b's, OR").take 6) none ∧
      ¬LeavesOpen ((utf8 "'a,OR', or b's, OR").take 14) none ∧
      splitOutsideQuotes apostrophe "'a,OR', or b's, OR" = [utf8 "'a,OR', or b's, OR"] ∧
      IsLeast (placesOf "OR" "'a,OR', or b's, OR" 1) 8 ∧
      placesOf "OR" "'a,OR', or b's, OR" 9 = ∅ ∧
      ((Cursor.start "'a,OR', or b's, OR").seek 8).keyword "OR" =
        (true, ⟨"'a,OR', or b's, OR", 10⟩) := by
  have unquoted : isQuote comma = false := by decide
  have isQuoted : isQuote apostrophe = true := by decide
  have isWord : isIdentifier "OR" = true := by decide
  have isFound : findWord "OR" "'a,OR', or b's, OR" 1 = some 8 := by decide
  obtain ⟨-, cuts, whole, search⟩ := scans_keep_off_runs "'a,OR', or b's, OR"
  refine ⟨unquoted, isQuoted, isWord, isFound, ?_, ?_, whole apostrophe isQuoted,
    ((search "OR" 1 isWord).1 8).1 isFound, (search "OR" 9 isWord).2.1.1 (by decide),
    (search "OR" 1 isWord).2.2 8 isFound⟩
  · exact ((cuts comma 6 unquoted).1 (by decide)).2
  · -- A comma stands there too, but the text is not cut at it.
    intro closed
    exact absurd ((cuts comma 14 unquoted).2 ⟨by decide, closed⟩) (by decide)

end TableStore
