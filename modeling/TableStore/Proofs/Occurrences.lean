import Mathlib.Data.Nat.Find
import TableStore.Proofs.Quoted

/-!
The places of a text at which a word stands. Main statement: a search gives the first place outside
quoted runs at which the word stands, and nothing exactly if there is no such place.
-/

namespace TableStore

variable {word text front rest : Bytes} {start found : Nat}

/-- A word stands at an offset of a text, in any letter case and with no word byte next to it. -/
def StandsAt (word text : Bytes) (offset : Nat) : Prop :=
  ∃ before written after, text = before ++ (written ++ after) ∧ before.length = offset ∧
    upper written = upper word ∧ before.getLast?.any isWordByte = false ∧ EndsWord after

/-- A word stands at an offset of a text at which no quoted run is open. -/
structure StandsOutside (word text : Bytes) (offset : Nat) : Prop where
  closed : Closed (text.take offset)
  stands : StandsAt word text offset

/-- Where a text is cut, a word stands exactly if the rest begins with it. -/
theorem standsAt_length_iff :
    StandsAt word (front ++ rest) front.length ↔
      front.getLast?.any isWordByte = false ∧ (dropWord? word rest).isSome = true := by
  constructor
  · rintro ⟨before, written, after, cut, length, spells, apart, ends⟩
    -- Both cuts are at the same offset, so that they have the same parts.
    obtain ⟨rfl, rfl⟩ := List.append_inj cut length.symm
    refine ⟨apart, ?_⟩
    rw [dropWord?_eq_some_iff.2 ⟨written, rfl, spells, ends⟩]
    rfl
  · rintro ⟨apart, taken⟩
    obtain ⟨after, taken⟩ := Option.isSome_iff_exists.1 taken
    obtain ⟨written, rfl, spells, ends⟩ := dropWord?_eq_some_iff.1 taken
    exact ⟨front, written, after, rfl, rfl, spells, apart, ends⟩

/-- A word that stands in a text lies within it. -/
theorem StandsAt.lt_length (isWord : isIdentifier word = true) {offset : Nat}
    (stands : StandsAt word text offset) : offset < text.length := by
  obtain ⟨before, written, after, rfl, rfl, spells, -, -⟩ := stands
  -- At least one byte belongs to the word.
  have nonempty := ne_nil_of_isIdentifier (isIdentifier_of_upper_eq isWord spells)
  have positive := List.length_pos_iff.2 nonempty
  simp only [List.length_append]
  omega

/-- A search stops at a byte exactly if the word stands there, outside quoted runs. -/
theorem standsOutside_length_iff (isWord : isIdentifier word = true) {byte : UInt8} :
    StandsOutside word (front ++ byte :: rest) front.length ↔
      isPlain (front.foldl quoteAfter none) byte = true ∧
        front.getLast?.any isWordByte = false ∧ (dropWord? word (byte :: rest)).isSome = true := by
  rw [isPlain, Bool.and_eq_true, Option.isNone_iff_eq_none, Bool.not_eq_true']
  constructor
  · intro outside
    obtain ⟨apart, taken⟩ := standsAt_length_iff.1 outside.stands
    have closed : Closed front := by simpa using outside.closed
    refine ⟨⟨closed, ?_⟩, apart, taken⟩
    -- The word begins with the byte, which is then no quote.
    by_contra quoted
    have ends : EndsWord (byte :: rest) := by
      cases wordByte : isWordByte byte with
      | true => exact absurd (isQuote_of_isWordByte wordByte) quoted
      | false => simp [EndsWord, wordByte]
    simp [dropWord?_eq_none isWord ends] at taken
  · rintro ⟨⟨closed, -⟩, apart, taken⟩
    refine ⟨?_, standsAt_length_iff.2 ⟨apart, taken⟩⟩
    rw [List.take_left]
    exact closed

/-- From any point of a text on, a search gives the first place at which the word stands. -/
theorem findWordFrom_eq_some_iff (isWord : isIdentifier word = true) :
    findWordFrom word start front.length (front.foldl quoteAfter none) front.getLast? rest =
        some found ↔
      (front.length ≤ found ∧ start ≤ found) ∧ StandsOutside word (front ++ rest) found ∧
        ∀ earlier, front.length ≤ earlier → start ≤ earlier → earlier < found →
          ¬StandsOutside word (front ++ rest) earlier := by
  -- The induction is on what is still to be searched, and the bytes passed are kept in front.
  induction rest generalizing front with
  | nil =>
    rw [findWordFrom, List.append_nil]
    constructor
    · intro isFound
      simp at isFound
    · rintro ⟨⟨passed, -⟩, outside, -⟩
      have within := outside.stands.lt_length isWord
      omega
  | cons byte rest ih =>
    have passedOne : (front ++ [byte]).length = front.length + 1 := by simp
    have state : (front ++ [byte]).foldl quoteAfter none =
        quoteAfter (front.foldl quoteAfter none) byte := by simp
    have last : (front ++ [byte]).getLast? = some byte := List.getLast?_concat
    have later := @ih (front ++ [byte])
    rw [passedOne, state, last, List.append_assoc, List.singleton_append] at later
    have here := @standsOutside_length_iff word front rest isWord byte
    rw [findWordFrom]
    by_cases stops : start ≤ front.length ∧ StandsOutside word (front ++ byte :: rest) front.length
    · -- The search stops here, and no earlier place is left to search.
      obtain ⟨reached, outside⟩ := stops
      obtain ⟨plain, apart, taken⟩ := here.1 outside
      rw [if_pos (by simp [plain, reached, apart, taken]), Option.some.injEq]
      constructor
      · rintro rfl
        exact ⟨⟨Nat.le_refl _, reached⟩, outside, fun earlier passed _ before => by omega⟩
      · rintro ⟨⟨passed, -⟩, -, first⟩
        by_contra different
        exact first front.length (Nat.le_refl _) reached (by omega) outside
    · -- The search goes on, and the places behind this one are those that are left.
      have goesOn : ¬(isPlain (front.foldl quoteAfter none) byte && decide (start ≤ front.length) &&
          !front.getLast?.any isWordByte && (dropWord? word (byte :: rest)).isSome) = true := by
        intro stopped
        simp only [Bool.and_eq_true, decide_eq_true_eq, Bool.not_eq_true'] at stopped
        exact stops ⟨stopped.1.1.2, here.2 ⟨stopped.1.1.1, stopped.1.2, stopped.2⟩⟩
      rw [if_neg goesOn, later]
      constructor
      · rintro ⟨⟨passed, reached⟩, outside, first⟩
        refine ⟨⟨by omega, reached⟩, outside, ?_⟩
        intro earlier passedEarlier reachedEarlier before stands
        rcases Nat.eq_or_lt_of_le passedEarlier with rfl | passedEarlier
        · exact stops ⟨reachedEarlier, stands⟩
        · exact first earlier passedEarlier reachedEarlier before stands
      · rintro ⟨⟨passed, reached⟩, outside, first⟩
        refine ⟨⟨?_, reached⟩, outside, ?_⟩
        · -- What is found is not the place at which the search did not stop.
          rcases Nat.eq_or_lt_of_le passed with rfl | passed
          · exact absurd ⟨reached, outside⟩ stops
          · exact passed
        · intro earlier passedEarlier
          exact first earlier (by omega)

/-- A search gives the first place after its start where a word stands outside quoted runs. -/
theorem findWord_eq_some_iff (isWord : isIdentifier word = true) :
    findWord word text start = some found ↔
      start ≤ found ∧ StandsOutside word text found ∧
        ∀ earlier, start ≤ earlier → earlier < found → ¬StandsOutside word text earlier := by
  -- The search begins with nothing in front.
  have general := @findWordFrom_eq_some_iff word [] text start found isWord
  simpa [findWord] using general

/-- A word is found in a text exactly if it stands somewhere outside quoted runs. -/
theorem hasWord_iff (isWord : isIdentifier word = true) :
    hasWord word text = true ↔ ∃ offset, StandsOutside word text offset := by
  rw [hasWord, Option.isSome_iff_exists]
  constructor
  · rintro ⟨offset, isFound⟩
    exact ⟨offset, ((findWord_eq_some_iff isWord).1 isFound).2.1⟩
  · intro stands
    classical
    -- Of all the places there is a first one, at which the search stops.
    refine ⟨Nat.find stands, (findWord_eq_some_iff isWord).2
      ⟨Nat.zero_le _, Nat.find_spec stands, ?_⟩⟩
    intro earlier _ before
    exact Nat.find_min stands before

end TableStore
