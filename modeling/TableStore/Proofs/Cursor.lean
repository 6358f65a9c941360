import Mathlib.Data.List.Induction
import TableStore.Cursor
import TableStore.Proofs.Token

/-!
What a cursor moves over. Main statement: whatever a cursor has been asked, it moves over the white
space ahead and the token that it tells of, over the white space alone if there is no such token,
and back only if it is sent back.
-/

namespace TableStore

/-- What a cursor can be asked to read. -/
inductive TokenKind where
  | keyword (word : Bytes)
  | symbol (byte : UInt8)
  | identifier
  | value

/-- Whatever can be asked of a cursor. -/
inductive CursorStep where
  | read (kind : TokenKind)
  | skipSpaces
  | finish
  | seek (offset : Nat)

/-- What a cursor answers: whether something was there, or the text that was there, or nothing. -/
inductive CursorAnswer where
  | told (there : Bool)
  | token (text : Option Bytes)
  | silent
deriving DecidableEq

namespace TokenKind

/-- The answer of a cursor that has moved over a token. -/
def found : TokenKind → Bytes → CursorAnswer
  | .keyword _, _ | .symbol _, _ => .told true
  | .identifier, text | .value, text => .token (some text)

/-- The answer of a cursor that has found no token. -/
def missing : TokenKind → CursorAnswer
  | .keyword _ | .symbol _ => .told false
  | .identifier | .value => .token none

/-- A text is a token of a kind in front of the rest: words and names do not go on in the rest. -/
def Reads : TokenKind → Bytes → Bytes → Prop
  | .keyword word, token, rest => upper token = upper word ∧ EndsWord rest
  | .symbol byte, token, _ => token = [byte]
  | .identifier, token, rest => isIdentifier token = true ∧ EndsWord rest
  | .value, token, rest => Token.IsValue token rest

end TokenKind

namespace Cursor

/-- What a cursor answers to a step, and the cursor after it. -/
def perform (cursor : Cursor) : CursorStep → CursorAnswer × Cursor
  -- Each read goes over white space first and answers with what it has found.
  | .read (.keyword word) => (cursor.keyword word).map .told id
  | .read (.symbol byte) => (cursor.symbol byte).map .told id
  | .read .identifier => cursor.identifier.map .token id
  | .read .value => cursor.value.map .token id
  | .skipSpaces => (.silent, cursor.skipSpaces)
  | .finish => cursor.finish.map .told id
  | .seek offset => (.silent, cursor.seek offset)

/-- The cursor after steps, from the start of a text on. -/
def after (input : Bytes) (steps : List CursorStep) : Cursor :=
  steps.foldl (fun cursor step => (cursor.perform step).2) (start input)

/-- A cursor moves over a text that stands right ahead of it, and over nothing else. -/
structure Passes (cursor : Cursor) (passed : Bytes) (next : Cursor) : Prop where
  ahead : cursor.rest = passed ++ next.rest
  moved : next = { cursor with position := cursor.position + passed.length }

/-- What a cursor does in a step, one way for each end that the step can have. -/
inductive Follows (cursor : Cursor) : CursorStep → CursorAnswer → Cursor → Prop
  | found {kind : TokenKind} {gap token : Bytes} {next : Cursor} (blank : Blank gap)
    (solid : (token ++ next.rest).head?.any isSpace = false) (reads : kind.Reads token next.rest)
    (passes : cursor.Passes (gap ++ token) next) :
    Follows cursor (.read kind) (kind.found token) next
  | missing {kind : TokenKind} {gap : Bytes} {next : Cursor} (blank : Blank gap)
    (solid : next.rest.head?.any isSpace = false)
    (absent : ∀ token rest, next.rest = token ++ rest → ¬kind.Reads token rest)
    (passes : cursor.Passes gap next) : Follows cursor (.read kind) kind.missing next
  | skipped {gap : Bytes} {next : Cursor} (blank : Blank gap)
    (solid : next.rest.head?.any isSpace = false) (passes : cursor.Passes gap next) :
    Follows cursor .skipSpaces .silent next
  | ended {next : Cursor} (isEnding : Ending cursor.rest)
    (passes : cursor.Passes cursor.rest next) : Follows cursor .finish (.told true) next
  | unended {ending : Bytes} {next : Cursor} (goesOn : ¬Ending cursor.rest)
    (isEnding : Ending ending) (solid : next.rest.head?.any isSpace = false)
    (single : next.rest.head? = some semicolon → semicolon ∈ ending)
    (passes : cursor.Passes ending next) : Follows cursor .finish (.told false) next
  | sought {offset : Nat} :
    Follows cursor (.seek offset) .silent ⟨cursor.input, min offset cursor.input.length⟩

/-- A cursor stands within a text or at its end. -/
structure Within (input : Bytes) (cursor : Cursor) : Prop where
  text : cursor.input = input
  bounded : cursor.position ≤ input.length

variable {input gap passed rest : Bytes} {cursor next : Cursor} {kind : TokenKind}
  {step : CursorStep} {answer : CursorAnswer}

/-! ## Moving over a text -/

/-- A cursor within a text is moved to a rest by passing over what stands in front of it. -/
theorem Within.passes_moveTo (within : Within input cursor) (cut : cursor.rest = passed ++ rest) :
    cursor.Passes passed (cursor.moveTo rest) ∧ (cursor.moveTo rest).rest = rest := by
  obtain ⟨rfl, bounded⟩ := within
  -- What is passed over is missing from the length of what is left to read.
  have lengths : cursor.input.length - cursor.position = passed.length + rest.length := by
    rw [← List.length_drop, ← List.length_append, ← cut, Cursor.rest]
  have position : cursor.input.length - rest.length = cursor.position + passed.length := by
    omega
  have left : (cursor.moveTo rest).rest = rest :=
    calc (cursor.moveTo rest).rest
        = cursor.input.drop (cursor.position + passed.length) := by
          rw [moveTo, Cursor.rest, position]
      _ = (passed ++ rest).drop passed.length := by rw [← List.drop_drop, ← cut, Cursor.rest]
      _ = rest := List.drop_left
  refine ⟨⟨by rw [left, cut], ?_⟩, left⟩
  rw [moveTo, position]

/-- A cursor that passes over a text stays within its input and does not go back. -/
theorem Passes.within (passes : cursor.Passes passed next) (within : Within input cursor) :
    Within input next ∧ cursor.position ≤ next.position := by
  obtain ⟨ahead, rfl⟩ := passes
  obtain ⟨rfl, bounded⟩ := within
  -- Only what is left to read can be passed over.
  have lengths := congrArg List.length ahead
  rw [Cursor.rest, List.length_drop, List.length_append] at lengths
  refine ⟨⟨rfl, ?_⟩, ?_⟩
  · show cursor.position + passed.length ≤ cursor.input.length
    omega
  · show cursor.position ≤ cursor.position + passed.length
    omega

/-- A cursor skips the white space ahead of it, and all of it. -/
theorem Within.skipSpaces (within : Within input cursor) :
    ∃ gap, Blank gap ∧ cursor.skipSpaces.rest.head?.any isSpace = false ∧
      cursor.Passes gap cursor.skipSpaces ∧
      cursor.skipSpaces.rest = TableStore.skipSpaces cursor.rest := by
  obtain ⟨gap, blank, cut⟩ := exists_blank_append_skipSpaces cursor.rest
  obtain ⟨passes, left⟩ := within.passes_moveTo cut
  -- What is left is what the text is without its white space.
  have solid := head?_skipSpaces cursor.rest
  rw [← left] at solid
  exact ⟨gap, blank, solid, passes, left⟩

/-! ## Reading a token -/

/-- A cursor moves over a token that stands behind the white space. -/
theorem Within.follows_found {token : Bytes} (within : Within input cursor)
    (cut : TableStore.skipSpaces cursor.rest = token ++ rest) (reads : kind.Reads token rest) :
    cursor.Follows (.read kind) (kind.found token) (cursor.moveTo rest) := by
  obtain ⟨gap, blank, whole⟩ := exists_blank_append_skipSpaces cursor.rest
  rw [cut, ← List.append_assoc] at whole
  obtain ⟨passes, left⟩ := within.passes_moveTo whole
  refine .found blank ?_ (by rwa [left]) passes
  -- The token begins where skipping stops.
  rw [left, ← cut]
  exact head?_skipSpaces cursor.rest

/-- A cursor moves over the white space alone if no token stands behind it. -/
theorem Within.follows_missing (within : Within input cursor)
    (absent : ∀ token rest, TableStore.skipSpaces cursor.rest = token ++ rest →
      ¬kind.Reads token rest) :
    cursor.Follows (.read kind) kind.missing cursor.skipSpaces := by
  -- The hypothesis is about what is left once the white space is skipped.
  obtain ⟨gap, blank, solid, passes, left⟩ := within.skipSpaces
  rw [← left] at absent
  exact .missing blank solid absent passes

/-- A cursor that tells whether a token is there moves over it, if its reader finds just these. -/
theorem Within.follows_accept {read : Option Bytes} (within : Within input cursor)
    (told : ∀ token, kind.found token = .told true) (toldNot : kind.missing = .told false)
    (finds : ∀ rest, read = some rest ↔
      ∃ token, TableStore.skipSpaces cursor.rest = token ++ rest ∧ kind.Reads token rest) :
    cursor.Follows (.read kind) (.told (cursor.accept read).1) (cursor.accept read).2 := by
  -- Whether the reader finds something decides between the two ends of the step.
  cases read with
  | none =>
    rw [accept, ← toldNot]
    refine within.follows_missing fun token rest cut reads => ?_
    have found := (finds rest).2 ⟨token, cut, reads⟩
    simp at found
  | some rest =>
    obtain ⟨token, cut, reads⟩ := (finds rest).1 rfl
    rw [accept, ← told token]
    exact within.follows_found cut reads

/-- A cursor that gives the text of a token moves over it, if its reader finds just these. -/
theorem Within.follows_take {read : Option (Bytes × Bytes)} (within : Within input cursor)
    (given : ∀ token, kind.found token = .token (some token))
    (givenNot : kind.missing = .token none)
    (finds : ∀ token rest, read = some (token, rest) ↔
      TableStore.skipSpaces cursor.rest = token ++ rest ∧ kind.Reads token rest) :
    cursor.Follows (.read kind) (.token (cursor.take read).1) (cursor.take read).2 := by
  -- Whether the reader finds something decides between the two ends of the step.
  cases read with
  | none =>
    rw [take, ← givenNot]
    refine within.follows_missing fun token rest cut reads => ?_
    have found := (finds token rest).2 ⟨cut, reads⟩
    simp at found
  | some tokenAndRest =>
    obtain ⟨token, rest⟩ := tokenAndRest
    obtain ⟨cut, reads⟩ := (finds token rest).1 rfl
    rw [take, ← given token]
    exact within.follows_found cut reads

/-- A cursor reads every kind of token from behind the white space ahead of it. -/
theorem Within.follows_read (within : Within input cursor) (kind : TokenKind) :
    cursor.Follows (.read kind) (cursor.perform (.read kind)).1
      (cursor.perform (.read kind)).2 := by
  -- Each kind has a reader of its own, which finds the tokens of this kind and no others.
  cases kind with
  | keyword word =>
    refine within.follows_accept (fun _ => rfl) rfl fun rest => ?_
    exact dropWord?_eq_some_iff
  | symbol byte =>
    refine within.follows_accept (fun _ => rfl) rfl fun rest => ?_
    rw [Token.symbol?_eq_some_iff]
    simp [TokenKind.Reads]
  | identifier =>
    refine within.follows_take (fun _ => rfl) rfl fun name rest => ?_
    exact Token.identifier?_eq_some_iff
  | value =>
    refine within.follows_take (fun _ => rfl) rfl fun token rest => ?_
    exact Token.value?_eq_some_iff

/-! ## Finishing a statement -/

/-- A cursor tells of the end of a statement exactly if nothing but an ending is left. -/
theorem Within.follows_finish (within : Within input cursor) :
    cursor.Follows .finish (.told cursor.finish.1) cursor.finish.2 := by
  obtain ⟨ending, isEnding, cut, solid, single⟩ := Token.exists_append_afterEnd cursor.rest
  obtain ⟨passes, left⟩ := within.passes_moveTo cut
  cases atEnd : cursor.finish.1 with
  | true =>
    -- Nothing is left behind the ending, which then is all that was left before.
    have empty : Token.afterEnd cursor.rest = [] := List.isEmpty_iff.1 atEnd
    have whole : cursor.rest = ending := by rw [cut, empty, List.append_nil]
    exact .ended (whole ▸ isEnding) (whole ▸ passes)
  | false =>
    rw [← left] at solid single
    refine .unended (fun ended => ?_) isEnding solid single passes
    exact absurd (Token.isAtEnd_iff.2 ended) (ne_true_of_eq_false atEnd)

/-! ## Steps and runs -/

/-- A cursor within its text does in every step what the step is for. -/
theorem Within.follows (within : Within input cursor) (step : CursorStep) :
    cursor.Follows step (cursor.perform step).1 (cursor.perform step).2 := by
  -- Each kind of step has its own lemma; skipping and seeking have one end only.
  cases step with
  | read kind => exact within.follows_read kind
  | skipSpaces =>
    obtain ⟨gap, blank, solid, passes, -⟩ := within.skipSpaces
    exact .skipped blank solid passes
  | finish => exact within.follows_finish
  | seek offset => exact .sought

/-- A cursor is within its text after every step, and further back only if it is sent back. -/
theorem Follows.within (follows : cursor.Follows step answer next) (within : Within input cursor) :
    -- All ends but that of a seek pass over a text that stands ahead.
    Within input next ∧ (cursor.position ≤ next.position ∨ ∃ offset, step = .seek offset) := by
  cases follows with
  | found _ _ _ passes => exact (passes.within within).imp_right .inl
  | missing _ _ _ passes => exact (passes.within within).imp_right .inl
  | skipped _ _ passes => exact (passes.within within).imp_right .inl
  | ended _ passes => exact (passes.within within).imp_right .inl
  | unended _ _ _ _ passes => exact (passes.within within).imp_right .inl
  -- A seek goes to the offset, or to the end of the text if that comes first.
  | @sought offset =>
    obtain ⟨rfl, -⟩ := within
    exact ⟨⟨rfl, Nat.min_le_right _ _⟩, .inr ⟨offset, rfl⟩⟩

/-- A cursor is within its text after any steps from the start of it on. -/
theorem within_after (input : Bytes) (steps : List CursorStep) :
    Within input (after input steps) := by
  -- The last step is taken by a cursor that all others have left within the text.
  induction steps using List.reverseRecOn with
  | nil => exact ⟨rfl, Nat.zero_le _⟩
  | append_singleton steps step ih =>
    rw [after, List.foldl_append]
    exact ((ih.follows step).within ih).1

/--
Whatever a cursor has been asked on a text, it stands within this text, and its next step does just
what it is for: to read moves it over all of the white space ahead and the token behind it, or over
the white space alone if no such token stands there; to finish moves it over an ending, and to the
end exactly if nothing else was left. Only to seek can move it back.
-/
theorem cursor_loses_nothing (input : Bytes) (steps : List CursorStep) :
    (after input steps).input = input ∧ (after input steps).position ≤ input.length ∧
      ∀ step,
        (after input steps).Follows step ((after input steps).perform step).1
          ((after input steps).perform step).2 ∧
        ((after input steps).position ≤ ((after input steps).perform step).2.position ∨
          ∃ offset, step = .seek offset) := by
  -- The invariant of the run gives the bounds, and is what the next step needs.
  have within := within_after input steps
  refine ⟨within.text, within.bounded, fun step => ?_⟩
  have follows := within.follows step
  exact ⟨follows, (follows.within within).2⟩

/-- Words that are not there cost nothing but the white space, also behind a quoted run. -/
example : (after " x 'a;b' ; " [.read (.keyword "INNER"), .read .identifier, .read (.symbol period),
    .read .value]).perform .finish = (.told true, ⟨" x 'a;b' ; ", 11⟩) := by
  decide

end Cursor

end TableStore
