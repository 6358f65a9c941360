import TableStore.Error
import TableStore.Proofs.Result
import TableStore.Proofs.Statement.Grammar
import TableStore.Statement.Deletion

/-!
Deletions as they are written. Main statement: a text is read as a deletion exactly if it is one.
-/

namespace TableStore

/-- The written forms of a deletion. -/
def Grammar.deletion (deletion : Deletion) : Language UInt8 :=
  spaces * word "DELETE" * gap * word "FROM" * gap * identifier [] deletion.table *
    clause [] deletion.condition

namespace Deletion

open Grammar

variable {text : Bytes} {deletion : Deletion}

/-- A written deletion is read. -/
theorem read?_of_mem (written : text ∈ Grammar.deletion deletion) :
    read? text = some deletion := by
  -- The tokens are read one by one, each of them leaving what is written behind it.
  simp only [Grammar.deletion, mul_assoc] at written
  obtain ⟨rest, isRest, readDelete⟩ := exists_keyword? (by decide) apart_gap_mul written
  obtain ⟨rest, isRest, readFrom⟩ :=
    exists_keyword? (by decide) apart_gap_mul (mem_spaces_mul_of_gap isRest)
  obtain ⟨rest, isRest, readTable⟩ :=
    exists_identifier? apart_clause (mem_spaces_mul_of_gap isRest)
  simp [read?, readDelete, readFrom, readTable, readClause?_of_mem isRest]

/-- A deletion that is read is written. -/
theorem mem_of_read? (read : read? text = some deletion) : text ∈ Grammar.deletion deletion := by
  simp only [read?, Option.bind_eq_bind, Option.bind_eq_some_iff, Prod.exists, Option.pure_def,
    Option.some.injEq] at read
  obtain ⟨behindDelete, readDelete, behindFrom, readFrom, table, behindTable, readTable, condition,
    readClause, rfl⟩ := read
  -- From the end on, each word is set apart from the one in front of it.
  have isClause := mem_of_readClause? (endsWord_of_identifier? readTable) readClause
  have isTable := mem_gap_mul begins_identifier.mul (endsWord_of_keyword? readFrom)
    (mem_of_identifier? readTable isClause)
  have isFrom := mem_gap_mul (begins_word (by decide)).mul (endsWord_of_keyword? readDelete)
    (mem_of_keyword? readFrom isTable)
  have isDelete := mem_of_keyword? readDelete isFrom
  simpa only [Grammar.deletion, mul_assoc] using isDelete

/-- A text is read as a deletion exactly if it is written as one. -/
theorem parse_eq_ok_iff : parse text = .ok deletion ↔ text ∈ Grammar.deletion deletion :=
  -- Both directions are those of the reader, whose failure is an error.
  elim_eq_ok_iff.trans ⟨mem_of_read?, read?_of_mem⟩

end Deletion

/-- A text is read as a deletion exactly if it is one, and is refused for its syntax otherwise. -/
theorem deletion_read_exactly (text : Bytes) :
    (∀ deletion, Deletion.parse text = .ok deletion ↔ text ∈ Grammar.deletion deletion) ∧
      ((∃ deletion, text ∈ Grammar.deletion deletion) ∨
        ∃ error, Deletion.parse text = .error error ∧
          QueryError.parseStatus error = .syntaxError) := by
  -- The reader either gives a deletion, which is then written, or refuses the text.
  refine ⟨fun deletion => Deletion.parse_eq_ok_iff, ?_⟩
  cases read : Deletion.read? text with
  | some deletion => exact .inl ⟨deletion, Deletion.mem_of_read? read⟩
  | none =>
    refine .inr ⟨.malformed .delete, ?_, rfl⟩
    rw [Deletion.parse, read]
    rfl

/-- Of two semicolons behind a bare value the first one belongs to it. -/
example : Deletion.parse "delete from t where a . b = x ; ;" =
    .ok ⟨"t", some ⟨"a.b", .text "x ;"⟩⟩ := by
  decide +kernel

end TableStore
