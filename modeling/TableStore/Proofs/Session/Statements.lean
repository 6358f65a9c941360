import TableStore.Database.History
import TableStore.Proofs.Session.Listings

/-!
Sessions as sequences of statements. Main statement: a session does to a database without tables
what the statements among its lines do, and its headlines are those of the replies to them, one for
each in order; nothing that follows a line to leave by makes a difference, and every session ends
well.
-/

namespace TableStore

/-- Whether a line is a word to leave by, in any letter case, and nothing else. -/
def leaves (line : Bytes) : Bool :=
  -- A second word on the line makes it a statement.
  match words line with
  | [word] => [utf8 "exit", utf8 "quit", utf8 "q"].contains (lower word)
  | _ => false

/-- Whether a line is a statement: it is not blank, and its first word is no command. -/
def isStatement (line : Bytes) : Bool :=
  match words line with
  | [] => false
  | first :: _ =>
    !([utf8 "help", utf8 "tables", utf8 "schema", utf8 "loglevel"].contains (lower first))

/-- The lines of an input before the first one to leave by. -/
def sessionLines (input : Bytes) : List Bytes := (lines input).takeWhile (!leaves ·)

/-- The statements among lines, without the white space around them. -/
def statementsAmong (lines : List Bytes) : List Bytes := (lines.filter isStatement).map trim

/-- The replies to texts that are run one after another. -/
def Database.replies (db : Database) : List Bytes → List Reply
  | [] => []
  | text :: texts =>
    let outcome := db.execute text
    -- Each text is run on the database that the one before has left.
    Reply.ofResult outcome.result :: outcome.state.replies texts

variable {line : Bytes} {session : Session}

/-! ## Kinds of lines -/

/-- A line asks to leave exactly if it is a word to leave by. -/
theorem ofLine_eq_leave_iff : SessionInput.ofLine line = .leave ↔ leaves line = true := by
  -- Only a line of one word can leave.
  unfold SessionInput.ofLine leaves
  cases words line with
  | nil => simp
  | cons first arguments =>
    cases arguments with
    | nil => dsimp only; split_ifs <;> simp_all [or_assoc]
    | cons argument arguments => dsimp only; split_ifs <;> simp_all

/-- A statement is run as it stands between the white space around it. -/
theorem ofLine_of_isStatement (stays : leaves line = false) (statement : isStatement line = true) :
    SessionInput.ofLine line = .statement (trim line) := by
  -- It neither leaves nor begins with a command, so that the last of all cases is left.
  have noLeave := mt ofLine_eq_leave_iff.1 (ne_true_of_eq_false stays)
  unfold isStatement at statement
  unfold SessionInput.ofLine at noLeave ⊢
  cases found : words line with
  | nil => simp [found] at statement
  | cons first arguments =>
    simp only [found] at statement noLeave ⊢
    split_ifs at noLeave ⊢ <;> simp_all

/-- What stands on a line that is no statement. -/
theorem ofLine_ne_statement (other : isStatement line = false) (text : Bytes) :
    SessionInput.ofLine line ≠ .statement text := by
  -- Only the last of all kinds of input, behind every command, is a statement.
  unfold isStatement at other
  unfold SessionInput.ofLine
  -- A line without words asks for nothing.
  cases found : words line with
  | nil => simp
  | cons first arguments =>
    simp only [found] at other ⊢
    split_ifs <;> simp_all

/-- The words after a command. -/
def SessionInput.arguments : SessionInput → List Bytes
  | tables arguments | schema arguments | logLevel arguments => arguments
  | blank | leave | help | statement _ => []

/-- The arguments of a command are words of its line. -/
theorem arguments_ofLine_subset (line : Bytes) :
    (SessionInput.ofLine line).arguments ⊆ words line := by
  unfold SessionInput.ofLine
  -- Commands with arguments have the words behind the first one.
  split
  · exact List.nil_subset _
  · next first arguments same =>
    have behind : arguments ⊆ words line := same ▸ List.subset_cons_self first arguments
    dsimp only
    split_ifs <;> simp [SessionInput.arguments, behind]

/-! ## Sequences of statements -/

/-- The statements among some lines and then others are those of the first and of the others. -/
theorem statementsAmong_append (front rest : List Bytes) :
    statementsAmong (front ++ rest) = statementsAmong front ++ statementsAmong rest := by
  -- The lines are looked at one by one.
  simp [statementsAmong]

/-- The database after texts that are run one after another. -/
def Database.afterTexts (db : Database) (texts : List Bytes) : Database :=
  (texts.map Request.execute).foldl serve db

/-- The replies to texts are those to the first ones, and then to the others. -/
theorem Database.replies_append (db : Database) (front rest : List Bytes) :
    db.replies (front ++ rest) = db.replies front ++ (db.afterTexts front).replies rest := by
  induction front generalizing db with
  | nil => rfl
  | cons text front ih =>
    -- The others are run on what the first text leaves.
    simp only [List.cons_append, replies, ih]
    rfl

/-- A database changes, and an output tells, as texts do that are run one after another. -/
structure Answers (db : Database) (texts : List Bytes) (changed : Database) (output : Bytes) :
    Prop where
  database : changed = db.afterTexts texts
  headlines : Prints output ((db.replies texts).map Reply.headline)

namespace Answers

variable {db changed final : Database} {texts others : List Bytes} {output rest : Bytes}

/-- The second part of a sequence starts where the first one ends. -/
theorem append (first : Answers db texts changed output)
    (second : Answers changed others final rest) :
    Answers db (texts ++ others) final (output ++ rest) where
  -- The second part runs on the database that the first one leaves.
  database := by
    rw [second.database, first.database]
    simp [Database.afterTexts]
  headlines := by
    rw [Database.replies_append, List.map_append, ← first.database]
    exact first.headlines.append second.headlines

/-- A prompt in front of an output makes no difference. -/
theorem prompted (answers : Answers db texts changed output) :
    Answers db texts changed (prompt ++ output) :=
  -- Prompts are taken off before a line is looked at.
  ⟨answers.database, Prints.of_prompt.append answers.headlines⟩

end Answers

/-! ## Turns -/

namespace Session

/-- A turn goes on with the same database and prints nothing that passes for a headline. -/
structure IsAside (session : Session) (turn : Turn) : Prop where
  database : turn.session.database = session.database
  continues : turn.continues = true
  silent : Prints turn.output []

/-- Who only says something does nothing else. -/
theorem isAside_say {output : Bytes} (silent : Prints output []) :
    session.IsAside (session.say output) := ⟨rfl, rfl, silent⟩

/-- The command that shows a schema prints no headline, and the database stays as it is. -/
theorem isAside_showSchema (oneLine : session.database.OneLine) {names : List Bytes}
    (written : ∀ name ∈ names, OneLine name) : session.IsAside (session.showSchema names) := by
  -- The name is that of a table, or of none, or there is not just one name.
  unfold showSchema
  split
  · next name =>
    split
    · next table found => exact isAside_say (oneLine name table found).prints_listing
    · exact isAside_say (@Prints.said _ _ _ (utf8 "'.") (by decide) (by decide)
        (by simp +decide [written]))
  · exact isAside_say (@Prints.aside (utf8 "Usage: schema <table>") (by decide) (by decide))

/-- The level of the log is none of the database. -/
theorem isAside_chooseLevel {names : List Bytes} (written : ∀ name ∈ names, OneLine name) :
    session.IsAside (session.chooseLevel names) := by
  -- The names of the levels are fixed, and what is quoted besides is a word of the line.
  have level (level : LogLevel) : OneLine level.name := by cases level <;> decide
  unfold chooseLevel
  split
  · exact isAside_say (@Prints.said _ _ _ [] (by decide) (by decide) (by simp +decide [level]))
  · next name names =>
    split
    · exact ⟨rfl, rfl, @Prints.said _ _ _ [] (by decide) (by decide) (by simp +decide [level])⟩
    · exact isAside_say (@Prints.said _ _ _ (utf8 "' (use DEBUG/INFO/WARN/ERROR/FATAL)")
        (by decide) (by decide) (by simp +decide [written]))

/-- A command or a blank line leaves the database as it is, and its answer has no headlines. -/
theorem isAside_handle (oneLine : session.database.OneLine) (stays : leaves line = false)
    (other : isStatement line = false) : session.IsAside (session.handle line) := by
  -- The words that an answer repeats are cut at white space, and so at every line end.
  have words (word : Bytes) (among : word ∈ (SessionInput.ofLine line).arguments) : OneLine word :=
    oneLine_of_mem_words (arguments_ofLine_subset line among)
  unfold handle
  cases asked : SessionInput.ofLine line with
  | blank => exact isAside_say Prints.nil
  | leave => exact absurd (ofLine_eq_leave_iff.1 asked) (ne_true_of_eq_false stays)
  | help => exact isAside_say prints_help
  | tables names =>
    cases names with
    | nil => exact isAside_say oneLine.prints_listing
    | cons name names =>
      exact isAside_say (@Prints.aside (utf8 "Usage: tables") (by decide) (by decide))
  | schema names =>
    rw [asked] at words
    exact isAside_showSchema oneLine words
  | logLevel names =>
    rw [asked] at words
    exact isAside_chooseLevel words
  | statement text => exact absurd asked (ofLine_ne_statement other text)

/-- Nothing happens on a line to leave by. -/
theorem handle_of_leaves (away : leaves line = true) :
    session.handle line = { session, output := [], log := [], continues := false } := by
  -- The line is a word to leave by, and nothing else.
  rw [handle, ofLine_eq_leave_iff.2 away]
  rfl

/-- A statement is run on the database, and its reply is printed. -/
theorem handle_of_isStatement (stays : leaves line = false) (statement : isStatement line = true) :
    session.handle line =
      let outcome := session.database.execute (trim line)
      { session := { session with database := outcome.state }
        output := (Reply.ofResult outcome.result).text
        log := outcome.log
        continues := true } := by
  -- The line is read as a statement, and the turn is what running it gives.
  rw [handle, ofLine_of_isStatement stays statement]
  rfl

/-- Nothing that follows a line to leave by is read. -/
theorem handleAll_of_leaves (away : leaves line = true) (front rest later : List Bytes) :
    session.handleAll (front ++ line :: rest) = session.handleAll (front ++ line :: later) := by
  -- Another line in front may leave already; then neither list is read on.
  induction front generalizing session with
  | nil => simp [handleAll, handle_of_leaves away]
  | cons first front ih =>
    simp only [List.cons_append, handleAll]
    split
    · rw [ih]
    · rfl

/--
A line that stays is answered as the statement that it is, or as none, and leaves tables that are
declared on one line.
-/
theorem handle_answers (oneLine : session.database.OneLine) (written : OneLine line)
    (stays : leaves line = false) :
    (session.handle line).continues = true ∧ (session.handle line).session.database.OneLine ∧
      Answers session.database (statementsAmong [line]) (session.handle line).session.database
        (session.handle line).output := by
  -- Only a statement that is run could name new tables, and it stands on the line.
  cases kind : isStatement line with
  | true =>
    have alone : statementsAmong [line] = [trim line] := by simp [statementsAmong, kind]
    obtain ⟨kept, told⟩ := oneLine.execute written.trim
    rw [handle_of_isStatement stays kind, alone]
    exact ⟨rfl, kept, rfl, Reply.prints_text told⟩
  | false =>
    have none : statementsAmong [line] = [] := by simp [statementsAmong, kind]
    have aside := isAside_handle oneLine stays kind
    rw [aside.database, none]
    exact ⟨aside.continues, oneLine, rfl, aside.silent⟩

/-- Lines are answered as the statements among those before the first one to leave by. -/
theorem handleAll_answers (oneLine : session.database.OneLine) {lines : List Bytes}
    (written : ∀ line ∈ lines, OneLine line) :
    (session.handleAll lines).status = 0 ∧
      Answers session.database (statementsAmong (lines.takeWhile (!leaves ·)))
        (session.handleAll lines).session.database (session.handleAll lines).output := by
  -- Every line may change the session, so that the induction is for all of them.
  induction lines generalizing session with
  | nil => exact ⟨rfl, rfl, Prints.of_prompt⟩
  | cons line lines ih =>
    obtain ⟨isLine, others⟩ := List.forall_mem_cons.1 written
    cases away : leaves line with
    | true =>
      -- The session ends before any other line is read.
      simp only [handleAll, handle_of_leaves away, List.takeWhile_cons, away]
      exact ⟨rfl, rfl, Prints.of_prompt.append Prints.nil⟩
    | false =>
      obtain ⟨continues, kept, first⟩ := handle_answers oneLine isLine away
      obtain ⟨well, rest⟩ := ih kept others
      have among : statementsAmong ((line :: lines).takeWhile (!leaves ·)) =
          statementsAmong [line] ++ statementsAmong (lines.takeWhile (!leaves ·)) := by
        rw [List.takeWhile_cons_of_pos (by simp [away])]
        exact statementsAmong_append [line] _
      rw [among]
      simp only [handleAll, continues, if_true]
      exact ⟨well, (first.prompted.append rest)⟩

end Session

/-! ## Whole sessions -/

/--
A session on an input does to the database without tables what its statements do, and its headlines
are those of the replies to them. Its statements are those among the lines before the first one to
leave by, without the white space around them; whatever follows that line makes no difference to
what is left, printed or logged. The session ends well.
-/
theorem session_runs_statements (level : LogLevel) (input : Bytes) :
    let statements := statementsAmong (sessionLines input)
    let transcript := (Session.start level).run input
    transcript.session.database = Database.after (statements.map Request.execute) ∧
      headlines transcript.output = (Database.empty.replies statements).map Reply.headline ∧
      (∀ (front rest later : List Bytes) (line other : Bytes), leaves line = true →
        lines input = front ++ line :: rest → lines other = front ++ line :: later →
        (Session.start level).run other = transcript) ∧
      transcript.status = 0 := by
  -- There is no table to begin with, and no line of the input has a line end in it.
  have oneLine : (Session.start level).database.OneLine := Database.oneLine_empty
  have banner : Prints banner [] :=
    @Prints.aside (utf8 "SimpleDB REPL - type 'help'") (by decide) (by decide)
  obtain ⟨well, answers⟩ := Session.handleAll_answers oneLine fun _ => oneLine_of_mem_lines
  refine ⟨answers.database, ?_, ?_, well⟩
  · exact (banner.append answers.headlines).headlines_eq
  · intro front rest later line other away same otherSame
    have cut := (Session.start level).handleAll_of_leaves away front later rest
    simp only [Session.run, same, otherSame, cut]

/-- A word to leave by needs a line of its own, and what follows it is not read. -/
theorem session_runs_statements_until_left :
    let input := utf8 "tables\n INSERT INTO t VALUES (1); \n\nq;\nQ\nDELETE FROM t WHERE a = 1;\n"
    let statements := [utf8 "INSERT INTO t VALUES (1);", utf8 "q;"]
    let transcript := (Session.start .info).run input
    transcript.session.database = Database.after (statements.map Request.execute) ∧
      headlines transcript.output = (Database.empty.replies statements).map Reply.headline ∧
      (Session.start .info).run "tables\n INSERT INTO t VALUES (1); \n\nq;\nQ" = transcript := by
  intro input statements transcript
  -- The lines are few, so that the statements among them are found by looking.
  have same : statementsAmong (sessionLines input) = statements := by decide
  obtain ⟨database, printed, unread, -⟩ := session_runs_statements .info input
  rw [same] at database printed
  refine ⟨database, printed, ?_⟩
  -- The lines are taken apart before and behind the one that is left by.
  exact unread [utf8 "tables", utf8 " INSERT INTO t VALUES (1); ", [], utf8 "q;"]
    [utf8 "DELETE FROM t WHERE a = 1;"] [] (utf8 "Q") _ (by decide) (by decide) (by decide)

end TableStore
