import Std.Data.ExtTreeMap
import TableStore.Bytes.Basic

/-! The files of a working directory, in the order of their names. -/

namespace TableStore

/-- The texts that were written to each file, in order, by its name. -/
abbrev Files := Std.ExtTreeMap Bytes (List Bytes)

namespace Files

/-- The contents of a file; one that does not exist is empty. -/
def contents (files : Files) (name : Bytes) : Bytes := (files.getD name []).flatten

/-- The files with a text put at the end of one, which is created if it does not exist. -/
def append (files : Files) (name text : Bytes) : Files :=
  files.insert name (files.getD name [] ++ [text])

/-- Only the named file becomes longer. -/
theorem contents_append (files : Files) (name other text : Bytes) :
    (files.append name text).contents other =
      if name = other then files.contents name ++ text else files.contents other := by
  -- A name is looked up in the files as they were, unless it is the one that was put in.
  by_cases same : name = other <;>
    simp [contents, append, Std.ExtTreeMap.getD_insert, same]

/-- The names of the files and what they contain. -/
def listing (files : Files) : List (Bytes × Bytes) :=
  files.toList.map fun (name, texts) => (name, texts.flatten)

end Files

end TableStore
