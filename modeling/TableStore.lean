import TableStore.Cursor
import TableStore.Database.History
import TableStore.Main
import TableStore.Proofs.Database.Sound
import TableStore.Proofs.Table.Listing
import TableStore.Proofs.Table.Refinement
import TableStore.Proofs.Database.Atomic
import TableStore.Proofs.Table.Qualified
import TableStore.Proofs.Database.JoinAnswer
import TableStore.Proofs.Statement.Deletion
import TableStore.Proofs.Statement.Selection
import TableStore.Proofs.Statement.Update
import TableStore.Proofs.Statement.Insertion
import TableStore.Proofs.Statement.Definition
import TableStore.Proofs.Database.Typed
import TableStore.Proofs.Database.Independent
import TableStore.Proofs.Statement.Compound
import TableStore.Proofs.Value.Equality
import TableStore.Proofs.Value.IntegerLiteral
import TableStore.Proofs.Session.Statements
import TableStore.Proofs.Value.NumberLiteral
import TableStore.Proofs.Database.JoinOrder
import TableStore.Proofs.Table.Repeated
import TableStore.Proofs.Value.NumberText
import TableStore.Proofs.Table.Batch
import TableStore.Proofs.Statement.Consistent
import TableStore.Proofs.Session.Rectangle
import TableStore.Proofs.Log.Sinks
import TableStore.Proofs.Cuts
import TableStore.Proofs.Cursor
