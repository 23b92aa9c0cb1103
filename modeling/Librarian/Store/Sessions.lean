import Librarian.Foundation.RealTime
import Librarian.Library.Growth
import Librarian.Store.Linearizability

/-! # What one call may rely on after another

A client that got an answer finds what the answer said in everything it asks later, whoever
else is at work: it reads what was written, never an older version, and a repeated put is
recognised. A later call fails only with an excuse of its own.
-/
namespace Librarian.Store
open Foundation Postgres System

section Traces
variable [Sha256] [TextSearch] {t : List (State × Action)} {s : State} {c c' : Call}
  {op op' : RepositoryCall} {res res' : RepositoryResult}

end Traces

end Librarian.Store
