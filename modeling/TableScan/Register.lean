/-!
# Registers

Things kept under names.
-/

namespace TableScan

/-- Things by name.  A name bears the thing it was last bound to. -/
structure Register (α : Type) where
  entries : List (String × α) := []

namespace Register

variable {α : Type}

/-- The thing of that name. -/
def find? (r : Register α) (name : String) : Option α := r.entries.lookup name

/-- The register without that name. -/
def erase (r : Register α) (name : String) : Register α := ⟨r.entries.filter (·.1 != name)⟩

/-- The register with a name bound. -/
def bind (r : Register α) (name : String) (a : α) : Register α :=
  ⟨(name, a) :: (r.erase name).entries⟩

end Register

end TableScan
