import TableScan.Filter

/-!
# Sources

A source supplies the frames of a scan, as often as it is asked to.
-/

namespace TableScan

variable {ω : Type}

/-- A supplier of frames over a world. -/
structure Source (ω : Type) where
  schema : Schema
  /-- The frames in their natural order; a frame's place in the list is its index. -/
  supply : ω → Except Stop (List Frame) × ω
  dictionaries : Dictionaries := {}
  /-- The order in which a scan visits the frames and their rows. -/
  order : Order := .ascending
  randomAccess : Bool := true
  compiledFilter : Bool := false
  close : ω → ω := id

/-- A table as a source. -/
def Table.toSource (t : Table) : Source ω where
  schema := t.schema
  supply w := (Stop.ofFault t.frames, w)
  dictionaries := t.dictionaries
  order := t.order
  randomAccess := t.randomAccess

end TableScan
