import TableScan.Frame
import TableScan.Schema

/-!
# Directories

The frames of one scan by index, with the column types they share.
-/

namespace TableScan

/-- The frames of a scan and the types of their columns. -/
structure Directory where
  types : Array ColumnType := #[]
  frames : Array Frame := #[]

namespace Directory

/-- The directory of a schema, without frames. -/
def ofSchema (s : Schema) : Directory := { types := s.types }

/-- Whether a frame has as many columns as the schema. -/
def fits (d : Directory) (f : Frame) : Bool := f.columns.size == d.types.size

/-- The directory with one more frame, which must fit. -/
def add (d : Directory) (f : Frame) : Except Fault Directory :=
  if d.fits f then .ok { d with frames := d.frames.push f } else .error .columnCount

/-- The directory with frames added up to the first that does not fit. -/
def addAll (d : Directory) (frames : List Frame) : Option Fault × Directory :=
  (if frames.all d.fits then none else some .columnCount,
    { d with frames := d.frames ++ frames.takeWhile d.fits })

/-- The type of a column. -/
def type? (d : Directory) (column : Nat) : Except Fault ColumnType :=
  match d.types[column]? with
  | some t => .ok t
  | none => .error .noColumn

/-- The frame at an index. -/
def frame? (d : Directory) (index : Nat) : Except Fault Frame :=
  match d.frames[index]? with
  | some f => .ok f
  | none => .error .noFrame

/-- The window of a column in a frame. -/
def window? (d : Directory) (index column : Nat) : Except Fault Window := do
  match (← d.frame? index).columns[column]? with
  | some w => .ok w
  | none => .error .noColumn

/-- The row count of a frame; none for a frame that is not there. -/
def rowCount (d : Directory) (index : Nat) : Nat :=
  match d.frames[index]? with
  | some f => f.rowCount
  | none => 0

end Directory

end TableScan
