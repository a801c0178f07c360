import TableScan.ColumnBuffer
import TableScan.Frame
import TableScan.Settings

/-!
# Tables

A table in memory: partitions of columns, cut into frames of bounded length.
-/

namespace TableScan

/-- The direction in which a scan visits frames and rows. -/
inductive Order
  | ascending | descending
deriving DecidableEq, Repr

/-- Which of `count` items comes at a position of the visit. -/
def Order.itemAt (order : Order) (count position : Nat) : Nat :=
  match order with
  | .ascending => position
  | .descending => count - 1 - position

/-- A run of rows, kept column by column. -/
structure Partition where
  rowCount : Nat
  columns : Array ByteArray

/-- A partitioned table.  The symbol columns may have dictionaries. -/
structure Table where
  schema : Schema
  /-- The most rows of a frame. -/
  rowsPerFrame : Nat
  partitions : Array Partition := #[]
  order : Order := .ascending
  randomAccess : Bool := true
  dictionaries : Dictionaries := {}

/-- A partition that does not fit the schema of its table. -/
inductive PartitionError
  | columnCount (expected actual : Nat)
  | columnType (column : Nat) (name : String) (actual expected : ColumnType)
  | rowCount (column : Nat) (name : String) (actual expected : Nat)
deriving DecidableEq, Repr

namespace PartitionError

/-- The text of an error. -/
def message : PartitionError → String
  | columnCount expected actual =>
      "expected " ++ toString expected ++ " columns, got " ++ toString actual
  | columnType column name actual expected =>
      "column " ++ toString column ++ " (" ++ name ++ ") is " ++ actual.name ++
        ", expected " ++ expected.name
  | rowCount column name actual expected =>
      "column " ++ toString column ++ " (" ++ name ++ ") has " ++ toString actual ++
        " rows, expected " ++ toString expected

/-- The error of the scan's interface. -/
def toFailure (e : PartitionError) : Failure := .argument e.message

end PartitionError

namespace Table

/-- The empty table of a schema. -/
def ofSchema (schema : Schema) (settings : Settings) : Table :=
  { schema, rowsPerFrame := settings.rowsPerFrame }

/-- The first column that does not fit, in column order; the type is looked at before the row
count. -/
def firstMisfit (rowCount : Nat) : List (Nat × Column × ColumnBuffer) → Option PartitionError
  | [] => none
  | (i, column, buffer) :: rest =>
      if buffer.type ≠ column.type then
        some (.columnType i column.name buffer.type column.type)
      else if buffer.rows ≠ rowCount then
        some (.rowCount i column.name buffer.rows rowCount)
      else firstMisfit rowCount rest

/-- The row count of a partition is that of its first column. -/
def rowCountOf : List ColumnBuffer → Nat
  | [] => 0
  | buffer :: _ => buffer.rows

/-- What speaks against these columns as a partition of the table. -/
def misfit? (t : Table) (buffers : List ColumnBuffer) : Option PartitionError :=
  if buffers.length ≠ t.schema.size then some (.columnCount t.schema.size buffers.length)
  else firstMisfit (rowCountOf buffers)
    ((List.range buffers.length).zip (t.schema.columns.toList.zip buffers))

/-- The table with one more partition. -/
def append (t : Table) (buffers : List ColumnBuffer) : Except PartitionError Table :=
  match t.misfit? buffers with
  | some e => .error e
  | none =>
      let partition := ⟨rowCountOf buffers, (buffers.map (·.memory)).toArray⟩
      .ok { t with partitions := t.partitions.push partition }

/-- The number of rows. -/
def rowCount (t : Table) : Nat := t.partitions.foldl (fun n p => n + p.rowCount) 0

/-- Cuts the rows from `low` on into ranges, as first row and length, behind those that were cut
before: all but the last have `limit` rows.  The end of a full range is kept in a word. -/
def cut (limit rows : Nat) (ranges : Array (Nat × Nat)) (low : Nat) :
    Except Fault (Array (Nat × Nat)) :=
  if low < rows ∧ 0 < limit then
    if low + limit < 1 <<< 64 then
      let high := min (low + limit) rows
      cut limit rows (ranges.push (low, high - low)) high
    else .error .overflow
  else .ok ranges
termination_by rows - low

/-- The row ranges of a partition.  No rows still make one range. -/
def ranges (limit rows : Nat) : Except Fault (List (Nat × Nat)) :=
  if rows = 0 then .ok [(0, 0)] else Array.toList <$> cut limit rows #[] 0

/-- The window of a row range of a column. -/
def window (range : Nat × Nat) (type : ColumnType) (memory : ByteArray) : Except Fault Window := do
  Window.of? memory (← inWord (range.1 * type.width)) (← inWord (range.2 * type.width))

/-- The frame of a row range of a partition. -/
def frame (t : Table) (index : Nat) (p : Partition) (range : Nat × Nat) : Except Fault Frame := do
  let windows ← (t.schema.types.zip p.columns).toList.mapM fun (type, memory) =>
    window range type memory
  return ⟨index, range.1, range.2, windows.toArray⟩

/-- The frames of a partition, in row order. -/
def partitionFrames (t : Table) (index : Nat) (p : Partition) : Except Fault (List Frame) := do
  (← ranges t.rowsPerFrame p.rowCount).mapM (t.frame index p)

/-- The frames of a table in their natural order, whatever the order of the scan. -/
def frames (t : Table) : Except Fault (List Frame) := do
  let parts ← ((List.range t.partitions.size).zip t.partitions.toList).mapM fun (i, p) =>
    t.partitionFrames i p
  return parts.flatten

end Table

end TableScan
