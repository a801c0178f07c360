import TableScan.Failure

/-!
# Frames

A frame is a contiguous run of rows of one partition: for each column a window into the
column's memory.  The windows of several frames share one memory.
-/

namespace TableScan

/-- A byte range inside a memory.  Its end is kept in a word. -/
structure Window where
  memory : ByteArray
  offset : Nat
  length : Nat
  inside : offset + length ≤ memory.size
  word : offset + length < 1 <<< 64

namespace Window

/-- The window of a byte range, which must lie inside its memory. -/
def of? (memory : ByteArray) (offset length : Nat) : Except Fault Window :=
  if hword : offset + length < 1 <<< 64 then
    if hin : offset + length ≤ memory.size then .ok ⟨memory, offset, length, hin, hword⟩
    else .error .outOfRange
  else .error .overflow

/-- The bytes of a window. -/
def bytes (w : Window) : ByteArray := w.memory.extract w.offset (w.offset + w.length)

/-- No bytes at all. -/
def isEmpty (w : Window) : Bool := w.length == 0

end Window

/-- A contiguous run of rows of one partition. -/
structure Frame where
  partition : Nat
  /-- The first row of the partition in this frame. -/
  firstRow : Nat
  rowCount : Nat
  columns : Array Window

end TableScan
