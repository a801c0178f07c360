import TableScan.Cell
import TableScan.Dictionary

/-!
# Column buffers

A column of a partition while it is filled: values go in as little-endian bytes.  Main
statement: a push adds one row and the bytes of its value, and nothing else is ever added.
-/

namespace TableScan

/-- A column being filled. -/
structure ColumnBuffer where
  type : ColumnType
  memory : ByteArray := .empty
  rows : Nat := 0

namespace ColumnBuffer

/-- The column with one more value, which must be of its type. -/
def push (c : ColumnBuffer) (v : Cell) : Except Fault ColumnBuffer :=
  if v.fits c.type then
    .ok { c with memory := Bytes.append c.memory v.bytes, rows := c.rows + 1 }
  else .error .wrongType

/-- A text pushed through its dictionary.  The text enters the dictionary whatever the type of
the column. -/
def pushText (c : ColumnBuffer) (d : Dictionary) (text : String) :
    Except Fault ColumnBuffer × Dictionary :=
  let (key, d) := d.put text
  (c.push (.int key), d)

theorem push_eq_ok_iff {c c' : ColumnBuffer} {v : Cell} :
    c.push v = .ok c' ↔ v.fits c.type = true ∧
      c' = { c with memory := Bytes.append c.memory v.bytes, rows := c.rows + 1 } := by
  by_cases h : v.fits c.type = true <;> simp [push, h, eq_comm]

/-- A column holds its row count times the width of its type. -/
def Full (c : ColumnBuffer) : Prop := c.memory.size = c.rows * c.type.width

theorem Full.push {c c' : ColumnBuffer} {v : Cell} (h : c.Full) (hp : c.push v = .ok c') :
    c'.Full := by
  obtain ⟨hf, rfl⟩ := push_eq_ok_iff.1 hp
  simp only [Full] at h ⊢
  rw [Bytes.size_append, Cell.bytes, Bytes.length_encode, Cell.width_eq_of_fits hf, h,
    Nat.succ_mul]

end ColumnBuffer

end TableScan
