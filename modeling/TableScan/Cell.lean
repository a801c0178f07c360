import TableScan.Binary64
import TableScan.Bytes
import TableScan.Schema

/-!
# Cells

The values of column memory: what is written into a column, as which bytes, and the ways in
which those bytes are read.
-/

namespace TableScan

/-- A value of column memory. -/
inductive Cell
  | bool (value : Bool)
  | byte (value : Int8)
  | short (value : Int16)
  | int (value : Int32)
  | long (value : Int64)
  | float (value : Binary32)
  | double (value : Binary64)
deriving DecidableEq, Repr

/-- A way to read a value of a column. -/
inductive Getter
  | bool | byte | short | int | long | float | double | timestamp
deriving DecidableEq, Repr

namespace Cell

/-- The width of a value in bytes. -/
def width : Cell → Nat
  | bool _ | byte _ => 1
  | short _ => 2
  | int _ | float _ => 4
  | long _ | double _ => 8

/-- A value as an unsigned word. -/
def word : Cell → Nat
  | bool b => b.toNat
  | byte v => v.toUInt8.toNat
  | short v => v.toUInt16.toNat
  | int v => v.toUInt32.toNat
  | long v => v.toUInt64.toNat
  | float v => v.bits.toNat
  | double v => v.bits.toNat

/-- The bytes of a value in column memory. -/
def bytes (v : Cell) : List UInt8 := Bytes.encode v.width v.word

/-- The column types that hold such a value. -/
def fits : Cell → ColumnType → Bool
  | bool _, t => t == .bool
  | byte _, t => t == .i8
  | short _, t => t == .i16
  | int _, t => t == .i32 || t == .symbol
  | long _, t => t == .i64 || t == .timestamp
  | float _, t => t == .f32
  | double _, t => t == .f64

theorem width_eq_of_fits {v : Cell} {t : ColumnType} (h : v.fits t = true) :
    v.width = t.width := by
  cases v <;> cases t <;> first | rfl | exact absurd h (by simp [fits])

end Cell

namespace Getter

/-- The number of bytes read. -/
def width : Getter → Nat
  | bool | byte => 1
  | short => 2
  | int | float => 4
  | long | double | timestamp => 8

/-- The value of an unsigned word. -/
def decode : Getter → Nat → Cell
  | bool, n => .bool (n != 0)
  | byte, n => .byte (UInt8.ofNat n).toInt8
  | short, n => .short (UInt16.ofNat n).toInt16
  | int, n => .int (UInt32.ofNat n).toInt32
  | long, n | timestamp, n => .long (UInt64.ofNat n).toInt64
  | float, n => .float ⟨UInt32.ofNat n⟩
  | double, n => .double ⟨UInt64.ofNat n⟩

end Getter

end TableScan
