import TableScan.Failure

/-!
# Schemas

Column types, their widths in column memory and their names, and the list of columns of a table.
-/

namespace TableScan

/-- The type of a column.  A symbol column holds keys of a dictionary; a timestamp column holds
microseconds. -/
inductive ColumnType
  | bool | i8 | i16 | i32 | i64 | f32 | f64 | symbol | timestamp
deriving DecidableEq, Repr

namespace ColumnType

/-- The width in bytes of one value in column memory. -/
def width : ColumnType → Nat
  | bool | i8 => 1
  | i16 => 2
  | i32 | f32 | symbol => 4
  | i64 | f64 | timestamp => 8

/-- The name of a type. -/
def name : ColumnType → String
  | bool => "BOOL"
  | i8 => "I8"
  | i16 => "I16"
  | i32 => "I32"
  | i64 => "I64"
  | f32 => "F32"
  | f64 => "F64"
  | symbol => "SYMBOL"
  | timestamp => "TIMESTAMP"

/-- All column types. -/
def all : List ColumnType := [bool, i8, i16, i32, i64, f32, f64, symbol, timestamp]

/-- The type of that name. -/
def ofName? (s : String) : Option ColumnType := all.find? (·.name == s)

theorem width_pos (t : ColumnType) : 0 < t.width := by cases t <;> decide

end ColumnType

/-- A named and typed column. -/
structure Column where
  name : String
  type : ColumnType
deriving DecidableEq, Repr

/-- The columns of a table, in order. -/
structure Schema where
  columns : Array Column
deriving DecidableEq, Repr

namespace Schema

/-- The number of columns. -/
def size (s : Schema) : Nat := s.columns.size

/-- The column at an index. -/
def column? (s : Schema) (c : Nat) : Except Fault Column :=
  match s.columns[c]? with
  | some column => .ok column
  | none => .error .noColumn

/-- The first column of that name. -/
def indexOf? (s : Schema) (name : String) : Option Nat := s.columns.findIdx? (·.name == name)

/-- The designated timestamp column: the first one of that type. -/
def timestamp? (s : Schema) : Option Nat := s.columns.findIdx? (·.type == .timestamp)

/-- The column types, in order. -/
def types (s : Schema) : Array ColumnType := s.columns.map (·.type)

end Schema

end TableScan
