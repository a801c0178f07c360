import TableScan.Cell
import TableScan.Dictionary
import TableScan.Directory
import TableScan.RowId

/-!
# Row views

A position in a directory, with the values that can be read there.  Main statement: a read
stays inside its own frame's window (`word_eq_ok_iff`).
-/

namespace TableScan

/-- Something that can be read off a row. -/
inductive Field
  | cell (getter : Getter) (column : Nat)
  | text (column : Nat)
  | rowId
deriving DecidableEq, Repr

/-- What was read off a row. -/
inductive Reading
  | cell (value : Cell)
  | text (value : Option String)
  | rowId (value : RowId)
deriving DecidableEq, Repr

/-- A row of a directory.  The default view stands on an empty directory. -/
structure RowView where
  directory : Directory := {}
  /-- The dictionaries of the symbol columns. -/
  dictionaries : Array (Option Dictionary) := #[]
  frame : Nat := 0
  row : Nat := 0

namespace RowView

/-- The view of the first row of a directory. -/
def ofDirectory (d : Directory) (source : Dictionaries) : RowView where
  directory := d
  dictionaries := d.types.mapIdx fun c t => if t = .symbol then source.lookup c else none

/-- The view moved to a frame. -/
def atFrame (v : RowView) (frame : Nat) : RowView := { v with frame }

/-- The view moved to a row of its frame. -/
def atRow (v : RowView) (row : Nat) : RowView := { v with row }

/-- The id of the row. -/
def id (v : RowView) : RowId := .pack v.frame v.row

/-- The view moved to the row of an id. -/
def moveTo (v : RowView) (i : RowId) : RowView := { v with frame := i.frame, row := i.row }

/-- The word of `width` bytes that the row has in a column.  The width must be that of the
column's type, and the row must lie in the window of its own frame; its bytes begin and end at
places that are kept in a word. -/
def word (v : RowView) (column width : Nat) : Except Fault Nat := do
  let type ← v.directory.type? column
  if type.width ≠ width then throw .wrongType
  let offset ← inWord (v.row * width)
  let w ← v.directory.window? v.frame column
  if (← inWord (offset + width)) ≤ w.length then
    return Bytes.load w.memory (w.offset + offset) width
  throw .outOfRange

/-- The value of the row in a column. -/
def cell (v : RowView) (getter : Getter) (column : Nat) : Except Fault Cell :=
  getter.decode <$> v.word column getter.width

/-- The text of the row in a column: none without a dictionary or for a foreign key. -/
def text (v : RowView) (column : Nat) : Except Fault (Option String) := do
  match ← v.cell .int column with
  | .int key => return (v.dictionaries[column]?.join).bind (·.textOf? key)
  | _ => return none

/-- The value of a field of the row. -/
def read (v : RowView) : Field → Except Fault Reading
  | .cell getter column => .cell <$> v.cell getter column
  | .text column => .text <$> v.text column
  | .rowId => .ok (.rowId v.id)

theorem word_eq_ok_iff {v : RowView} {column width n : Nat} :
    v.word column width = .ok n ↔
      ∃ type f w, v.directory.types[column]? = some type ∧ type.width = width ∧
        v.directory.frames[v.frame]? = some f ∧ f.columns[column]? = some w ∧
        v.row * width + width ≤ w.length ∧
        n = Bytes.load w.memory (w.offset + v.row * width) width := by
  simp only [word, Directory.type?, Directory.window?, Directory.frame?, bind, Except.bind, pure,
    Except.pure, throw, throwThe, MonadExceptOf.throw]
  cases v.directory.types[column]? with
  | none => simp
  | some type =>
    by_cases ht : type.width = width
    · -- a row that lies in a window begins and ends inside of a word
      have hword : ∀ w : Window, v.row * width + width ≤ w.length →
          v.row * width < 1 <<< 64 ∧ v.row * width + width < 1 <<< 64 := by
        intro w hr
        have hw := w.word
        omega
      by_cases hlow : v.row * width < 1 <<< 64
      · cases v.directory.frames[v.frame]? with
        | none => simp [ht, inWord_eq_ok hlow]
        | some f =>
          cases hw : f.columns[column]? with
          | none => simp [ht, hw, inWord_eq_ok hlow]
          | some w =>
            by_cases hr : v.row * width + width ≤ w.length
            · simp [ht, hr, hw, inWord_eq_ok hlow, inWord_eq_ok (hword w hr).2, eq_comm]
            · by_cases hhigh : v.row * width + width < 1 <<< 64
              · simp [ht, hr, hw, inWord_eq_ok hlow, inWord_eq_ok hhigh]
              · simp [ht, hr, hw, inWord_eq_ok hlow, inWord_eq_error hhigh]
      · simp only [ht, inWord_eq_error hlow, ne_eq, not_true_eq_false, if_false]
        constructor
        · intro h
          cases h
        · rintro ⟨_, _, w, -, -, -, -, hr, -⟩
          exact absurd (hword w hr).1 hlow
    · simp [ht]

end RowView

end TableScan
