/-!
# Dictionaries

The texts of a symbol column and their keys.  Keys are dense, in the order in which the texts
came.
-/

namespace TableScan

/-- The texts of a symbol column; the key of a text is its place. -/
structure Dictionary where
  texts : Array String := #[]
deriving DecidableEq, Repr

namespace Dictionary

/-- The number of texts. -/
def size (d : Dictionary) : Nat := d.texts.size

/-- The key of a text. -/
def keyOf? (d : Dictionary) (text : String) : Option Int32 :=
  (d.texts.idxOf? text).map Int32.ofNat

/-- The text of a key. -/
def textOf? (d : Dictionary) (key : Int32) : Option String :=
  if 0 ≤ key.toInt then d.texts[key.toInt.toNat]? else none

/-- The key of a text, and the dictionary with that text in it. -/
def put (d : Dictionary) (text : String) : Int32 × Dictionary :=
  match d.keyOf? text with
  | some key => (key, d)
  | none => (Int32.ofNat d.size, ⟨d.texts.push text⟩)

/-- The dictionary with all of these texts in it. -/
def putAll (d : Dictionary) (texts : List String) : Dictionary :=
  texts.foldl (fun d text => (d.put text).2) d

end Dictionary

/-- Dictionaries by column index. -/
structure Dictionaries where
  entries : List (Nat × Dictionary) := []
deriving DecidableEq, Repr

namespace Dictionaries

/-- The dictionary of a column. -/
def lookup (s : Dictionaries) (column : Nat) : Option Dictionary := s.entries.lookup column

/-- The source with this dictionary for a column. -/
def attach (s : Dictionaries) (column : Nat) (d : Dictionary) : Dictionaries :=
  ⟨(column, d) :: s.entries.filter (·.1 != column)⟩

end Dictionaries

end TableScan
