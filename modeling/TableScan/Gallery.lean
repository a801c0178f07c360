import TableScan.Register
import TableScan.RowView

/-!
# Galleries

Views over shared directories.  A directory is drafted, then shown; views bound to it share it
from then on, and a view taken from another shares its directory.
-/

namespace TableScan

/-- A view, with the number of the directory that it shares. -/
structure SharedView where
  number : Nat
  view : RowView

/-- A draft, the directory on show, and views by name. -/
structure Gallery where
  draft : Directory := {}
  shown : Directory := {}
  /-- The number of the directory on show. -/
  shownNumber : Nat := 0
  /-- The number for the next directory. -/
  nextNumber : Nat := 1
  views : Register SharedView := {}

namespace Gallery

/-- Shows the draft and begins a new one. -/
def freeze (g : Gallery) : Gallery :=
  { g with
    draft := {}, shown := g.draft, shownNumber := g.nextNumber, nextNumber := g.nextNumber + 1 }

/-- A view over an empty directory of its own. -/
def addView (g : Gallery) (name : String) : Gallery :=
  { g with
    views := g.views.bind name ⟨g.nextNumber, {}⟩, nextNumber := g.nextNumber + 1 }

/-- A view of the directory on show. -/
def bindView (g : Gallery) (name : String) (source : Dictionaries) : Gallery :=
  { g with views := g.views.bind name ⟨g.shownNumber, .ofDirectory g.shown source⟩ }

/-- The view of that name. -/
def view? (g : Gallery) (name : String) : Option RowView := (g.views.find? name).map (·.view)

/-- Changes the view of a name, which keeps its directory. -/
def moveView (g : Gallery) (name : String) (f : RowView → RowView) : Gallery :=
  match g.views.find? name with
  | some v => { g with views := g.views.bind name { v with view := f v.view } }
  | none => g

/-- A second view over the directory of another. -/
def cloneView (g : Gallery) (name copy : String) : Gallery :=
  match g.views.find? name with
  | some v => { g with views := g.views.bind copy v }
  | none => g

/-- Whether two views share one directory. -/
def share (g : Gallery) (a b : String) : Bool :=
  match g.views.find? a, g.views.find? b with
  | some v, some w => v.number == w.number
  | _, _ => false

end Gallery

end TableScan
