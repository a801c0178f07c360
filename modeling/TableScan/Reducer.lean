import TableScan.Filter

/-!
# Reducers

A reducer turns one frame into a list of row offsets.  The library's own reducer sweeps the
frame with the filter in a given order.
-/

namespace TableScan

variable {ω : Type}

/-- The frame that a reducer is to work on. -/
structure FrameInfo where
  frame : Nat
  rowCount : Nat
deriving DecidableEq, Repr

/-- What a reducer leaves behind. -/
inductive Reduction
  /-- The rows found, and an error left beside them. -/
  | finished (rows : List Nat) (error : Option Failure)
  | failed (failure : Failure)
  | faulted (fault : Fault)
deriving DecidableEq, Repr

/-- The work on one frame, whose view stands on the frame already. -/
abbrev Reducer (ω : Type) := FrameInfo → RowView → Filter ω → ω → Reduction × ω

/-- The result of a sweep as that of a reduction: a failing filter is named with its frame. -/
def Sweep.toReduction (frame : Nat) : Sweep → Reduction
  | kept rows => .finished rows none
  | failed text => .failed (.predicate frame text)
  | faulted fault => .faulted fault

namespace Reducer

/-- The reducer that keeps the rows the filter keeps, in the given order. -/
def filtering (order : Order) : Reducer ω := fun info v f w =>
  let (sweep, w) := f.sweep order v info.rowCount w
  (sweep.toReduction info.frame, w)

/-- One reducer after another; the second starts afresh, and runs only if the first one
finished. -/
def followedBy (first second : Reducer ω) : Reducer ω := fun info v f w =>
  match first info v f w with
  | (.finished _ _, w) => second info v f w
  | stopped => stopped

end Reducer

end TableScan
