import TableScan.RowView
import TableScan.Table

/-!
# Filters

A filter judges rows.  It may keep state in a world `ω` that it shares with the other
collaborators of a scan.  Sweeping a frame with a filter gives the offsets of the rows it keeps,
or the first row on which it does not answer.
-/

namespace TableScan

/-- What a filter says about one row. -/
inductive Verdict
  | keep
  | skip
  | fails (text : String)
  | faults (fault : Fault)
deriving DecidableEq, Repr

namespace Verdict

/-- The verdict of a condition. -/
def ofBool (b : Bool) : Verdict := if b then keep else skip

end Verdict

/-- A row filter over a world. -/
structure Filter (ω : Type) where
  judge : RowView → ω → Verdict × ω
  /-- Undoes what was accumulated, before a scan is repeated. -/
  rewind : ω → ω := id
  close : ω → ω := id

/-- What a sweep over the rows of a frame comes to. -/
inductive Sweep
  | kept (rows : List Nat)
  | failed (text : String)
  | faulted (fault : Fault)
deriving DecidableEq, Repr

namespace Filter

variable {ω : Type}

/-- A sweep over the last `left` rows of the visit, with the rows kept so far, latest first. -/
def sweepLast (f : Filter ω) (order : Order) (v : RowView) (rowCount : Nat) :
    Nat → List Nat → ω → Sweep × ω
  | 0, kept, w => (.kept kept.reverse, w)
  | left + 1, kept, w =>
      let row := order.itemAt rowCount (rowCount - (left + 1))
      match f.judge (v.atRow row) w with
      | (.keep, w) => sweepLast f order v rowCount left (row :: kept) w
      | (.skip, w) => sweepLast f order v rowCount left kept w
      | (.fails text, w) => (.failed text, w)
      | (.faults fault, w) => (.faulted fault, w)

/-- A sweep over a frame's rows in the given order, up to the first row without an answer. -/
def sweep (f : Filter ω) (order : Order) (v : RowView) (rowCount : Nat) (w : ω) : Sweep × ω :=
  f.sweepLast order v rowCount rowCount [] w

/-- The filter of a condition on rows, without state. -/
def ofCondition (condition : RowView → Except Fault Bool) : Filter ω where
  judge v w :=
    match condition v with
    | .ok b => (.ofBool b, w)
    | .error fault => (.faults fault, w)

end Filter

end TableScan
