/-!
# Ways for a call to stop

A call of the library gives its answer, or it stops in one of three ways: it *fails* with an
error that is part of its contract (`Failure`), it is *faulted* because it was made outside its
contract (`Fault`), or it *stalls*, waiting for something that nobody will do.
-/

namespace TableScan

/-- A use outside a call's contract.  Such a call does not return. -/
inductive Fault
  /-- A column index past the last column. -/
  | noColumn
  /-- A frame index past the last frame. -/
  | noFrame
  /-- A value is read or written with the width or the type of another column type. -/
  | wrongType
  /-- A byte range reaches past its memory. -/
  | outOfRange
  /-- A number leaves the 64 bits it is kept in. -/
  | overflow
  /-- A frame whose column count is not that of its schema. -/
  | columnCount
  /-- A slot index past the last slot of a ring. -/
  | noSlot
  /-- A task turns up that is not the next one of its scan. -/
  | outOfOrder
  /-- A name that nothing bears. -/
  | unknownName
  /-- A collaborator gave up: a division by zero in a filter, a reducer that refuses to go on. -/
  | abandoned
deriving DecidableEq, Repr

/-- A number that is kept in a word of 64 bits. -/
def inWord (n : Nat) : Except Fault Nat := if n < 1 <<< 64 then .ok n else .error .overflow

theorem inWord_eq_ok {n : Nat} (h : n < 1 <<< 64) : inWord n = .ok n := if_pos h

theorem inWord_eq_error {n : Nat} (h : ¬ n < 1 <<< 64) : inWord n = .error .overflow := if_neg h

/-- An error of a scan. -/
inductive Failure
  | io (text : String)
  /-- The filter failed on a row of this frame. -/
  | predicate (frame : Nat) (text : String)
  /-- The frame source could not supply its frames. -/
  | source (text : String)
  | argument (text : String)
  /-- Every slot of the shard's ring stayed with other consumers. -/
  | saturated (shard waitedMs : Nat)
deriving DecidableEq, Repr

namespace Failure

/-- The text of an error. -/
def message : Failure → String
  | io text => "IO error: " ++ text
  | predicate frame text => "Filter failed at frame " ++ toString frame ++ ": " ++ text
  | source text => "Page frame source error: " ++ text
  | argument text => "Invalid argument: " ++ text
  | saturated shard waitedMs =>
      "Reduce queue of shard " ++ toString shard ++ " stayed saturated for " ++
        toString waitedMs ++ " ms"

end Failure

/-- A way for a call to end without an answer. -/
inductive Stop
  | failed (failure : Failure)
  | faulted (fault : Fault)
  /-- The call waits for slots that nobody is going to reduce. -/
  | stalled
deriving DecidableEq, Repr

/-- The outcome of a call that can only be faulted, as one that can stop. -/
def Stop.ofFault {α : Type} : Except Fault α → Except Stop α
  | .ok a => .ok a
  | .error fault => .error (.faulted fault)

end TableScan
