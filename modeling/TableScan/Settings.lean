import TableScan.Failure

/-!
# Settings

The engine's knobs.  Each is optional and has a default.
-/

namespace TableScan

/-- The knobs of the engine; `none` stands for the default.  Times are in microseconds. -/
structure Settings where
  ringsPerHub : Option Nat := none
  ringCapacity : Option Nat := none
  workforce : Option Nat := none
  frameRows : Option Nat := none
  idleWait : Option Nat := none
  patience : Option Nat := none
deriving DecidableEq, Repr

/-- The least power of two that is at least `n`.  A word holds none above `2 ^ 63`. -/
def powerOfTwo? (n : Nat) : Except Fault Nat :=
  if n ≤ 1 <<< 63 then .ok n.nextPowerOfTwo else .error .overflow

/-- Lays out a list of `count` items of `width` bytes each: the bytes of a list are counted in 63
bits. -/
def layOut (count width : Nat) : Except Fault Unit :=
  if count * width < 1 <<< 63 then .ok () else .error .overflow

/-- The bytes that a slot of a ring takes. -/
def slotWidth : Nat := 128

namespace Settings

/-- The number of rings of a hub, at least one. -/
def shards (s : Settings) : Nat := max 1 (s.ringsPerHub.getD 4)

/-- The number of slots of a ring, a power of two. -/
def capacity? (s : Settings) : Except Fault Nat := powerOfTwo? (max 1 (s.ringCapacity.getD 64))

/-- The number of workers.  With none, the consumers reduce every frame themselves. -/
def workers (s : Settings) : Nat := s.workforce.getD 4

/-- The most rows that a frame spans, at least one. -/
def rowsPerFrame (s : Settings) : Nat := max 1 (s.frameRows.getD 65536)

/-- Lays out the slots of a ring, the list of the rings and the places of the workers. -/
def layOut (s : Settings) : Except Fault Unit := do
  TableScan.layOut (← s.capacity?) slotWidth
  TableScan.layOut s.shards 8
  TableScan.layOut s.workers 8

/-- How long a worker without work sleeps. -/
def idleTime (s : Settings) : Nat := s.idleWait.getD 5000

/-- How long a consumer stands before a saturated ring. -/
def standingTime (s : Settings) : Nat := s.patience.getD 1000000

end Settings

end TableScan
