import TableScan.Settings
import TableScan.Task

/-!
# Rings

A ring of slots belongs to one shard.  A slot is claimed, published, reduced, leased and put
back; at each stage its task has one owner.  Free slots are handed out in the order in which
they came back, and published slots are reduced in the order of publication.
-/

namespace TableScan

variable {ω : Type}

/-- The stages of a slot's life. -/
inductive Stage
  | free | claimed | published | reduced | leased
deriving DecidableEq, Repr

/-- A slot and its task. -/
structure Slot (ω : Type) where
  stage : Stage := .free
  task : Task ω := {}

/-- The slots of one shard. -/
structure Ring (ω : Type) where
  shard : Nat
  slots : Array (Slot ω)
  /-- The free slots, next one first. -/
  free : List Nat
  /-- The published slots that nobody has reduced, oldest first. -/
  pending : List Nat := []

namespace Ring

/-- A ring with all its slots free. -/
def ofCapacity (shard capacity : Nat) : Ring ω :=
  { shard, slots := Array.replicate capacity {}, free := List.range capacity }

/-- A ring of at least `capacity` slots: their number is a power of two. -/
def make? (shard capacity : Nat) : Except Fault (Ring ω) :=
  ofCapacity shard <$> powerOfTwo? (max 1 capacity)

/-- The number of slots. -/
def capacity (r : Ring ω) : Nat := r.slots.size

/-- The number of slots that can be claimed. -/
def available (r : Ring ω) : Nat := r.free.length

/-- The stage of a slot. -/
def stage (r : Ring ω) (slot : Nat) : Stage :=
  match r.slots[slot]? with
  | some s => s.stage
  | none => .free

/-- The task of a slot. -/
def task (r : Ring ω) (slot : Nat) : Task ω :=
  match r.slots[slot]? with
  | some s => s.task
  | none => {}

/-- The ring with a slot moved to a stage. -/
def setStage (r : Ring ω) (slot : Nat) (stage : Stage) : Ring ω :=
  { r with slots := r.slots.modify slot fun s => { s with stage } }

/-- The ring with the task of a slot changed. -/
def modifyTask (r : Ring ω) (slot : Nat) (f : Task ω → Task ω) : Ring ω :=
  { r with slots := r.slots.modify slot fun s => { s with task := f s.task } }

/-- Claims the next free slot. -/
def claim (r : Ring ω) : Ring ω :=
  match r.free with
  | [] => r
  | slot :: rest => { r with free := rest }.setStage slot .claimed

/-- Hands a claimed slot over for reduction. -/
def publish (r : Ring ω) (slot : Nat) : Ring ω :=
  { r.setStage slot .published with pending := r.pending ++ [slot] }

/-- Puts a slot back among the free ones. -/
def putBack (r : Ring ω) (slot : Nat) : Ring ω :=
  { (r.modifyTask slot Task.cleared).setStage slot .free with free := r.free ++ [slot] }

/-- Leases a reduced slot to its consumer. -/
def lease (r : Ring ω) (slot : Nat) : Ring ω := r.setStage slot .leased

/-- Whether a slot waits to be collected. -/
def isCollectable (r : Ring ω) (slot : Nat) : Bool := r.stage slot == .reduced

/-- The pending list from its first published slot on. -/
def due (r : Ring ω) : List Nat := r.pending.dropWhile (r.stage · != .published)

/-- The ring after the first due slot was reduced to the given task. -/
def reduceTo (r : Ring ω) (slot : Nat) (rest : List Nat) (task : Task ω) : Ring ω :=
  { (r.modifyTask slot fun _ => task).setStage slot .reduced with pending := rest }

@[simp] theorem pending_setStage (r : Ring ω) (i : Nat) (s : Stage) :
    (r.setStage i s).pending = r.pending := rfl

@[simp] theorem pending_modifyTask (r : Ring ω) (i : Nat) (f : Task ω → Task ω) :
    (r.modifyTask i f).pending = r.pending := rfl

@[simp] theorem pending_claim (r : Ring ω) : r.claim.pending = r.pending := by
  unfold claim; split <;> rfl

@[simp] theorem pending_publish (r : Ring ω) (i : Nat) :
    (r.publish i).pending = r.pending ++ [i] := rfl

@[simp] theorem pending_putBack (r : Ring ω) (i : Nat) : (r.putBack i).pending = r.pending := rfl

@[simp] theorem pending_lease (r : Ring ω) (i : Nat) : (r.lease i).pending = r.pending := rfl

@[simp] theorem pending_reduceTo (r : Ring ω) (i : Nat) (rest : List Nat) (t : Task ω) :
    (r.reduceTo i rest t).pending = rest := rfl

theorem length_due_le (r : Ring ω) : r.due.length ≤ r.pending.length :=
  (List.dropWhile_suffix _).length_le

end Ring

end TableScan
