import TableScan.Reducer

/-!
# Tasks

A task asks for one frame of one execution to be reduced.  It travels through a slot of a ring
and comes back with the rows found or with an error.
-/

namespace TableScan

variable {ω : Type}

/-- What it takes to reduce any frame of one execution of a scan. -/
structure Work (ω : Type) where
  /-- The dispatcher that published the execution. -/
  dispatcher : Nat
  view : RowView
  filter : Filter ω
  reducer : Reducer ω

/-- The contents of a slot. -/
structure Task (ω : Type) where
  /-- The dispatcher that wrote the task; zero for a task that was never written. -/
  dispatcher : Nat := 0
  epoch : Nat := 0
  frame : Nat := 0
  rowCount : Nat := 0
  rows : List Nat := []
  error : Option Failure := none
  work : Option (Work ω) := none

namespace Task

/-- The task for a frame, before it is reduced. -/
def ask (work : Work ω) (epoch frame rowCount : Nat) : Task ω :=
  { dispatcher := work.dispatcher, epoch, frame, rowCount, work := some work }

/-- The task without its results and its work.  What it was about stays legible. -/
def cleared (t : Task ω) : Task ω := { t with rows := [], error := none, work := none }

/-- The text of the error that stands in for a reducer that gave up. -/
def abandonedText : String := "reducer panicked"

/-- The task with the result of its reduction. -/
def finish (t : Task ω) : Reduction → Task ω
  | .finished rows error => { t with rows, error }
  | .failed failure => { t with rows := [], error := some failure }
  | .faulted _ => { t with rows := [], error := some (.predicate t.frame abandonedText) }

/-- Runs a task.  Without work it stays as it is; a task of an epoch that has passed comes back
empty and costs nothing.  The fault of a reducer that gave up is told apart. -/
def run (t : Task ω) (epochOf : Nat → Nat) (w : ω) : Task ω × Option Fault × ω :=
  match t.work with
  | none => (t, none, w)
  | some work =>
      if t.epoch ≠ epochOf work.dispatcher then ({ t with rows := [] }, none, w)
      else
        match work.reducer ⟨t.frame, t.rowCount⟩ (work.view.atFrame t.frame) work.filter w with
        | (.faulted fault, w) => (t.finish (.faulted fault), some fault, w)
        | (result, w) => (t.finish result, none, w)

end Task

end TableScan
