import TableScan.CommandLine.Options
import TableScan.CommandLine.Synthetic
import TableScan.Plan
import TableScan.Workers

/-!
# Reports

A run of the command scans a synthetic table for the rows above a price and reports what it found.
The quotes of the table are given, and so are the steps that the workers take between the calls.
-/

namespace TableScan.CommandLine

/-- A row of the report. -/
structure ReportRow where
  venue : Option String
  time : Int64
  price : Binary64
deriving DecidableEq, Repr

/-- What a scan found. -/
structure Report where
  /-- The first rows found, at most five. -/
  firstRows : Array ReportRow := #[]
  matched : Nat := 0
  /-- The slots that the scan leased and gave back, before its cursor is closed. -/
  tally : Tally := {}
deriving DecidableEq, Repr

/-- What a run comes to. -/
structure Outcome where
  /-- The partitions and rows of the table, once it is made. -/
  generated : Option (Nat × Nat)
  result : Except Stop Report

/-- The exit code of a run. -/
def Outcome.exitCode (o : Outcome) : UInt8 :=
  match o.result with
  | .ok _ => 0
  | .error (.failed _) => 1
  | .error _ => 101

/-- The filter for rows whose price is above a limit. -/
def aboveFilter (limit : Binary64) : Filter Unit :=
  .ofCondition fun v => do
    match ← v.cell .double 1 with
    | .double price => return limit.lt price
    | _ => return false

/-- The row that a view stands on. -/
def ReportRow.ofView (v : RowView) : Except Fault ReportRow := do
  let time ← v.cell .timestamp 0
  let price ← v.cell .double 1
  let venue ← v.text 2
  match time, price with
  | .long time, .double price => return { venue, time, price }
  | _, _ => throw .wrongType

/-- The report with one more row.  The first five are kept. -/
def Report.add (r : Except Fault Report) (v : RowView) : Except Fault Report := do
  let r ← r
  if r.firstRows.size < 5 then
    return { r with firstRows := r.firstRows.push (← ReportRow.ofView v), matched := r.matched + 1 }
  return { r with matched := r.matched + 1 }

/-- The scan of a table for the rows above a price, from a new engine to the closed cursor.  The
crew of the engine is at work before the cursor is opened and after each of its calls, as the rota
has it. -/
def scanTable (t : Table) (settings : Settings) (limit : Binary64) (rota : Rota) :
    Except Stop Report := do
  let engine : Engine Unit := { world := () }
  let (hub, engine) ← Stop.ofFault (engine.addHub? settings)
  let (crew, engine) := (Crew.start hub settings).work engine (rota 0)
  let (plan, engine) := Plan.make t.toSource (aboveFilter limit) engine
  let (cursor, plan, engine) := plan.openCursor hub engine
  let (crew, s) := crew.workBeside (plan.scan engine) (rota 1)
  let (report, cursor, s) :=
    (← cursor).foldBeside Report.add (.ok {}) (fun n => rota (n + 2)) crew s
  let report ← Stop.ofFault (← report)
  let (closed, _, _) := cursor.close s
  closed
  return { report with tally := s.engine.tally plan.inbox.id }

/-- The order in which a run visits the rows. -/
def Options.order (o : Options) : Order := if o.descending then .descending else .ascending

/-- The table of a run. -/
def Options.table (o : Options) (quotes : Nat → Quote) : Except Stop Table :=
  Synthetic.table quotes o.partitions o.rowsPerPartition o.settings o.order

/-- A run over a table: what was made, and what a scan of it found. -/
def Outcome.ofTable (table : Except Stop Table) (scan : Table → Except Stop Report) : Outcome :=
  match table with
  | .error stop => ⟨none, .error stop⟩
  | .ok t => ⟨some (t.partitions.size, t.rowCount), scan t⟩

/-- A run over a table of the given quotes, on a machine: it has to lay out the list of the
partitions before the table is made, and the rings and the places of the workers afterwards. -/
def runLaidOut (o : Options) (quotes : Nat → Quote)
    (rota : Rota := .inTurn o.settings.workers) : Outcome :=
  .ofTable (do Stop.ofFault (layOut o.partitions 24); o.table quotes) fun t => do
    Stop.ofFault o.settings.layOut
    scanTable t o.settings o.minPrice rota

end TableScan.CommandLine
