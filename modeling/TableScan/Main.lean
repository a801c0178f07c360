import TableScan.CommandLine.Run

/-!
# The command

Scans a synthetic table and tells what it found.
-/

namespace TableScan.CommandLine

/-- The text shown for help. -/
def helpText : String :=
  "Runs a parallel filtered scan over a synthetic table\n\n" ++
  "Usage: tablescan [OPTIONS]\n\n" ++
  "Options:\n" ++
  "      --partitions <N>          Number of partitions to generate [default: 16]\n" ++
  "      --rows-per-partition <N>  Rows per partition [default: 100000]\n" ++
  "      --page-frame-rows <N>     Most rows of a frame (default: 65536)\n" ++
  "      --workers <N>             Number of workers (default: 4)\n" ++
  "      --shards <N>              Number of rings (default: 4)\n" ++
  "      --queue-capacity <N>      Slots of a ring (default: 64)\n" ++
  "      --min-price <PRICE>       Keep rows whose price is above this [default: 990]\n" ++
  "      --descending              Scan partitions from last to first\n" ++
  "      --seed <SEED>             Seed of the generated data [default: 42]\n" ++
  "      --log-level <LEVEL>       off, error, warn, info, debug, trace (default: info)\n" ++
  "  -h, --help                    Print help\n" ++
  "  -V, --version                 Print version"

/-- Carries a request out and gives the exit code. -/
def perform (request : Except UsageError Request) : IO UInt8 := do
  match request with
  | .error e =>
      IO.eprintln ("error: " ++ e.message)
      return 2
  | .ok .help =>
      IO.println helpText
      return 0
  | .ok .version =>
      IO.println "tablescan 0.1.0"
      return 0
  | .ok (.run options) =>
      let outcome := runLaidOut options (Quote.ofSeed options.seed)
      if options.logLevel.showsInfo then
        for line in outcome.lines options.settings do
          IO.eprintln line
      match outcome.result with
      | .error (.failed failure) => IO.eprintln ("Error: " ++ failure.message)
      | _ => pure ()
      return outcome.exitCode

end TableScan.CommandLine

/-- Runs the command with its arguments. -/
def main (args : List String) : IO UInt32 := do
  return (← TableScan.CommandLine.perform (TableScan.CommandLine.read args)).toUInt32
