import TableScan.CommandLine.Number
import TableScan.Settings

/-!
# Options

The arguments of the command.  Arguments are taken from left to right: help and version end the
reading at once, and so does the first argument that is wrong.  An option takes its value from
behind an equals sign, or from the next argument unless that looks like an option itself; no
option comes twice.
-/

namespace TableScan.CommandLine

/-- How much the command tells. -/
inductive LogLevel
  | off | error | warn | info | debug | trace
deriving DecidableEq, Repr

namespace LogLevel

/-- The level of that name, in any case. -/
def read? (s : String) : Option LogLevel :=
  match String.ofList (s.toList.map Char.toLower) with
  | "off" => some off
  | "error" => some error
  | "warn" => some warn
  | "info" => some info
  | "debug" => some debug
  | "trace" => some trace
  | _ => none

/-- Whether the command tells how it gets on. -/
def showsInfo : LogLevel → Bool
  | off | error | warn => false
  | info | debug | trace => true

end LogLevel

/-- What is asked for on the command line. -/
structure Options where
  partitions : Nat := 16
  rowsPerPartition : Nat := 100000
  settings : Settings := {}
  /-- The price that a row has to be above of. -/
  minPrice : Binary64 := .ofRatio 990 0
  descending : Bool := false
  seed : Nat := 42
  logLevel : LogLevel := .info
deriving DecidableEq, Repr

/-- The options that take a value. -/
inductive OptionName
  | partitions | rowsPerPartition | frameRows | workers | shards | ringCapacity | minPrice | seed
  | logLevel
deriving DecidableEq, Repr

/-- What is wrong with the arguments. -/
inductive UsageError
  | unexpected (argument : String)
  | missingValue (option : String)
  | needlessValue (option : String)
  | repeated (option : String)
  | badValue (option value : String)
deriving DecidableEq, Repr

/-- The text of a usage error. -/
def UsageError.message : UsageError → String
  | unexpected argument => "unexpected argument '" ++ argument ++ "' found"
  | missingValue option => "a value is required for '--" ++ option ++ "' but none was supplied"
  | needlessValue option => "unexpected value for '--" ++ option ++ "' found"
  | repeated option => "the argument '--" ++ option ++ "' cannot be used multiple times"
  | badValue option value => "invalid value '" ++ value ++ "' for '--" ++ option ++ "'"

/-- What the arguments ask for. -/
inductive Request
  | help
  | version
  | run (options : Options)
deriving DecidableEq, Repr

namespace OptionName

/-- The option of a long name.  Words are joined by hyphens or by underscores. -/
def ofText? : String → Option OptionName
  | "partitions" => some partitions
  | "rows-per-partition" | "rows_per_partition" => some rowsPerPartition
  | "page-frame-rows" | "page_frame_rows" => some frameRows
  | "workers" => some workers
  | "shards" => some shards
  | "queue-capacity" | "queue_capacity" => some ringCapacity
  | "min-price" | "min_price" => some minPrice
  | "seed" => some seed
  | "log-level" | "log_level" => some logLevel
  | _ => none

/-- The options with a value set, if the value can be read. -/
def set? (name : OptionName) (value : String) (o : Options) : Option Options :=
  match name with
  | partitions => (readWord? value).map fun n => { o with partitions := n }
  | rowsPerPartition => (readWord? value).map fun n => { o with rowsPerPartition := n }
  | frameRows => (readWord? value).map fun n =>
      { o with settings := { o.settings with frameRows := some n } }
  | workers => (readWord? value).map fun n =>
      { o with settings := { o.settings with workforce := some n } }
  | shards => (readWord? value).map fun n =>
      { o with settings := { o.settings with ringsPerHub := some n } }
  | ringCapacity => (readWord? value).map fun n =>
      { o with settings := { o.settings with ringCapacity := some n } }
  | minPrice => (readDouble? value).map fun x => { o with minPrice := x }
  | seed => (readWord? value).map fun n => { o with seed := n }
  | logLevel => (LogLevel.read? value).map fun l => { o with logLevel := l }

end OptionName

/-- An argument by its form. -/
inductive Argument
  /-- A long option, with the value behind its equals sign. -/
  | long (name : String) (value : Option String)
  /-- Short options, the first of them told apart. -/
  | short (first : Char)
  /-- The mark after which nothing is an option. -/
  | separator
  | plain (text : String)
deriving DecidableEq, Repr

namespace Argument

/-- The form of an argument.  A lone hyphen is plain. -/
def ofString (s : String) : Argument :=
  match s.toList with
  | ['-', '-'] => separator
  | '-' :: '-' :: cs =>
      let name := String.ofList (cs.takeWhile (· != '='))
      match cs.dropWhile (· != '=') with
      | [] => long name none
      | _ :: value => long name (some (String.ofList value))
  | '-' :: c :: _ => short c
  | _ => plain s

end Argument

/-- What was given so far. -/
structure Given where
  options : Options := {}
  names : List OptionName := []

namespace Given

/-- Gives an option its value. -/
def set (g : Given) (name : OptionName) (text value : String) : Except UsageError Given :=
  if name ∈ g.names then .error (.repeated text)
  else
    match name.set? value g.options with
    | some options => .ok { options, names := name :: g.names }
    | none => .error (.badValue text value)

/-- Asks for descending order. -/
def setDescending (g : Given) : Except UsageError Given :=
  if g.options.descending then .error (.repeated "descending")
  else .ok { g with options := { g.options with descending := true } }

end Given

/-- What the rest of the arguments asks for, after what was given so far.  An option may be
waiting for its value. -/
def readFrom (g : Given) (waiting : Option (OptionName × String)) :
    List String → Except UsageError Request
  | [] =>
      match waiting with
      | none => .ok (.run g.options)
      | some (_, text) => .error (.missingValue text)
  | arg :: rest =>
      match waiting, Argument.ofString arg with
      | some (option, text), .plain value =>
          (g.set option text value).bind (readFrom · none rest)
      | some (_, text), _ => .error (.missingValue text)
      | none, .plain text => .error (.unexpected text)
      | none, .separator =>
          match rest with
          | [] => .ok (.run g.options)
          | text :: _ => .error (.unexpected text)
      | none, .short 'h' => .ok .help
      | none, .short 'V' => .ok .version
      | none, .short _ => .error (.unexpected arg)
      | none, .long "help" none => .ok .help
      | none, .long "version" none => .ok .version
      | none, .long "descending" none => g.setDescending.bind (readFrom · none rest)
      | none, .long text value =>
          match OptionName.ofText? text, value with
          | some option, some value => (g.set option text value).bind (readFrom · none rest)
          | some option, none => readFrom g (some (option, text)) rest
          | none, _ =>
              if text ∈ ["help", "version", "descending"] then .error (.needlessValue text)
              else .error (.unexpected arg)

/-- What the arguments ask for. -/
def read (args : List String) : Except UsageError Request := readFrom {} none args

end TableScan.CommandLine
