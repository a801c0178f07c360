import TableScan.CommandLine.Report

/-!
# Runs of the command

The outer side of a run: the quotes that a seed stands for, and the text that is told.
-/

namespace TableScan

namespace Quote

/-- The venues, in the order of their keys when each comes up in turn. -/
def venues : Array String := #["LSE", "NYSE", "XETR", "TSE"]

/-- A word scattered over all words. -/
def scatter (n : UInt64) : UInt64 :=
  let n := (n ^^^ (n >>> 30)) * 0xBF58476D1CE4E5B9
  let n := (n ^^^ (n >>> 27)) * 0x94D049BB133111EB
  n ^^^ (n >>> 31)

/-- The quote at a place of the sequence that a seed stands for.  Prices are below 1000, in
steps of one part in 1024. -/
def ofSeed (seed place : Nat) : Quote :=
  let word := scatter (UInt64.ofNat seed + UInt64.ofNat (place + 1) * 0x9E3779B97F4A7C15)
  { price := .ofRatio (word.toNat >>> 8 % 1024000) 10
    venue := venues[word.toNat % 4]?.getD "" }

end Quote

namespace CommandLine

/-- A price with two places. -/
def priceText (x : Binary64) : String :=
  let hundredths := x.hundredths
  let cents := toString (hundredths % 100)
  (if x.isNegative then "-" else "") ++ toString (hundredths / 100) ++ "." ++
    (if cents.length < 2 then "0" else "") ++ cents

/-- A row of the report as text. -/
def ReportRow.render (r : ReportRow) : String :=
  r.venue.getD "?" ++ "@" ++ toString r.time.toInt ++ ":" ++ priceText r.price

/-- The lines that a run tells, as far as it came. -/
def Outcome.lines (o : Outcome) (settings : Settings) : List String :=
  let generated := o.generated.map fun (partitions, rows) =>
    "generated table [partitions=" ++ toString partitions ++ ", rows=" ++ toString rows ++ "]"
  let found := match o.result with
    | .ok r =>
        ["first rows: " ++ ", ".intercalate (r.firstRows.toList.map ReportRow.render),
          "matched " ++ toString r.matched ++ " rows [workers=" ++ toString settings.workers ++
            ", shards=" ++ toString settings.shards ++ ", claimed=" ++ toString r.tally.claimed ++
            ", released=" ++ toString r.tally.released ++ "]"]
    | .error _ => []
  generated.toList ++ found

end CommandLine

end TableScan
