import TableScan.Table

/-!
# Synthetic tables

A table of quotes to try a scan on: a timestamp, a price and a venue, partition after partition.
-/

namespace TableScan

/-- A price at a venue. -/
structure Quote where
  price : Binary64
  venue : String
deriving DecidableEq, Repr

namespace Synthetic

/-- The columns of the table. -/
def schema : Schema := ⟨#[⟨"ts", .timestamp⟩, ⟨"price", .f64⟩, ⟨"venue", .symbol⟩]⟩

/-- The timestamp of the row at a place of the whole table: one second after the last one. -/
def timestamp (place : Nat) : Except Fault Int64 :=
  if place * 1000000 < 1 <<< 64 then .ok (Int64.ofNat (place * 1000000)) else .error .overflow

/-- The columns of one partition, while they are filled. -/
structure Columns where
  times : ColumnBuffer := { type := .timestamp }
  prices : ColumnBuffer := { type := .f64 }
  venues : ColumnBuffer := { type := .symbol }

/-- Adds the row at a place of the table. -/
def addRow (quotes : Nat → Quote) (s : Columns × Dictionary) (place : Nat) :
    Except Fault (Columns × Dictionary) := do
  let (columns, dictionary) := s
  let quote := quotes place
  let times ← columns.times.push (.long (← timestamp place))
  let prices ← columns.prices.push (.double quote.price)
  let (venues, dictionary) := columns.venues.pushText dictionary quote.venue
  return ({ times, prices, venues := ← venues }, dictionary)

/-- The columns of the partition that starts at a place. -/
def partition (quotes : Nat → Quote) (rows first : Nat) (dictionary : Dictionary) :
    Except Fault (Columns × Dictionary) :=
  (List.range rows).foldlM (fun s r => addRow quotes s (first + r)) ({}, dictionary)

/-- A table with a partition added. -/
def grow (quotes : Nat → Quote) (rows : Nat) (t : Table × Dictionary) (index : Nat) :
    Except Stop (Table × Dictionary) := do
  let (columns, dictionary) ←
    Stop.ofFault (partition quotes rows (index * rows) t.2)
  match t.1.append [columns.times, columns.prices, columns.venues] with
  | .ok table => return (table, dictionary)
  | .error e => throw (.failed e.toFailure)

/-- A table of so many partitions of so many rows. -/
def table (quotes : Nat → Quote) (partitions rows : Nat) (settings : Settings) (order : Order) :
    Except Stop Table := do
  let (table, dictionary) ← (List.range partitions).foldlM (grow quotes rows)
    ({ Table.ofSchema schema settings with order }, {})
  return { table with dictionaries := Dictionaries.attach {} 2 dictionary }

end Synthetic

end TableScan
