import TableScan.Cursor

/-!
# Plans

A filter over a source, ready to be executed any number of times, one execution after the other.
-/

namespace TableScan

variable {ω : Type}

/-- A filtered source, with the dispatcher and the inbox of its executions. -/
structure Plan (ω : Type) where
  source : Source ω
  filter : Filter ω
  dispatcher : Dispatcher ω
  inbox : Inbox

namespace Plan

/-- A new plan on an engine.  Rows are visited in the order of the source. -/
def make (source : Source ω) (filter : Filter ω) (e : Engine ω) : Plan ω × Engine ω :=
  let (id, e) := e.addDispatcher
  let (inbox, e) := e.addInbox
  ({ source, filter, dispatcher := { id, reducer := .filtering source.order },
     inbox := { id := inbox } }, e)

/-- The plan at work on an engine. -/
def scan (p : Plan ω) (engine : Engine ω) : Scan ω :=
  { dispatcher := p.dispatcher, inbox := p.inbox, engine }

/-- The plan with the dispatcher and the inbox of a scan. -/
def ofScan (p : Plan ω) (s : Scan ω) : Plan ω :=
  { p with dispatcher := s.dispatcher, inbox := s.inbox }

/-- Executes a plan and opens a cursor on the execution. -/
def openCursor (p : Plan ω) (hub : Nat) (e : Engine ω) : Except Stop Cursor × Plan ω × Engine ω :=
  match (p.scan e).dispatch p.source hub p.filter with
  | (.error stop, s) => (.error stop, p.ofScan s, s.engine)
  | (.ok (), s) =>
      let (cursor, s) := Cursor.openOn s
      (cursor, p.ofScan s, s.engine)

/-- Closes the source, then the filter. -/
def close (p : Plan ω) (w : ω) : ω := p.filter.close (p.source.close w)

end Plan

end TableScan
