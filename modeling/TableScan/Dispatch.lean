import TableScan.Scan

/-!
# Executions

Beginning, repeating and ending an execution of a scan.  A dispatcher that is used again first
settles what it left in flight; only then are the frames opened, so that a source that fails
leaves the previous execution as it was.
-/

namespace TableScan.Scan

variable {ω : Type}

/-- Collects and gives back every slot in flight, reducing slots of the dispatcher's ring
meanwhile.  It stalls if a slot in flight is one that nobody reduces. -/
def settle (s : Scan ω) : Except Stop Unit × Scan ω :=
  if s.inbox.inFlight = [] then (.ok (), s)
  else
    match _h : s.next? with
    | .error fault => (.error (.faulted fault), s)
    | .ok (some (l, s')) => settle (s'.done l)
    | .ok none =>
        match _h' : s.reduceOne with
        | (true, s') => settle s'
        | (false, s') => (.error .stalled, s')
termination_by s.load
decreasing_by
  · rw [load_done]
    exact load_next? _h
  · exact load_reduceOne _h'

/-- Stops publishing and settles. -/
def drain (s : Scan ω) : Except Stop Unit × Scan ω :=
  settle { s with dispatcher := { s.dispatcher with position := s.dispatcher.frameCount } }

/-- Settles an execution that a new one is about to replace. -/
def replace (s : Scan ω) : Except Stop Unit × Scan ω :=
  if s.inbox.inFlight = [] then (.ok (), s)
  else (s.note (.restarted s.dispatcher.id s.inbox.inFlight.length)).drain

/-- The scan in the next epoch of its dispatcher. -/
def nextEpoch (s : Scan ω) : Scan ω :=
  { s with engine := s.engine.nextEpoch s.dispatcher.id }

/-- The shard of the dispatcher, drawn from the hub if it has none yet. -/
def drawShard (s : Scan ω) (hub : Nat) : Nat × Scan ω :=
  match s.dispatcher.shard with
  | some shard => (shard, s)
  | none =>
      let (shard, engine) := s.engine.drawShard hub
      (shard, { s with engine, dispatcher := { s.dispatcher with shard := some shard } })

/-- The ring of a hub's shard. -/
def ringOf (s : Scan ω) (hub shard : Nat) : Nat :=
  match s.engine.hubs[hub]? with
  | some h => h.ring shard
  | none => 0

/-- The dispatcher with the frames of a source in its directory and no execution. -/
def listFrames (d : Dispatcher ω) (schema : Schema) (frames : List Frame) :
    Option Fault × Dispatcher ω :=
  let (fault, directory) := (Directory.ofSchema schema).addAll frames
  (fault, { d with work := none, directory })

/-- The dispatcher at the start of an execution over the frames of its directory. -/
def begin (d : Dispatcher ω) (source : Source ω) (hub ring : Nat) (filter : Filter ω) :
    Dispatcher ω :=
  let view := RowView.ofDirectory d.directory source.dictionaries
  { d with
    work := some { dispatcher := d.id, view, filter, reducer := d.reducer }
    dictionaries := some source.dictionaries
    frameCount := d.directory.frames.size
    position := 0
    starvedAt := none
    order := source.order
    hub := some hub
    ring := some ring }

/-- Starts an execution over opened frames.  A frame that does not fit the schema stops it, with
the new epoch begun and the frames before it listed. -/
def launch (s : Scan ω) (source : Source ω) (hub : Nat) (filter : Filter ω)
    (frames : List Frame) : Except Stop Unit × Scan ω :=
  let (shard, s) := s.nextEpoch.drawShard hub
  match listFrames s.dispatcher source.schema frames with
  | (some fault, dispatcher) => (.error (.faulted fault), { s with dispatcher })
  | (none, dispatcher) =>
      let ring := s.ringOf hub shard
      let s := { s with
        dispatcher := begin dispatcher source hub ring filter, inbox := s.inbox.subscribe ring }
      (.ok (), s.publish)

/-- Starts a new execution over the frames of a source. -/
def dispatch (s : Scan ω) (source : Source ω) (hub : Nat) (filter : Filter ω) :
    Except Stop Unit × Scan ω :=
  match s.replace with
  | (.error stop, s) => (.error stop, s)
  | (.ok (), s) =>
      let (opened, world) := source.supply s.engine.world
      let s := { s with engine := s.engine.withWorld world }
      match opened with
      | .error stop => (.error stop, s)
      | .ok frames => s.launch source hub filter frames

/-- Undoes what the filter of the execution has accumulated. -/
def rewindFilter (s : Scan ω) : Scan ω :=
  match s.dispatcher.work with
  | some work => { s with engine := s.engine.withWorld (work.filter.rewind s.engine.world) }
  | none => s

/-- Goes back to the first frame in a new epoch.  Slots in flight are left to the consumer, who
passes over them. -/
def rewind (s : Scan ω) : Scan ω :=
  if s.dispatcher.isActive then
    let s := s.nextEpoch
    { s with dispatcher := { s.dispatcher with position := 0, starvedAt := none } }.publish
  else s

/-- Ends the execution. -/
def clear (s : Scan ω) : Scan ω := { s with dispatcher := s.dispatcher.clear }

end TableScan.Scan
