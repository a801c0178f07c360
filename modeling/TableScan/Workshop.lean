import TableScan.Plan
import TableScan.Register

/-!
# Workshops

Everything that works on one engine, by name: plans, bare dispatchers and inboxes, claims and
leases held by hand, open cursors and row views.  A session is a run of operations on a workshop;
each operation works on the objects it names and on the shared engine, and on nothing else.
-/

namespace TableScan

variable {ω : Type}

/-- Who owns a dispatcher or an inbox: a plan, or nobody but its name. -/
inductive Owner
  | own (name : String)
  | plan (name : String)
deriving DecidableEq, Repr

/-- The dispatcher and the inbox of a scan. -/
structure Site where
  dispatcher : Owner
  inbox : Owner
deriving DecidableEq, Repr

/-- The site of a plan's own executions. -/
def Site.ofPlan (plan : String) : Site := ⟨.plan plan, .plan plan⟩

/-- A claimed slot in the hands of a producer. -/
structure Claim where
  ring : Nat
  slot : Nat
deriving DecidableEq, Repr

/-- A cursor and the scan it reads. -/
structure OpenCursor where
  site : Site
  cursor : Cursor

/-- All that works on one engine. -/
structure Workshop (ω : Type) where
  engine : Engine ω
  plans : Register (Plan ω) := {}
  dispatchers : Register (Dispatcher ω) := {}
  inboxes : Register Inbox := {}
  rings : Register Nat := {}
  claims : Register Claim := {}
  leases : Register Lease := {}
  cursors : Register OpenCursor := {}
  views : Register RowView := {}

/-- A workshop with a hub for each of these settings, as far as a machine can lay the rings
out. -/
def Workshop.make? (world : ω) (settings : List Settings) : Except Fault (Workshop ω) := do
  let addHub (e : Engine ω) (s : Settings) : Except Fault (Engine ω) := do
    s.layOut
    return (← e.addHub? s).2
  return { engine := ← settings.foldlM addHub { world } }

/-- An operation on a workshop.  What it has done before it stops stays done. -/
abbrev Session (ω : Type) (α : Type) : Type := ExceptT Stop (StateM (Workshop ω)) α

namespace Session

/-! ## Access by name -/

/-- The thing of that name; there has to be one. -/
def named {α : Type} (r : Workshop ω → Register α) (name : String) : Session ω α := do
  match (r (← get)).find? name with
  | some a => return a
  | none => throw (.faulted .unknownName)

/-- The shared engine. -/
def engine : Session ω (Engine ω) := return (← get).engine

/-- Changes the shared engine. -/
def modifyEngine (f : Engine ω → Engine ω) : Session ω Unit :=
  modify fun s => { s with engine := f s.engine }

/-- Changes the shared engine, with a result. -/
def runEngine {α : Type} (f : Engine ω → α × Engine ω) : Session ω α :=
  modifyGet fun s => ((f s.engine).1, { s with engine := (f s.engine).2 })

/-- Changes the world of the collaborators, with a result. -/
def runWorld {α : Type} (f : ω → α × ω) : Session ω α :=
  runEngine fun e => let (a, w) := f e.world; (a, e.withWorld w)

/-- The outcome of a call that can be faulted. -/
def ofFault {α : Type} (x : Except Fault α) : Session ω α := ofExcept (Stop.ofFault x)

/-- The dispatcher of an owner. -/
def dispatcher : Owner → Session ω (Dispatcher ω)
  | .own name => named Workshop.dispatchers name
  | .plan name => return (← named Workshop.plans name).dispatcher

/-- The inbox of an owner. -/
def inbox : Owner → Session ω Inbox
  | .own name => named Workshop.inboxes name
  | .plan name => return (← named Workshop.plans name).inbox

/-- Puts a dispatcher back with its owner. -/
def putDispatcher (d : Dispatcher ω) : Owner → Session ω Unit
  | .own name => modify fun s => { s with dispatchers := s.dispatchers.bind name d }
  | .plan name => do
      let p ← named Workshop.plans name
      modify fun s => { s with plans := s.plans.bind name { p with dispatcher := d } }

/-- Puts an inbox back with its owner. -/
def putInbox (k : Inbox) : Owner → Session ω Unit
  | .own name => modify fun s => { s with inboxes := s.inboxes.bind name k }
  | .plan name => do
      let p ← named Workshop.plans name
      modify fun s => { s with plans := s.plans.bind name { p with inbox := k } }

/-- The scan of a site. -/
def scan (site : Site) : Session ω (Scan ω) := do
  return {
    dispatcher := ← dispatcher site.dispatcher
    inbox := ← inbox site.inbox
    engine := ← engine }

/-- Puts the parts of a scan back. -/
def putScan (site : Site) (s : Scan ω) : Session ω Unit := do
  putDispatcher s.dispatcher site.dispatcher
  putInbox s.inbox site.inbox
  modifyEngine fun _ => s.engine

/-- An operation on the scan of a site. -/
def onScan {α : Type} (site : Site) (f : Scan ω → Except Stop α × Scan ω) : Session ω α := do
  let (result, s) := f (← scan site)
  putScan site s
  ofExcept result

/-- An operation on an open cursor and its scan. -/
def onCursor {α : Type} (name : String)
    (f : Cursor → Scan ω → Except Stop α × Cursor × Scan ω) : Session ω α := do
  let held ← named Workshop.cursors name
  let (result, cursor, s) := f held.cursor (← scan held.site)
  putScan held.site s
  modify fun s => { s with cursors := s.cursors.bind name { held with cursor } }
  ofExcept result

/-- Lets go of the cursor of that name, which closes it. -/
def dropCursor (name : String) : Session ω Unit := do
  let held ← named Workshop.cursors name
  modify fun s => { s with cursors := s.cursors.erase name }
  onScan held.site fun s =>
    let (result, _, s) := held.cursor.close s
    (result, s)

/-- Binds a name to a cursor.  A cursor that the name bore is let go of. -/
def bindCursor (name : String) (c : OpenCursor) : Session ω Unit := do
  if ((← get).cursors.find? name).isSome then dropCursor name
  modify fun s => { s with cursors := s.cursors.bind name c }

/-! ## Slots by hand -/

/-- A new ring of its own, as far as a machine can lay it out. -/
def addRing (name : String) (shard capacity : Nat) : Session ω Unit := do
  ofFault do layOut (← powerOfTwo? (max 1 capacity)) slotWidth
  let (ring, e) ← ofFault ((← engine).addRing? shard capacity)
  modify fun s => { s with engine := e, rings := s.rings.bind name ring }

/-- The ring at a place of the engine. -/
def ring (index : Nat) : Session ω (Ring ω) := do
  match (← engine).rings[index]? with
  | some r => return r
  | none => throw (.faulted .unknownName)

/-- The ring of a hub's shard. -/
def hubRing (hub shard : Nat) : Session ω Nat := do
  match (← engine).hubs[hub]? with
  | some h => return h.ring shard
  | none => throw (.faulted .unknownName)

/-- Drops the claim of that name: its slot is free again. -/
def dropClaim (name : String) : Session ω Unit := do
  let c ← named Workshop.claims name
  modify fun s =>
    { s with engine := s.engine.putBack c.ring c.slot, claims := s.claims.erase name }

/-- Drops the lease of that name, which its consumer should have given back. -/
def dropLease (name : String) : Session ω Unit := do
  let l ← named Workshop.leases name
  modify fun s => { s with engine := s.engine.dropLease l, leases := s.leases.erase name }

/-- Claims a slot of a ring under a name.  A claim that the name bore is dropped. -/
def claim (ring : Nat) (name : String) : Session ω (Option Claim) := do
  match (← engine).claim? ring with
  | none => return none
  | some (slot, e) =>
      modifyEngine fun _ => e
      if ((← get).claims.find? name).isSome then dropClaim name
      modify fun s => { s with claims := s.claims.bind name ⟨ring, slot⟩ }
      return some ⟨ring, slot⟩

/-- Changes the task of a claimed slot. -/
def editClaim (name : String) (f : Task ω → Task ω) : Session ω (Task ω) := do
  let c ← named Workshop.claims name
  modifyEngine (·.modifyRing c.ring (·.modifyTask c.slot f))
  return (← engine).task c.ring c.slot

/-- Publishes a claimed slot. -/
def publishClaim (name : String) : Session ω Nat := do
  let c ← named Workshop.claims name
  modify fun s =>
    { s with engine := s.engine.publish c.ring c.slot, claims := s.claims.erase name }
  return c.slot

/-- Reduces one slot of a ring. -/
def reduce (ring : Nat) : Session ω Bool := runEngine (·.reduceOldest ring)

/-! ## Inboxes and leases -/

/-- A new inbox. -/
def addInbox (name : String) : Session ω Unit := do
  let id ← runEngine Engine.addInbox
  modify fun s => { s with inboxes := s.inboxes.bind name { id } }

/-- Leases the next slot of an inbox under a name.  A lease that the name bore is dropped. -/
def nextLease (owner : Owner) (name : String) : Session ω (Option Lease) := do
  match ← ofFault ((← inbox owner).next? (← engine)) with
  | none => return none
  | some (l, k, e) =>
      putInbox k owner
      modifyEngine fun _ => e
      if ((← get).leases.find? name).isSome then dropLease name
      modify fun s => { s with leases := s.leases.bind name l }
      return some l

/-- Takes the error off a leased task. -/
def removeError (name : String) : Session ω (Option Failure × Task ω) := do
  let l ← named Workshop.leases name
  let error := ((← engine).task l.ring l.slot).error
  modifyEngine (·.modifyRing l.ring (·.modifyTask l.slot ({ · with error := none })))
  return (error, (← engine).task l.ring l.slot)

/-- Gives a lease back. -/
def done (name : String) : Session ω Unit := do
  let l ← named Workshop.leases name
  modify fun s => { s with engine := s.engine.release l, leases := s.leases.erase name }

/-! ## Dispatchers -/

/-- A new dispatcher with a reducer of its own. -/
def addDispatcher (name : String) (reducer : Reducer ω) : Session ω Unit := do
  let id ← runEngine Engine.addDispatcher
  modify fun s => { s with dispatchers := s.dispatchers.bind name { id, reducer } }

/-- Starts an execution at a site. -/
def dispatch (site : Site) (source : Source ω) (hub : Nat) (filter : Filter ω) :
    Session ω Unit :=
  onScan site (·.dispatch source hub filter)

/-- One try to get on. -/
def steal (site : Site) : Session ω Unit := onScan site Scan.steal

/-- Stops publishing and settles what is in flight. -/
def drain (site : Site) : Session ω Unit := onScan site Scan.drain

/-- Goes back to the first frame. -/
def rewind (site : Site) : Session ω Unit := onScan site fun s => (.ok (), s.rewind)

/-- Collects frames, giving the slots back at once. -/
def gather (site : Site) (n : Nat) : Session ω (List (Task ω)) := onScan site (Scan.gather n)

/-- Ends the execution of a dispatcher. -/
def clear (owner : Owner) : Session ω Unit := do putDispatcher (← dispatcher owner).clear owner

/-- Draws the next shard of a hub. -/
def drawShard (hub : Nat) : Session ω Nat := runEngine (·.drawShard hub)

/-! ## Plans and cursors -/

/-- A new plan. -/
def addPlan (name : String) (source : Source ω) (filter : Filter ω) : Session ω Unit := do
  let p ← runEngine (Plan.make source filter)
  modify fun s => { s with plans := s.plans.bind name p }

/-- Executes a plan for an inbox. -/
def execute (plan : String) (inbox : Owner) (hub : Nat) : Session ω Unit := do
  let p ← named Workshop.plans plan
  dispatch ⟨.plan plan, inbox⟩ p.source hub p.filter

/-- Closes a plan. -/
def closePlan (name : String) : Session ω Unit := do
  let p ← named Workshop.plans name
  modifyEngine fun e => e.withWorld (p.close e.world)

/-- Moves a cursor to its next row. -/
def next (name : String) : Session ω Bool := onCursor name Cursor.next

/-- Starts a cursor over. -/
def rewindCursor (name : String) : Session ω Unit := onCursor name Cursor.rewind

/-- Closes a cursor. -/
def close (name : String) : Session ω Unit := onCursor name Cursor.close

/-- Opens a cursor on the execution of a site. -/
def openOn (site : Site) (name : String) : Session ω Unit := do
  bindCursor name ⟨site, ← onScan site Cursor.openOn⟩

/-- Executes a plan and opens a cursor on the execution. -/
def openCursor (plan name : String) (hub : Nat) : Session ω Unit := do
  let p ← named Workshop.plans plan
  let (opened, p, e) := p.openCursor hub (← engine)
  modify fun s => { s with engine := e, plans := s.plans.bind plan p }
  bindCursor name ⟨.ofPlan plan, ← ofExcept opened⟩

/-! ## Views -/

/-- Keeps a view under a name. -/
def keepView (name : String) (v : RowView) : Session ω Unit :=
  modify fun s => { s with views := s.views.bind name v }

/-- Moves a view to the row of an id. -/
def moveView (name : String) (i : RowId) : Session ω RowView := do
  let v := (← named Workshop.views name).moveTo i
  keepView name v
  return v

/-- The view of a cursor. -/
def cursorView (name : String) : Session ω RowView :=
  return (← named Workshop.cursors name).cursor.view

end Session

end TableScan
