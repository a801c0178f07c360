import TableScan.Ring

/-!
# Engines

What all scans share: the rings, the hubs that group rings into shards, the current epoch of
every dispatcher, the tallies of every inbox, a clock, and the collaborators' world.

Epochs, tallies, the count of drawn shards, the numbers of dispatchers and the clock are counted
without bound.  A machine that counts them in words of 64 bits agrees as long as none of them comes
to `2 ^ 64`.
-/

namespace TableScan

variable {ω : Type}

/-- The rings of one message hub, and the count of shards drawn from it. -/
structure Hub where
  /-- The ring of shard zero; the others follow it. -/
  firstRing : Nat
  shards : Nat
  drawn : Nat := 0
  /-- How long, in microseconds, a consumer stands before a saturated ring. -/
  patience : Nat
deriving DecidableEq, Repr

/-- The ring of a shard. -/
def Hub.ring (h : Hub) (shard : Nat) : Nat := h.firstRing + shard % h.shards

/-- How many slots an inbox has leased and how many of them came back. -/
structure Tally where
  claimed : Nat := 0
  released : Nat := 0
deriving DecidableEq, Repr

/-- Something worth telling the operator. -/
inductive Notice
  /-- A lease was dropped and not given back. -/
  | leaseDropped (shard slot : Nat)
  /-- A new execution began while slots of the last one were in flight. -/
  | restarted (dispatcher inFlight : Nat)
  | reducerFaulted (shard frame : Nat)
  | taskFailed (dispatcher frame : Nat) (failure : Failure)
  | saturated (dispatcher shard : Nat)
deriving DecidableEq, Repr

/-- Whether a notice is an error or only a warning. -/
def Notice.isError : Notice → Bool
  | .leaseDropped .. | .restarted .. => false
  | .reducerFaulted .. | .taskFailed .. | .saturated .. => true

/-- The state that all scans share. -/
structure Engine (ω : Type) where
  rings : Array (Ring ω) := #[]
  hubs : Array Hub := #[]
  /-- The current epoch by dispatcher.  Number zero is no dispatcher's. -/
  epochs : Array Nat := #[0]
  tallies : Array Tally := #[]
  /-- The time, in microseconds. -/
  clock : Nat := 0
  /-- Latest notice first. -/
  journal : List Notice := []
  world : ω

/-- A reduced slot in the hands of the consumer that an inbox leased it to. -/
structure Lease where
  ring : Nat
  slot : Nat
  inbox : Nat
deriving DecidableEq, Repr

namespace Engine

/-! ## What is there -/

/-- The current epoch of a dispatcher. -/
def epoch (e : Engine ω) (dispatcher : Nat) : Nat :=
  match e.epochs[dispatcher]? with
  | some n => n
  | none => 0

/-- The tally of an inbox. -/
def tally (e : Engine ω) (inbox : Nat) : Tally :=
  match e.tallies[inbox]? with
  | some t => t
  | none => {}

/-- The task of a slot. -/
def task (e : Engine ω) (ring slot : Nat) : Task ω :=
  match e.rings[ring]? with
  | some r => r.task slot
  | none => {}

/-- The shard of a ring. -/
def shardOf (e : Engine ω) (ring : Nat) : Nat :=
  match e.rings[ring]? with
  | some r => r.shard
  | none => 0

/-- The pending slots of a ring. -/
def pendingIn (e : Engine ω) (ring : Option Nat) : List Nat :=
  match ring.bind (e.rings[·]?) with
  | some r => r.pending
  | none => []

/-- The patience of a hub, one second for a dispatcher without one. -/
def patienceOf (e : Engine ω) (hub : Option Nat) : Nat :=
  match hub.bind (e.hubs[·]?) with
  | some h => h.patience
  | none => 1000000

/-! ## Making things -/

/-- A new hub of as many rings as the settings say. -/
def addHub? (e : Engine ω) (settings : Settings) : Except Fault (Nat × Engine ω) := do
  let capacity ← settings.capacity?
  let rings := (Array.range settings.shards).map fun shard => Ring.ofCapacity shard capacity
  let hub : Hub :=
    { firstRing := e.rings.size, shards := settings.shards, patience := settings.standingTime }
  return (e.hubs.size, { e with rings := e.rings ++ rings, hubs := e.hubs.push hub })

/-- A new ring that belongs to no hub. -/
def addRing? (e : Engine ω) (shard capacity : Nat) : Except Fault (Nat × Engine ω) := do
  return (e.rings.size, { e with rings := e.rings.push (← Ring.make? shard capacity) })

/-- A number for a new dispatcher. -/
def addDispatcher (e : Engine ω) : Nat × Engine ω :=
  (e.epochs.size, { e with epochs := e.epochs.push 0 })

/-- A number for a new inbox. -/
def addInbox (e : Engine ω) : Nat × Engine ω :=
  (e.tallies.size, { e with tallies := e.tallies.push {} })

/-! ## Small steps -/

/-- The engine with a ring changed. -/
def modifyRing (e : Engine ω) (ring : Nat) (f : Ring ω → Ring ω) : Engine ω :=
  { e with rings := e.rings.modify ring f }

/-- The engine with a world of the collaborators' making. -/
def withWorld (e : Engine ω) (world : ω) : Engine ω := { e with world }

/-- The engine with a notice in its journal. -/
def note (e : Engine ω) (n : Notice) : Engine ω := { e with journal := n :: e.journal }

/-- Begins the next epoch of a dispatcher. -/
def nextEpoch (e : Engine ω) (dispatcher : Nat) : Engine ω :=
  { e with epochs := e.epochs.modify dispatcher (· + 1) }

/-- Draws the next shard of a hub, in turn. -/
def drawShard (e : Engine ω) (hub : Nat) : Nat × Engine ω :=
  match e.hubs[hub]? with
  | some h =>
      (h.drawn % h.shards,
        { e with hubs := e.hubs.modify hub fun h => { h with drawn := h.drawn + 1 } })
  | none => (0, e)

/-- Claims a free slot of a ring; there is none in a saturated ring. -/
def claim? (e : Engine ω) (ring : Nat) : Option (Nat × Engine ω) :=
  match e.rings[ring]? with
  | some r => r.free.head?.map fun slot => (slot, e.modifyRing ring Ring.claim)
  | none => none

/-- Publishes a claimed slot. -/
def publish (e : Engine ω) (ring slot : Nat) : Engine ω := e.modifyRing ring (·.publish slot)

/-- Puts a slot back among the free ones of its ring. -/
def putBack (e : Engine ω) (ring slot : Nat) : Engine ω := e.modifyRing ring (·.putBack slot)

/-- Reduces the oldest published slot of a ring, if there is one. -/
def reduceOldest (e : Engine ω) (ring : Nat) : Bool × Engine ω :=
  match e.rings[ring]? with
  | none => (false, e)
  | some r =>
      match r.due with
      | [] => (false, e.modifyRing ring ({ · with pending := [] }))
      | slot :: rest =>
          let (task, fault, world) := (r.task slot).run e.epoch e.world
          let e := (e.withWorld world).modifyRing ring (·.reduceTo slot rest task)
          (true, if fault.isSome then e.note (.reducerFaulted r.shard task.frame) else e)

/-- Gives a leased slot back. -/
def release (e : Engine ω) (l : Lease) : Engine ω :=
  let e := e.putBack l.ring l.slot
  { e with tallies := e.tallies.modify l.inbox fun t => { t with released := t.released + 1 } }

/-- Gives back a leased slot that its consumer let go of.  The operator is told. -/
def dropLease (e : Engine ω) (l : Lease) : Engine ω :=
  (e.note (.leaseDropped (e.shardOf l.ring) l.slot)).release l

/-! ## Pending slots -/

theorem pendingIn_modifyRing {e : Engine ω} {i : Nat} {f : Ring ω → Ring ω}
    (h : ∀ r, (f r).pending = r.pending) (ring : Option Nat) :
    (e.modifyRing i f).pendingIn ring = e.pendingIn ring := by
  cases ring with
  | none => rfl
  | some j =>
    simp only [pendingIn, modifyRing, Option.bind_some, Array.getElem?_modify]
    by_cases hij : i = j
    · cases e.rings[j]? <;> simp [hij, h]
    · simp [hij]

theorem pendingIn_modifyRing_ne {e : Engine ω} {i j : Nat} {f : Ring ω → Ring ω} (hj : j ≠ i) :
    (e.modifyRing i f).pendingIn (some j) = e.pendingIn (some j) := by
  simp only [pendingIn, modifyRing, Option.bind_some, Array.getElem?_modify, if_neg (Ne.symm hj)]

theorem length_pendingIn_publish_le (e : Engine ω) (i slot : Nat) :
    ((e.publish i slot).pendingIn (some i)).length ≤ (e.pendingIn (some i)).length + 1 := by
  simp only [pendingIn, publish, modifyRing, Option.bind_some, Array.getElem?_modify]
  cases e.rings[i]? <;> simp

@[simp] theorem pendingIn_note (e : Engine ω) (n : Notice) (ring : Option Nat) :
    (e.note n).pendingIn ring = e.pendingIn ring := rfl

theorem pendingIn_claim? {e e' : Engine ω} {i slot : Nat} (h : e.claim? i = some (slot, e'))
    (ring : Option Nat) : e'.pendingIn ring = e.pendingIn ring := by
  unfold claim? at h
  split at h
  · simp only [Option.map_eq_some_iff, Prod.mk.injEq] at h
    obtain ⟨_, _, _, rfl⟩ := h
    exact pendingIn_modifyRing Ring.pending_claim ring
  · cases h

@[simp] theorem pendingIn_release (e : Engine ω) (l : Lease) (ring : Option Nat) :
    (e.release l).pendingIn ring = e.pendingIn ring :=
  pendingIn_modifyRing (fun r => r.pending_putBack l.slot) ring

theorem length_pendingIn_reduceOldest_false {e e' : Engine ω} {i : Nat}
    (h : e.reduceOldest i = (false, e')) :
    (e'.pendingIn (some i)).length ≤ (e.pendingIn (some i)).length := by
  unfold reduceOldest at h
  split at h
  · obtain ⟨-, rfl⟩ := Prod.mk.inj h
    exact Nat.le_refl _
  · split at h
    · obtain ⟨-, rfl⟩ := Prod.mk.inj h
      simp only [pendingIn, modifyRing, Option.bind_some, Array.getElem?_modify]
      cases e.rings[i]? <;> simp
    · exact Bool.noConfusion (Prod.mk.inj h).1

theorem length_pendingIn_reduceOldest_lt {e e' : Engine ω} {i : Nat}
    (h : e.reduceOldest i = (true, e')) :
    (e'.pendingIn (some i)).length < (e.pendingIn (some i)).length := by
  unfold reduceOldest at h
  split at h
  · cases h
  · rename_i r hr
    have hdue := r.length_due_le
    split at h
    · cases h
    · rename_i slot rest hd
      have hp : e'.pendingIn (some i) = rest := by
        simp only [Prod.mk.injEq, true_and] at h
        subst h
        split <;>
          simp [pendingIn, note, withWorld, modifyRing, Array.getElem?_modify, hr]
      have hq : e.pendingIn (some i) = r.pending := by simp [pendingIn, hr]
      rw [hd, List.length_cons] at hdue
      rw [hp, hq]
      omega

theorem length_pendingIn_reduceOldest_le (e : Engine ω) (i : Nat) (ring : Option Nat) :
    ((e.reduceOldest i).2.pendingIn ring).length ≤ (e.pendingIn ring).length := by
  cases ring with
  | none => exact Nat.le_refl _
  | some j =>
    by_cases hj : j = i
    · subst hj
      rcases h : e.reduceOldest j with ⟨_ | _, e'⟩
      · exact length_pendingIn_reduceOldest_false h
      · exact Nat.le_of_lt (length_pendingIn_reduceOldest_lt h)
    · refine Nat.le_of_eq (congrArg List.length ?_)
      unfold reduceOldest
      split
      · rfl
      · split
        · exact pendingIn_modifyRing_ne hj
        · dsimp only
          split
          · exact pendingIn_modifyRing_ne hj
          · exact pendingIn_modifyRing_ne hj

end Engine

end TableScan
