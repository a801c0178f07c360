import TableScan.Engine

/-!
# Inboxes

The consumer's side of a scan: the slots published for it and not yet leased, in the order of
publication.  Only the first of them is ever leased, so frames arrive in the order in which they
were asked for, whatever the order in which they are reduced.
-/

namespace TableScan

variable {ω : Type}

/-- The slots on their way to one consumer. -/
structure Inbox where
  /-- The number of its tally. -/
  id : Nat
  /-- The ring listened to.  Slots are looked up there, whichever ring they were claimed from. -/
  ring : Option Nat := none
  inFlight : List Nat := []
deriving DecidableEq, Repr

namespace Inbox

/-- The inbox listening to a ring, with nothing in flight. -/
def subscribe (k : Inbox) (ring : Nat) : Inbox := { k with ring := some ring, inFlight := [] }

/-- The inbox with one more slot in flight. -/
def push (k : Inbox) (slot : Nat) : Inbox := { k with inFlight := k.inFlight ++ [slot] }

/-- The first slot in flight, with the ring listened to, once it has been reduced.  An index from
a larger ring may lie past the last slot. -/
def ready? (k : Inbox) (e : Engine ω) : Except Fault (Option (Nat × Nat)) :=
  match k.ring, k.inFlight with
  | some ring, slot :: _ =>
      match e.rings[ring]? with
      | none => .error .noSlot
      | some r =>
          if slot < r.capacity then .ok (if r.isCollectable slot then some (ring, slot) else none)
          else .error .noSlot
  | _, _ => .ok none

/-- Whether the first slot in flight can be leased. -/
def canLease (k : Inbox) (e : Engine ω) : Except Fault Bool := Option.isSome <$> k.ready? e

/-- The lease of a slot that is ready. -/
def lease (k : Inbox) (e : Engine ω) (ring slot : Nat) : Lease × Inbox × Engine ω :=
  let e := e.modifyRing ring (·.lease slot)
  let tallies := e.tallies.modify k.id fun t => { t with claimed := t.claimed + 1 }
  (⟨ring, slot, k.id⟩, { k with inFlight := k.inFlight.tail }, { e with tallies })

/-- Leases the first slot in flight once it has been reduced. -/
def next? (k : Inbox) (e : Engine ω) : Except Fault (Option (Lease × Inbox × Engine ω)) :=
  Option.map (fun (ring, slot) => k.lease e ring slot) <$> k.ready? e

theorem canLease_of_next? {k : Inbox} {e : Engine ω} (h : k.next? e = .ok none) :
    k.canLease e = .ok false := by
  unfold next? at h
  unfold canLease
  rcases hr : k.ready? e with _ | _ | _
  · rw [hr] at h; cases h
  · rfl
  · rw [hr] at h; cases h

theorem ready?_of_next? {k k' : Inbox} {e e' : Engine ω} {l : Lease}
    (h : k.next? e = .ok (some (l, k', e'))) :
    ∃ ring slot, k.ready? e = .ok (some (ring, slot)) ∧ k.lease e ring slot = (l, k', e') := by
  unfold next? at h
  rcases hr : k.ready? e with _ | _ | ⟨ring, slot⟩
  · rw [hr] at h; cases h
  · rw [hr] at h; cases h
  · rw [hr] at h
    exact ⟨ring, slot, rfl, Option.some.inj (Except.ok.inj h)⟩

theorem inFlight_ne_nil_of_ready? {k : Inbox} {e : Engine ω} {p : Nat × Nat}
    (h : k.ready? e = .ok (some p)) : k.inFlight ≠ [] := by
  unfold ready? at h
  split at h
  · rename_i hf
    simp [hf]
  · cases h

theorem length_inFlight_next? {k k' : Inbox} {e e' : Engine ω} {l : Lease}
    (h : k.next? e = .ok (some (l, k', e'))) : k'.inFlight.length + 1 = k.inFlight.length := by
  obtain ⟨ring, slot, hr, hl⟩ := ready?_of_next? h
  obtain ⟨-, hl⟩ := Prod.mk.inj hl
  obtain ⟨rfl, -⟩ := Prod.mk.inj hl
  have := List.length_pos_iff.2 (inFlight_ne_nil_of_ready? hr)
  simp only [List.length_tail]
  omega

theorem pendingIn_next? {k k' : Inbox} {e e' : Engine ω} {l : Lease}
    (h : k.next? e = .ok (some (l, k', e'))) (ring : Option Nat) :
    e'.pendingIn ring = e.pendingIn ring := by
  obtain ⟨r, slot, -, hl⟩ := ready?_of_next? h
  obtain ⟨-, hl⟩ := Prod.mk.inj hl
  obtain ⟨-, rfl⟩ := Prod.mk.inj hl
  exact Engine.pendingIn_modifyRing (fun r => r.pending_lease _) ring

end Inbox

end TableScan
