import TableScan.Inbox
import TableScan.Source

/-!
# Scans

A dispatcher publishes the frames of an execution, in the order of the scan and as far as the
ring of its shard has free slots.  A scan is a dispatcher at work for an inbox on an engine.

Every wait of a consumer that has no workers to help it uses up a load: frames still to publish,
slots still to reduce, slots still to collect (`Scan.load`).  The lemmas of the last section say
so, step by step.
-/

namespace TableScan

variable {ω : Type}

/-- The publishing side of a scan, used again for every execution of the same plan. -/
structure Dispatcher (ω : Type) where
  id : Nat
  reducer : Reducer ω
  /-- The shard drawn for the first execution, kept for good. -/
  shard : Option Nat := none
  hub : Option Nat := none
  ring : Option Nat := none
  frameCount : Nat := 0
  /-- The position, in scan order, of the next frame to publish. -/
  position : Nat := 0
  order : Order := .ascending
  directory : Directory := {}
  dictionaries : Option Dictionaries := none
  /-- What the tasks of the execution share; there is none between executions. -/
  work : Option (Work ω) := none
  /-- Since when the consumer could neither publish, reduce nor collect anything. -/
  starvedAt : Option Nat := none

namespace Dispatcher

/-- Whether an execution is under way. -/
def isActive (d : Dispatcher ω) : Bool := d.work.isSome

/-- The frame that comes at a position of the scan. -/
def frameAt? (d : Dispatcher ω) (position : Nat) : Option Nat :=
  if position < d.frameCount then some (d.order.itemAt d.frameCount position) else none

/-- The task for the next frame to publish. -/
def next? (d : Dispatcher ω) (e : Engine ω) : Option (Task ω) :=
  match d.work, d.frameAt? d.position with
  | some work, some frame => some (.ask work (e.epoch d.id) frame (d.directory.rowCount frame))
  | _, _ => none

/-- The dispatcher with one more frame published. -/
def advance (d : Dispatcher ω) : Dispatcher ω := { d with position := d.position + 1 }

/-- A view of the execution's frames. -/
def view (d : Dispatcher ω) : RowView :=
  match d.work with
  | some work => work.view
  | none => {}

theorem position_lt_of_next? {d : Dispatcher ω} {e : Engine ω} {t : Task ω}
    (h : d.next? e = some t) : d.position < d.frameCount := by
  unfold next? at h
  split at h
  · rename_i hf
    unfold frameAt? at hf
    split at hf
    · assumption
    · cases hf
  · cases h

/-- The dispatcher without its execution.  It keeps its shard. -/
def clear (d : Dispatcher ω) : Dispatcher ω :=
  { d with
    work := none, dictionaries := none, frameCount := 0, position := 0, starvedAt := none,
    directory := {} }

end Dispatcher

/-- A dispatcher at work for an inbox on an engine. -/
structure Scan (ω : Type) where
  dispatcher : Dispatcher ω
  inbox : Inbox
  engine : Engine ω

/-- What a round of help by a waiting consumer comes to. -/
inductive Help
  /-- Something was published or reduced, or the next slot is ready. -/
  | progressed
  /-- Nothing can be done, but slots of this scan are in flight. -/
  | waiting
  /-- Nothing can be done and nothing of this scan is in flight. -/
  | starved
deriving DecidableEq, Repr

namespace Scan

/-! ## Publishing -/

/-- Publishes the next frame, if there is one and the ring has room. -/
def publishOne? (s : Scan ω) : Option (Scan ω) :=
  match s.dispatcher.ring, s.dispatcher.next? s.engine with
  | some ring, some task =>
      (s.engine.claim? ring).map fun (slot, e) =>
        { dispatcher := s.dispatcher.advance
          inbox := s.inbox.push slot
          engine := (e.modifyRing ring (·.modifyTask slot fun _ => task)).publish ring slot }
  | _, _ => none

/-- Publishes up to `n` frames. -/
def publishUpTo : Nat → Scan ω → Scan ω
  | 0, s => s
  | n + 1, s =>
      match s.publishOne? with
      | none => s
      | some s => publishUpTo n s

/-- Publishes frames while there are any and the ring has room. -/
def publish (s : Scan ω) : Scan ω :=
  publishUpTo (s.dispatcher.frameCount - s.dispatcher.position) s

/-! ## Helping -/

/-- Leases the next slot of the inbox. -/
def next? (s : Scan ω) : Except Fault (Option (Lease × Scan ω)) :=
  Option.map (fun (l, inbox, engine) => (l, { s with inbox, engine })) <$>
    s.inbox.next? s.engine

/-- Gives a leased slot back. -/
def done (s : Scan ω) (l : Lease) : Scan ω := { s with engine := s.engine.release l }

/-- The scan with a notice in the journal of its engine. -/
def note (s : Scan ω) (n : Notice) : Scan ω := { s with engine := s.engine.note n }

/-- The scan with the start of its starvation set. -/
def starvedFrom (s : Scan ω) (since : Option Nat) : Scan ω :=
  { s with dispatcher := { s.dispatcher with starvedAt := since } }

/-- Reduces one slot of the dispatcher's ring, whoever published it. -/
def reduceOne (s : Scan ω) : Bool × Scan ω :=
  match s.dispatcher.ring with
  | none => (false, s)
  | some ring =>
      let step := s.engine.reduceOldest ring
      (step.1, { s with engine := step.2 })

/-- A round of help: publish what fits, then reduce one slot if the next one is not ready. -/
def help (s : Scan ω) : Except Fault Help × Scan ω :=
  let published := s.publish
  match published.inbox.canLease published.engine with
  | .error fault => (.error fault, published)
  | .ok true => (.ok .progressed, published)
  | .ok false =>
      match published.reduceOne with
      | (true, s') => (.ok .progressed, s')
      | (false, s') =>
          if s.dispatcher.position < published.dispatcher.position then (.ok .progressed, s')
          else if s'.inbox.inFlight = [] then (.ok .starved, s')
          else (.ok .waiting, s')

/-- The end of a consumer's patience: the failure, and the scan ready for another try. -/
def giveUp (s : Scan ω) (waited : Nat) : Failure × Scan ω :=
  let shard := s.dispatcher.shard.getD 0
  (.saturated shard (waited / 1000),
    (s.starvedFrom none).note (.saturated s.dispatcher.id shard))

/-- One try of a consumer to get on by itself.  It fails when the scan is starved and has been
for longer than the hub's patience. -/
def steal (s : Scan ω) : Except Stop Unit × Scan ω :=
  match s.help with
  | (.error fault, s) => (.error (.faulted fault), s)
  | (.ok .starved, s) =>
      let since := s.dispatcher.starvedAt.getD s.engine.clock
      let waited := s.engine.clock - since
      if s.engine.patienceOf s.dispatcher.hub ≤ waited then
        let (failure, s) := s.giveUp waited
        (.error (.failed failure), s)
      else (.ok (), s.starvedFrom (some since))
  | (.ok _, s) => (.ok (), s.starvedFrom none)

/-- A starved consumer that keeps trying until its patience ends. -/
def starve (s : Scan ω) : Failure × Scan ω :=
  let since := s.dispatcher.starvedAt.getD s.engine.clock
  let patience := s.engine.patienceOf s.dispatcher.hub
  let clock := max s.engine.clock (since + patience)
  { s with engine := { s.engine with clock } }.giveUp (clock - since)

/-! ## Load -/

/-- An upper bound on the steps that a scan can take by itself: three for a frame to publish, one
for a slot to reduce, one for a slot to collect. -/
def load (s : Scan ω) : Nat :=
  3 * (s.dispatcher.frameCount - s.dispatcher.position)
    + (s.engine.pendingIn s.dispatcher.ring).length + s.inbox.inFlight.length

theorem load_publishOne? {s s' : Scan ω} (h : s.publishOne? = some s') :
    s'.load < s.load ∧ s.dispatcher.position < s'.dispatcher.position := by
  unfold publishOne? at h
  split at h
  · rename_i ring task hring hnext
    obtain ⟨⟨slot, e⟩, hclaim, rfl⟩ := Option.map_eq_some_iff.1 h
    have hpos := Dispatcher.position_lt_of_next? hnext
    have h₁ := Engine.length_pendingIn_publish_le
      (e.modifyRing ring (·.modifyTask slot fun _ => task)) ring slot
    rw [Engine.pendingIn_modifyRing (fun r => r.pending_modifyTask _ _),
      Engine.pendingIn_claim? hclaim] at h₁
    refine ⟨?_, Nat.lt_succ_self _⟩
    simp only [load, Dispatcher.advance, hring, Inbox.push, List.length_append,
      List.length_singleton]
    omega
  · cases h

theorem load_publishUpTo (n : Nat) (s : Scan ω) :
    publishUpTo n s = s ∨ ((publishUpTo n s).load < s.load ∧
      s.dispatcher.position < (publishUpTo n s).dispatcher.position) := by
  induction n generalizing s with
  | zero => exact .inl rfl
  | succ n ih =>
    unfold publishUpTo
    cases h : s.publishOne? with
    | none => exact .inl rfl
    | some s' =>
      have h₁ := load_publishOne? h
      refine .inr ?_
      rcases ih s' with h₂ | h₂
      · simp only [h₂]
        exact h₁
      · exact ⟨Nat.lt_trans h₂.1 h₁.1, Nat.lt_trans h₁.2 h₂.2⟩

theorem load_publish (s : Scan ω) :
    s.publish = s ∨
      (s.publish.load < s.load ∧ s.dispatcher.position < s.publish.dispatcher.position) :=
  load_publishUpTo _ s

theorem load_next? {s s' : Scan ω} {l : Lease} (h : s.next? = .ok (some (l, s'))) :
    s'.load < s.load := by
  unfold next? at h
  rcases hn : s.inbox.next? s.engine with _ | _ | ⟨l, k, e⟩
  · rw [hn] at h; cases h
  · rw [hn] at h; cases h
  · rw [hn] at h
    obtain ⟨-, rfl⟩ := Prod.mk.inj (Option.some.inj (Except.ok.inj h))
    have h₁ := Inbox.length_inFlight_next? hn
    have h₂ := Inbox.pendingIn_next? hn s.dispatcher.ring
    simp only [load, h₂]
    omega

theorem canLease_of_next? {s : Scan ω} (h : s.next? = .ok none) :
    s.inbox.canLease s.engine = .ok false := by
  unfold next? at h
  rcases hn : s.inbox.next? s.engine with _ | _ | _
  · rw [hn] at h; cases h
  · exact Inbox.canLease_of_next? hn
  · rw [hn] at h; cases h

theorem load_done (s : Scan ω) (l : Lease) : (s.done l).load = s.load := by
  simp [load, done]

theorem load_starvedFrom (s : Scan ω) (since : Option Nat) : (s.starvedFrom since).load = s.load :=
  rfl

theorem load_reduceOne {s s' : Scan ω} (h : s.reduceOne = (true, s')) : s'.load < s.load := by
  unfold reduceOne at h
  split at h
  · cases h
  · rename_i ring hring
    simp only [Prod.mk.injEq] at h
    obtain ⟨hr, rfl⟩ := h
    have h₁ := Engine.length_pendingIn_reduceOldest_lt (Prod.ext hr rfl :
      s.engine.reduceOldest ring = (true, (s.engine.reduceOldest ring).2))
    simp only [load, hring]
    omega

theorem load_reduceOldest_le (s : Scan ω) (i : Nat) :
    ({ s with engine := (s.engine.reduceOldest i).2 } : Scan ω).load ≤ s.load := by
  have h := s.engine.length_pendingIn_reduceOldest_le i s.dispatcher.ring
  simp only [load]
  omega

theorem load_reduceOne_le {s s' : Scan ω} {b : Bool} (h : s.reduceOne = (b, s')) :
    s'.load ≤ s.load := by
  unfold reduceOne at h
  split at h
  · obtain ⟨-, rfl⟩ := Prod.mk.inj h
    exact Nat.le_refl _
  · rename_i ring hring
    obtain ⟨-, rfl⟩ := Prod.mk.inj h
    exact s.load_reduceOldest_le ring

theorem load_help {s s' : Scan ω} (hn : s.next? = .ok none) (h : s.help = (.ok .progressed, s')) :
    s'.load < s.load := by
  unfold help at h
  rcases load_publish s with hp | hp
  · rw [hp] at h
    simp only [canLease_of_next? hn, Nat.lt_irrefl, if_false] at h
    split at h
    · rename_i hr
      obtain ⟨-, rfl⟩ := Prod.mk.inj h
      exact load_reduceOne hr
    · split at h <;> cases h
  · simp only at h
    split at h
    · cases h
    · obtain ⟨-, rfl⟩ := Prod.mk.inj h
      exact hp.1
    · split at h
      · rename_i hr
        obtain ⟨-, rfl⟩ := Prod.mk.inj h
        exact Nat.lt_trans (load_reduceOne hr) hp.1
      · rename_i hr
        rw [if_pos hp.2] at h
        obtain ⟨-, rfl⟩ := Prod.mk.inj h
        exact Nat.lt_of_le_of_lt (load_reduceOne_le hr) hp.1

/-! ## Waiting -/

/-- Waits for the next slot of the inbox, helping meanwhile.  Without workers a scan that can do
nothing more waits in vain: with slots in flight it stalls, with none it is starved. -/
def await (s : Scan ω) : Except Stop Lease × Scan ω :=
  match _h : s.next? with
  | .error fault => (.error (.faulted fault), s)
  | .ok (some (l, s')) => (.ok l, s')
  | .ok none =>
      match _h' : s.help with
      | (.error fault, s') => (.error (.faulted fault), s')
      | (.ok .progressed, s') => await (s'.starvedFrom none)
      | (.ok .waiting, s') => (.error .stalled, s'.starvedFrom none)
      | (.ok .starved, s') =>
          let (failure, s') := s'.starve
          (.error (.failed failure), s')
termination_by s.load
decreasing_by
  rw [load_starvedFrom]
  exact load_help _h _h'

theorem load_await {s s' : Scan ω} {l : Lease} (h : s.await = (.ok l, s')) :
    s'.load < s.load := by
  fun_induction await s with
  | case2 s l' s₁ hn =>
    obtain ⟨-, rfl⟩ := Prod.mk.inj h
    exact load_next? hn
  | case4 s hn s₁ hh ih =>
    refine Nat.lt_trans (ih h) ?_
    rw [load_starvedFrom]
    exact load_help hn hh
  | case1 | case3 | case5 | case6 => cases h

/-- Collects `n` frames and gives their slots back at once. -/
def gather : Nat → Scan ω → Except Stop (List (Task ω)) × Scan ω
  | 0, s => (.ok [], s)
  | n + 1, s =>
      match s.await with
      | (.error stop, s) => (.error stop, s)
      | (.ok l, s) =>
          match gather n (s.done l) with
          | (.ok tasks, s') => (.ok (s.engine.task l.ring l.slot :: tasks), s')
          | stopped => stopped

end Scan

end TableScan
