import Mathlib.Logic.Function.Basic
import TableScan.Proofs.Moves

/-!
# The traffic on a ring

One ring, with any number of producers, reducers, inboxes and consumers at work on it, in any
order.  A reducer takes up the oldest published slot and finishes it later, so that reductions end
in any order.  What happens to the slots is recorded: the posts for inboxes, the reductions, the
leases, and the slots that come back.  Main statement: every step keeps the record and the ring
together, so that a slot in flight still holds what was posted in it, or the result of the one
reduction since.
-/

namespace TableScan

variable {ω : Type}

/-- What a producer publishes for an inbox: the slot, and the task written into it. -/
structure Post (ω : Type) where
  slot : Nat
  work : Work ω
  epoch : Nat
  frame : Nat
  rowCount : Nat

/-- The task of a post, before it is reduced. -/
def Post.task (p : Post ω) : Task ω := .ask p.work p.epoch p.frame p.rowCount

/-- The post with its task after a run of it. -/
def Post.outcome (p : Post ω) (epochOf : Nat → Nat) (w : ω) : Task ω := (p.task.run epochOf w).1

namespace Post

variable (p : Post ω) (epochOf : Nat → Nat) (w : ω)

lemma outcome_eq : ∃ rows error, p.outcome epochOf w = { p.task with rows, error } :=
  Task.run_eq (t := p.task) (e := epochOf) (w := w) rfl

end Post

/-- Something that happens to a slot of the ring. -/
inductive Event (ω : Type)
  /-- A slot is published for an inbox. -/
  | posted (inbox : Nat) (post : Post ω)
  /-- A slot is published for nobody. -/
  | strayed (slot : Nat)
  /-- The task of a slot is run, at an epoch of every dispatcher and in a world. -/
  | reduced (slot : Nat) (epochOf : Nat → Nat) (world : ω)
  /-- A slot is leased, with a task in it. -/
  | leased (inbox : Nat) (lease : Lease) (task : Task ω)
  /-- A slot is put back among the free ones. -/
  | freed (slot : Nat)

namespace Event

/-- The slot that something happens to. -/
def slot : Event ω → Nat
  | posted _ p => p.slot
  | strayed slot => slot
  | reduced slot _ _ => slot
  | leased _ l _ => l.slot
  | freed slot => slot

/-- What is posted for an inbox. -/
def postFor? (k : Nat) : Event ω → Option (Post ω)
  | posted k' p => if k' = k then some p else none
  | _ => none

/-- The lease that an inbox obtains, with the task leased. -/
def leaseOf? (k : Nat) : Event ω → Option (Lease × Task ω)
  | leased k' l t => if k' = k then some (l, t) else none
  | _ => none

end Event

/-- What happened on a ring, latest event last. -/
abbrev Record (ω : Type) := List (Event ω)

namespace Record

variable (k : Nat) (t u : Record ω)

/-- What was posted for an inbox, in the order of publication. -/
def posts (t : Record ω) : List (Post ω) := t.filterMap (Event.postFor? k)

/-- The leases that an inbox obtained, in the order in which it obtained them. -/
def leases (t : Record ω) : List (Lease × Task ω) := t.filterMap (Event.leaseOf? k)

/-- The epochs and frames posted for an inbox. -/
def postedFrames : List (Nat × Nat) := (posts k t).map fun p => (p.epoch, p.frame)

/-- The epochs and frames that an inbox has leased. -/
def leasedFrames : List (Nat × Nat) := (leases k t).map fun x => (x.2.epoch, x.2.frame)

/-- What happened to a slot. -/
def about (slot : Nat) (t : Record ω) : Record ω := t.filter (·.slot == slot)

@[simp] lemma posts_append : posts k (t ++ u) = posts k t ++ posts k u := List.filterMap_append

@[simp] lemma leases_append : leases k (t ++ u) = leases k t ++ leases k u := List.filterMap_append

@[simp] lemma posts_nil : posts k ([] : Record ω) = [] := rfl

@[simp] lemma leases_nil : leases k ([] : Record ω) = [] := rfl

@[simp] lemma posts_posted (p : Post ω) : posts k (.posted k p :: t) = p :: posts k t := by
  simp [posts, Event.postFor?]

lemma posts_posted_ne {j k : Nat} (h : j ≠ k) (p : Post ω) :
    posts j (.posted k p :: t) = posts j t := by
  simp [posts, Event.postFor?, h.symm]

@[simp] lemma leases_posted (j : Nat) (p : Post ω) : leases j (.posted k p :: t) = leases j t := rfl

@[simp] lemma leases_leased (l : Lease) (u : Task ω) :
    leases k (.leased k l u :: t) = (l, u) :: leases k t := by
  simp [leases, Event.leaseOf?]

lemma leases_leased_ne {j k : Nat} (h : j ≠ k) (l : Lease) (u : Task ω) :
    leases j (.leased k l u :: t) = leases j t := by
  simp [leases, Event.leaseOf?, h.symm]

@[simp] lemma posts_leased (j : Nat) (l : Lease) (u : Task ω) :
    posts j (.leased k l u :: t) = posts j t := rfl

@[simp] lemma posts_reduced (slot : Nat) (epochOf : Nat → Nat) (w : ω) :
    posts k (.reduced slot epochOf w :: t) = posts k t := rfl

@[simp] lemma leases_reduced (slot : Nat) (epochOf : Nat → Nat) (w : ω) :
    leases k (.reduced slot epochOf w :: t) = leases k t := rfl

@[simp] lemma posts_freed (slot : Nat) : posts k (.freed slot :: t) = posts k t := rfl

@[simp] lemma leases_freed (slot : Nat) : leases k (.freed slot :: t) = leases k t := rfl

@[simp] lemma posts_strayed (slot : Nat) : posts k (.strayed slot :: t) = posts k t := rfl

@[simp] lemma leases_strayed (slot : Nat) : leases k (.strayed slot :: t) = leases k t := rfl

lemma about_append (slot : Nat) : about slot (t ++ u) = about slot t ++ about slot u :=
  List.filter_append ..

lemma about_eq_nil {slot : Nat} {t : Record ω} (h : ∀ ev ∈ t, ev.slot ≠ slot) :
    about slot t = [] :=
  List.filter_eq_nil_iff.2 fun ev hev => by simpa using h ev hev

/-- Two places of a record where slots were posted: they are the same, or one lies behind the
other. -/
lemma post_cases {k k' : Nat} {a b a' b' : Record ω} {p p' : Post ω}
    (h : a ++ .posted k p :: b = a' ++ .posted k' p' :: b') :
    (a = a' ∧ k = k' ∧ p = p' ∧ b = b') ∨
      (∃ c, a' = a ++ .posted k p :: c ∧ b = c ++ .posted k' p' :: b') ∨
        ∃ c, a = a' ++ .posted k' p' :: c ∧ b' = c ++ .posted k p :: b := by
  rcases List.append_eq_append_iff.1 h with ⟨_ | ⟨ev, c⟩, hc, hr⟩ | ⟨_ | ⟨ev, c⟩, hc, hr⟩
  · obtain ⟨hev, rfl⟩ := List.cons.inj hr
    obtain ⟨rfl, rfl⟩ := Event.posted.inj hev
    exact .inl ⟨by simpa using hc.symm, rfl, rfl, rfl⟩
  · obtain ⟨rfl, hb⟩ := List.cons.inj hr
    exact .inr (.inl ⟨c, hc, hb⟩)
  · obtain ⟨hev, rfl⟩ := List.cons.inj hr
    obtain ⟨rfl, rfl⟩ := Event.posted.inj hev
    exact .inl ⟨by simpa using hc, rfl, rfl, rfl⟩
  · obtain ⟨rfl, hb⟩ := List.cons.inj hr
    exact .inr (.inr ⟨c, hc, hb⟩)

/-- The one place of a record where a slot was posted and not posted again since. -/
lemma post_unique {k k' : Nat} {a b a' b' t : Record ω} {p p' : Post ω}
    (h : t = a ++ .posted k p :: b) (h' : t = a' ++ .posted k' p' :: b')
    (hb : ∀ ev ∈ b, ∀ j q, ev = .posted j q → q.slot ≠ p.slot)
    (hb' : ∀ ev ∈ b', ∀ j q, ev = .posted j q → q.slot ≠ p'.slot) (hp : p.slot = p'.slot) :
    a = a' ∧ k = k' ∧ p = p' ∧ b = b' := by
  rcases post_cases (h.symm.trans h') with heq | ⟨c, -, hc⟩ | ⟨c, -, hc⟩
  · exact heq
  · exact absurd hp.symm (hb _ (by simp [hc]) k' p' rfl)
  · exact absurd hp (hb' _ (by simp [hc]) k p rfl)

/-- The one place of a record where the `n`th post for an inbox stands. -/
lemma nth_post_unique {k : Nat} {a b a' b' : Record ω} {p p' : Post ω}
    (h : a ++ .posted k p :: b = a' ++ .posted k p' :: b')
    (hn : (posts k a).length = (posts k a').length) : a = a' ∧ p = p' ∧ b = b' := by
  rcases post_cases h with ⟨ha, -, hpb⟩ | ⟨c, rfl, -⟩ | ⟨c, rfl, -⟩
  · exact ⟨ha, hpb⟩
  · simp at hn
  · simp at hn

end Record

/-- A ring of an engine with all who work on it: the inboxes that listen to it, by number, the
slots that producers have claimed, those that reducers have taken up, and the leases of the
consumers. -/
structure Traffic (ω : Type) where
  engine : Engine ω
  inboxes : Nat → Inbox
  claimed : List Nat := []
  taken : List Nat := []
  leases : List Lease := []

namespace Ring

/-- The ring with other slots pending. -/
def withPending (r : Ring ω) (pending : List Nat) : Ring ω := { r with pending }

/-- The ring with the slots that reducers have taken up, as if they were pending still. -/
def withTaken (r : Ring ω) (taken : List Nat) : Ring ω := r.withPending (taken ++ r.pending)

end Ring

namespace Traffic

/-- The traffic with an inbox changed. -/
def setInbox (s : Traffic ω) (k : Nat) (inbox : Inbox) : Traffic ω :=
  { s with inboxes := Function.update s.inboxes k inbox }

/-- The traffic with the ring changed. -/
def modifyRing (s : Traffic ω) (i : Nat) (f : Ring ω → Ring ω) : Traffic ω :=
  { s with engine := s.engine.modifyRing i f }

/-- One step of somebody on ring `i`, with what it enters in the record. -/
inductive Step (i : Nat) : Traffic ω → Record ω → Traffic ω → Prop
  | claim {s : Traffic ω} {slot : Nat} {e : Engine ω} (done : s.engine.claim? i = some (slot, e)) :
      Step i s [] { s with engine := e, claimed := slot :: s.claimed }
  /-- A producer writes into a slot that it has claimed. -/
  | write {s : Traffic ω} {slot : Nat} (f : Task ω → Task ω) (held : slot ∈ s.claimed) :
      Step i s [] (s.modifyRing i (·.modifyTask slot f))
  | discard {s : Traffic ω} {slot : Nat} (held : slot ∈ s.claimed) :
      Step i s [.freed slot]
        { s with engine := s.engine.putBack i slot, claimed := s.claimed.erase slot }
  /-- A producer writes a task into a slot that it has claimed and publishes it for an inbox. -/
  | post {s : Traffic ω} (k : Nat) (p : Post ω) (held : p.slot ∈ s.claimed) :
      Step i s [.posted k p]
        ({ s with
          engine := (s.engine.modifyRing i (·.modifyTask p.slot fun _ => p.task)).publish i p.slot
          claimed := s.claimed.erase p.slot }.setInbox k ((s.inboxes k).push p.slot))
  | stray {s : Traffic ω} {slot : Nat} (held : slot ∈ s.claimed) :
      Step i s [.strayed slot]
        { s with engine := s.engine.publish i slot, claimed := s.claimed.erase slot }
  /-- A reducer takes up the oldest published slot. -/
  | take {s : Traffic ω} {r : Ring ω} {slot : Nat} {rest : List Nat}
      (there : s.engine.rings[i]? = some r) (due : r.due = slot :: rest) :
      Step i s [] { s.modifyRing i (·.withPending rest) with taken := slot :: s.taken }
  /-- A reducer finishes a slot that it has taken up. -/
  | finish {s : Traffic ω} (slot : Nat) {t : Task ω} {x : Option Fault} {w : ω}
      (held : slot ∈ s.taken)
      (ran : (s.engine.task i slot).run s.engine.epoch s.engine.world = (t, x, w)) :
      Step i s [.reduced slot s.engine.epoch s.engine.world]
        { s with
          engine := (s.engine.withWorld w).modifyRing i fun r => r.reduceTo slot r.pending t
          taken := s.taken.erase slot }
  | lease {s : Traffic ω} (k : Nat) {l : Lease} {inbox : Inbox} {e : Engine ω}
      (done : (s.inboxes k).next? s.engine = .ok (some (l, inbox, e))) :
      Step i s [.leased k l (e.task l.ring l.slot)]
        ({ s with engine := e, leases := l :: s.leases }.setInbox k inbox)
  /-- A consumer changes the task of a slot leased to it. -/
  | edit {s : Traffic ω} {l : Lease} (f : Task ω → Task ω) (held : l ∈ s.leases) :
      Step i s [] (s.modifyRing i (·.modifyTask l.slot f))
  | giveBack {s : Traffic ω} {l : Lease} (held : l ∈ s.leases) :
      Step i s [.freed l.slot]
        { s with engine := s.engine.release l, leases := s.leases.erase l }
  | drop {s : Traffic ω} {l : Lease} (held : l ∈ s.leases) :
      Step i s [.freed l.slot]
        { s with engine := s.engine.dropLease l, leases := s.leases.erase l }
  /-- Something happens elsewhere: on another ring, to the epochs, the clock or the world. -/
  | elsewhere {s : Traffic ω} {e : Engine ω} (same : e.rings[i]? = s.engine.rings[i]?) :
      Step i s [] { s with engine := e }

/-- Any number of steps, with the record of what happened. -/
inductive Run (i : Nat) (s₀ : Traffic ω) : Record ω → Traffic ω → Prop
  | none : Run i s₀ [] s₀
  | step {t u : Record ω} {s s' : Traffic ω} (run : Run i s₀ t s) (step : Step i s u s') :
      Run i s₀ (t ++ u) s'

/-- A new ring, with the inboxes that have just begun to listen to it. -/
structure Opened (i : Nat) (s : Traffic ω) : Prop where
  ring : ∃ shard capacity, s.engine.rings[i]? = some (.ofCapacity shard capacity)
  inboxes : ∀ k, (s.inboxes k).ring = some i ∧ (s.inboxes k).inFlight = []
  claimed : s.claimed = []
  taken : s.taken = []
  leases : s.leases = []

end Traffic

/-! ## The ring beside the record -/

namespace Ring

variable {r r' : Ring ω} {i j : Nat} {C L F rest p taken : List Nat}

lemma withTaken_claim : r.claim.withTaken taken = (r.withTaken taken).claim := by
  obtain ⟨shard, slots, free, pending⟩ := r
  cases free <;> rfl

lemma withTaken_publish : (r.publish i).withTaken taken = (r.withTaken taken).publish i := by
  simp only [withTaken, withPending, publish, setStage, List.append_assoc]

lemma stage?_claim (hf : r.free = i :: rest) (hj : j ≠ i) : r.claim.stage? j = r.stage? j := by
  have hc : r.claim = ({ r with free := rest } : Ring ω).setStage i .claimed := by
    simp only [claim, hf]
  rw [hc, stage?_setStage, if_neg hj]
  rfl

lemma stage?_publish (hj : j ≠ i) : (r.publish i).stage? j = r.stage? j :=
  stage?_setStage.trans (if_neg hj)

lemma stage?_lease (hj : j ≠ i) : (r.lease i).stage? j = r.stage? j :=
  stage?_setStage.trans (if_neg hj)

lemma stage?_putBack (hj : j ≠ i) : (r.putBack i).stage? j = r.stage? j :=
  (stage?_setStage.trans (if_neg hj)).trans stage?_modifyTask

lemma stage?_reduceTo {t : Task ω} (hj : j ≠ i) : (r.reduceTo i rest t).stage? j = r.stage? j :=
  (stage?_setStage.trans (if_neg hj)).trans stage?_modifyTask

lemma Accounts.withPending (h : r.Accounts C L F) (hp : r.pending.Perm p) :
    (r.withPending p).Accounts C L F :=
  ⟨h.free, h.pending.perm hp, h.claimed, h.leased, h.flown⟩

end Ring

/-- What a ring holds in the slot of a post, by what happened to the slot since. -/
inductive Ring.Holds (r : Ring ω) (p : Post ω) : Record ω → Prop
  | posted (stage : r.stage? p.slot = some .published) (task : r.task p.slot = p.task) :
      r.Holds p []
  | reduced (epochOf : Nat → Nat) (w : ω) (stage : r.stage? p.slot = some .reduced)
      (task : r.task p.slot = p.outcome epochOf w) : r.Holds p [.reduced p.slot epochOf w]

namespace Ring.Holds

variable {r r' : Ring ω} {p : Post ω} {t : Record ω}

lemma flown (h : r.Holds p t) :
    r.stage? p.slot = some .published ∨ r.stage? p.slot = some .reduced := by
  cases h with
  | posted stage => exact .inl stage
  | reduced _ _ stage => exact .inr stage

lemma congr (h : r.Holds p t) (hs : r'.stage? p.slot = r.stage? p.slot)
    (ht : r'.task p.slot = r.task p.slot) : r'.Holds p t := by
  cases h with
  | posted stage task => exact .posted (hs.trans stage) (ht.trans task)
  | reduced epochOf w stage task => exact .reduced epochOf w (hs.trans stage) (ht.trans task)

lemma not_posted (h : r.Holds p t) {k : Nat} {q : Post ω} : .posted k q ∉ t := by
  cases h <;> simp

end Ring.Holds

/-- The `n`th post for an inbox is in flight: its slot was not posted again, and the ring holds in
it what the record says. -/
def Ring.Awaits (r : Ring ω) (t : Record ω) (k n : Nat) (p : Post ω) : Prop :=
  ∃ before after : Record ω, t = before ++ .posted k p :: after ∧ (before.posts k).length = n ∧
    r.Holds p (after.about p.slot)

namespace Ring.Awaits

variable {r r' : Ring ω} {t u : Record ω} {k k' n n' : Nat} {p p' : Post ω}

lemma flown (h : r.Awaits t k n p) :
    r.stage? p.slot = some .published ∨ r.stage? p.slot = some .reduced := by
  obtain ⟨_, _, _, _, hold⟩ := h
  exact hold.flown

lemma slot_ne (h : r.Awaits t k n p) {slot : Nat} {s : Stage} (hs : r.stage? slot = some s)
    (h₁ : s ≠ .published) (h₂ : s ≠ .reduced) : p.slot ≠ slot := by
  rintro rfl
  rcases h.flown with h | h
  · exact h₁ (Option.some.inj (hs.symm.trans h))
  · exact h₂ (Option.some.inj (hs.symm.trans h))

/-- What happens to other slots makes no difference. -/
lemma keep (h : r.Awaits t k n p) (hu : ∀ ev ∈ u, ev.slot ≠ p.slot)
    (hs : r'.stage? p.slot = r.stage? p.slot) (ht : r'.task p.slot = r.task p.slot) :
    r'.Awaits (t ++ u) k n p := by
  obtain ⟨before, after, rfl, hn, hold⟩ := h
  refine ⟨before, after ++ u, by simp, hn, ?_⟩
  rw [Record.about_append, Record.about_eq_nil hu, List.append_nil]
  exact hold.congr hs ht

/-- A slot is in flight only once. -/
lemma unique (h : r.Awaits t k n p) (h' : r.Awaits t k' n' p') (hp : p.slot = p'.slot) :
    k = k' ∧ n = n' ∧ p = p' := by
  obtain ⟨before, after, ht, rfl, hold⟩ := h
  obtain ⟨before', after', ht', rfl, hold'⟩ := h'
  have key : ∀ {q : Post ω} {a : Record ω}, r.Holds q (a.about q.slot) →
      ∀ ev ∈ a, ∀ j p, ev = .posted j p → p.slot ≠ q.slot := by
    rintro q a hold _ hm j p rfl hp
    exact hold.not_posted (List.mem_filter.2 ⟨hm, by simpa [Event.slot] using hp⟩)
  obtain ⟨rfl, rfl, rfl, -⟩ := Record.post_unique ht ht' (key hold) (key hold') hp
  exact ⟨rfl, rfl, rfl⟩

end Ring.Awaits

/-- The story of the `n`th lease of an inbox on ring `i`: it is for the slot of the `n`th post, and
all that happened to the slot in between was one run of the task, which left what was leased. -/
def Record.Delivers (i : Nat) (t : Record ω) (k n : Nat) : Prop :=
  ∃ (before between after : Record ω) (p : Post ω) (l : Lease) (epochOf : Nat → Nat) (w : ω),
    t = before ++ .posted k p :: (between ++ .leased k l (p.outcome epochOf w) :: after) ∧
      (before.posts k).length = n ∧ ((before ++ between).leases k).length = n ∧
      l.ring = i ∧ l.slot = p.slot ∧ between.about p.slot = [.reduced p.slot epochOf w]

lemma Record.Delivers.append {i k n : Nat} {t : Record ω} (h : t.Delivers i k n) (u : Record ω) :
    (t ++ u).Delivers i k n := by
  obtain ⟨before, between, after, p, l, epochOf, w, rfl, h⟩ := h
  exact ⟨before, between, after ++ u, p, l, epochOf, w, by simp, h⟩

lemma Record.Delivers.lt {i k n : Nat} {t : Record ω} (h : t.Delivers i k n) :
    n < (t.posts k).length := by
  obtain ⟨before, between, after, p, l, epochOf, w, rfl, rfl, -⟩ := h
  simp

/-- The slot of a post whose work was reduced is leased. -/
lemma Ring.Awaits.delivers {r : Ring ω} {t : Record ω} {i k n : Nat} {p : Post ω} {l : Lease}
    (h : r.Awaits t k n p) (hs : r.stage? p.slot = some .reduced) (hn : (t.leases k).length = n)
    (hring : l.ring = i) (hslot : l.slot = p.slot) :
    Record.Delivers i (t ++ [.leased k l (r.task p.slot)]) k n := by
  obtain ⟨before, after, rfl, hlen, hold⟩ := h
  cases ha : after.about p.slot with
  | nil =>
    rw [ha] at hold
    cases hold with
    | posted stage => simp [hs] at stage
  | cons ev others =>
    rw [ha] at hold
    obtain _ | ⟨epochOf, w, -, hout⟩ := hold
    refine ⟨before, after, [], p, l, epochOf, w, ?_, hlen, ?_, hring, hslot, ha⟩
    · rw [hout]
      simp
    · simpa using hn

/-- The work of a post is reduced. -/
lemma Ring.Awaits.reduceTo {r : Ring ω} {t : Record ω} {k n : Nat} {p : Post ω} {rest : List Nat}
    (h : r.Awaits t k n p) (hs : r.stage? p.slot = some .published) (epochOf : Nat → Nat) (w : ω) :
    (r.reduceTo p.slot rest ((r.task p.slot).run epochOf w).1).Awaits
      (t ++ [.reduced p.slot epochOf w]) k n p := by
  obtain ⟨before, after, rfl, hlen, hold⟩ := h
  refine ⟨before, after ++ [.reduced p.slot epochOf w], by simp, hlen, ?_⟩
  cases ha : after.about p.slot with
  | nil =>
    rw [ha] at hold
    obtain ⟨-, htask⟩ | _ := hold
    rw [Record.about_append, ha]
    simp only [Record.about, Event.slot, List.nil_append, List.filter_singleton, beq_self_eq_true]
    refine .reduced _ _ ?_ ?_
    · exact (Ring.stage?_moved_to (by simpa using hs)).2 (.inl rfl)
    · rw [Ring.task_reduceTo, if_pos ⟨rfl, Ring.lt_capacity hs⟩, htask]
      rfl
  | cons ev others =>
    rw [ha] at hold
    cases hold with
    | reduced _ _ stage => simp [hs] at stage

end TableScan
