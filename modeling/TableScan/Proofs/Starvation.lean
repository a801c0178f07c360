import TableScan.Proofs.Conservation
import TableScan.Proofs.Starting

/-!
# Starvation

A consumer is starved if it can neither publish, reduce nor collect anything, and its try to get
on fails once it has been so for as long as its hub is patient.  Main statement: the failure is
told exactly then (`Workshop.saturates_iff_starved`).  It blames the ring, with reason if there is
a frame left to publish: then all slots are in the hands of others.  But a consumer that has
published all its frames, or never had any, is starved beside a ring of free slots.
-/

namespace TableScan

variable {ω : Type}

namespace Engine

variable {e : Engine ω} {i : Nat}

/-- A round that finds nothing to reduce empties the pending list, and does nothing else. -/
lemma reduceOldest_of_false (h : (e.reduceOldest i).1 = false) :
    (e.reduceOldest i).2 = e.modifyRing i fun r => { r with pending := [] } := by
  unfold reduceOldest at h ⊢
  cases hr : e.rings[i]? with
  | none =>
    have hi : ¬ i < e.rings.size := by simpa using hr
    simp [modifyRing, Array.modify, Array.modifyM, hi]
  | some r =>
    simp only [hr] at h ⊢
    cases hd : r.due with
    | nil => rfl
    | cons slot rest =>
      rw [hd] at h
      cases h

end Engine

namespace Scan

variable {s s' : Scan ω} {M : List Lease} {C L H : List Place} {F : List Lease} {i : Nat}

/-- Nothing is in flight to the inbox, and the dispatcher finds nothing that it could publish or
reduce. -/
structure Idle (s : Scan ω) : Prop where
  inFlight : s.inbox.inFlight = []
  publish : s.publishOne? = none
  reduce : s.reduceOne.1 = false

/-- The consumer has been starved for as long as the hub is patient. -/
def Impatient (s : Scan ω) : Prop :=
  s.engine.patienceOf s.dispatcher.hub ≤ s.engine.clock - s.dispatcher.starvedAt.getD s.engine.clock

/-- The ring of the dispatcher has no free slot. -/
def Full (s : Scan ω) : Prop :=
  ∀ i r, s.dispatcher.ring = some i → s.engine.rings[i]? = some r → r.free = []

lemma full_iff (hd : s.dispatcher.ring = some i) : s.Full ↔ s.engine.claim? i = none := by
  cases hr : s.engine.rings[i]? <;> simp [Full, Engine.claim?, hd, hr, @forall_comm (Ring ω)]

lemma publishOne?_eq_none_iff :
    s.publishOne? = none ↔ s.dispatcher.next? s.engine = none ∨ s.Full := by
  cases hd : s.dispatcher.ring with
  | none => simp [publishOne?, Full, hd]
  | some i =>
    rw [full_iff hd]
    cases hnext : s.dispatcher.next? s.engine <;> simp [publishOne?, hd, hnext]

/-- Publishing changes nothing exactly if there is nothing to publish. -/
lemma publish_eq_self_iff : s.publish = s ↔ s.publishOne? = none := by
  constructor
  · intro h
    cases hone : s.publishOne? with
    | none => rfl
    | some s' =>
      exfalso
      obtain ⟨ring, work, frame, slot, e, -, -, hframe, -, -⟩ := publishOne?_cases hone
      have hlt := (Dispatcher.frameAt?_eq_some_iff.1 hframe).1
      obtain ⟨n, hn⟩ : ∃ n, s.dispatcher.frameCount - s.dispatcher.position = n + 1 :=
        ⟨s.dispatcher.frameCount - s.dispatcher.position - 1, by omega⟩
      have hs' : s.publish = publishUpTo n s' := by
        simp only [publish, hn, publishUpTo, hone]
      have hpos := (load_publishOne? hone).2
      rcases load_publishUpTo n s' with heq | ⟨-, hlater⟩
      · rw [← h, hs', heq] at hpos
        exact Nat.lt_irrefl _ hpos
      · rw [← hs', h] at hlater
        omega
  · intro h
    unfold publish
    cases s.dispatcher.frameCount - s.dispatcher.position with
    | zero => rfl
    | succ n => simp only [publishUpTo, h]

lemma canLease_of_inFlight (h : s.inbox.inFlight = []) : s.inbox.canLease s.engine = .ok false := by
  unfold Inbox.canLease Inbox.ready?
  rw [h]
  cases s.inbox.ring <;> rfl

/-- The scan with nothing pending in the ring of its dispatcher. -/
def emptied (s : Scan ω) : Scan ω :=
  match s.dispatcher.ring with
  | none => s
  | some i => { s with engine := s.engine.modifyRing i fun r => { r with pending := [] } }

/-- What is left of a scan that finds nothing to reduce. -/
lemma reduceOne_of_false (h : s.reduceOne.1 = false) : s.reduceOne = (false, s.emptied) := by
  unfold reduceOne emptied at *
  cases hd : s.dispatcher.ring with
  | none => rfl
  | some i =>
    simp only [hd] at h ⊢
    rw [h, Engine.reduceOldest_of_false h]

/-- What an idle scan is left with after a round of help. -/
lemma Idle.help (h : s.Idle) : s.help = (.ok .starved, s.emptied) := by
  have hlease := canLease_of_inFlight h.inFlight
  have hf : s.emptied.inbox.inFlight = [] := by
    have hk := inbox_reduceOne s
    rw [reduceOne_of_false h.reduce] at hk
    rw [hk]
    exact h.inFlight
  unfold Scan.help
  simp only [publish_eq_self_iff.2 h.publish, hlease, reduceOne_of_false h.reduce, Nat.lt_irrefl,
    hf, if_false, if_true]

/-- A round of help comes to nothing exactly if the scan is idle. -/
lemma help_starved_iff : s.help.1 = .ok .starved ↔ s.Idle := by
  refine ⟨fun h => ?_, fun h => by rw [h.help]⟩
  unfold help at h
  rcases load_publish s with hp | ⟨-, hpos⟩
  · rw [hp] at h
    simp only [Nat.lt_irrefl, if_false] at h
    split at h
    · cases h
    · cases h
    · rcases hr : s.reduceOne with ⟨_ | _, s'⟩
      · have hk : s'.inbox = s.inbox := by
          rw [← inbox_reduceOne s, hr]
        simp only [hr] at h
        split at h
        · rename_i hf
          exact ⟨hk ▸ hf, publish_eq_self_iff.1 hp, by rw [hr]⟩
        · cases h
      · simp [hr] at h
  · simp only [hpos, if_true] at h
    split at h
    · cases h
    · cases h
    · split at h <;> cases h

lemma dispatcher_emptied (s : Scan ω) : s.emptied.dispatcher = s.dispatcher := by
  unfold emptied
  split <;> rfl

lemma inbox_emptied (s : Scan ω) : s.emptied.inbox = s.inbox := by
  unfold emptied
  split <;> rfl

lemma impatient_emptied : s.emptied.Impatient ↔ s.Impatient := by
  unfold emptied
  split <;> exact Iff.rfl

/-- A try to get on fails for saturation exactly if the scan is idle and out of patience. -/
lemma saturates_steal_iff : Saturates s.steal.1 ↔ s.Idle ∧ s.Impatient := by
  by_cases hidle : s.Idle
  · rw [← impatient_emptied]
    simp only [steal, hidle.help, hidle, true_and]
    split
    · rename_i himpatient
      exact iff_of_true ⟨_, _, rfl⟩ himpatient
    · rename_i hpatient
      exact iff_of_false (fun ⟨_, _, h⟩ => nomatch h) hpatient
  · rcases hh : s.help with ⟨x, s'⟩
    have hx : x ≠ .ok .starved := fun hx => hidle (help_starved_iff.1 (by rw [hh, hx]))
    refine iff_of_false ?_ fun h => hidle h.1
    rintro ⟨shard, waited, h⟩
    simp only [steal, hh] at h
    split at h
    · cases h
    · rename_i heq
      exact hx (Prod.mk.inj heq).1
    · cases h

/-- What a try to get on leaves of a scan that it fails for. -/
lemma steal_of_saturates (h : Saturates s.steal.1) :
    s.steal.2.inbox = s.inbox ∧ s.steal.2.dispatcher.ring = s.dispatcher.ring ∧
      s.steal.2.engine.rings = s.emptied.engine.rings := by
  obtain ⟨hidle, himpatient⟩ := saturates_steal_iff.1 h
  rw [← impatient_emptied] at himpatient
  simp only [steal, hidle.help]
  split
  · exact ⟨inbox_emptied s, (dispatcher_emptied s ▸ rfl : s.emptied.dispatcher.ring = _), rfl⟩
  · rename_i hpatient
    exact absurd himpatient hpatient

/-- No slot is free after the try if none was before. -/
lemma Full.steal (h : s.Full) (hs : Saturates s.steal.1) : s.steal.2.Full := by
  obtain ⟨-, hd, hrings⟩ := steal_of_saturates hs
  intro i r hi hr
  rw [hd] at hi
  simp only [hrings, emptied, hi, Engine.getElem?_modifyRing, if_true] at hr
  obtain ⟨r₀, hr₀, rfl⟩ := Option.map_eq_some_iff.1 hr
  exact h i r₀ hi hr₀

end Scan

namespace Workshop

open Scan

variable {W : Workshop ω} {site : Site} {s : Scan ω} {F : List Lease} {H : List Place} {i : Nat}

/-- A slot of a ring is in the hands of others than this inbox: it was claimed by hand, it is
leased, or it was reduced and waits for another inbox or for nobody. -/
def Held (W : Workshop ω) (H : List Place) (k : Inbox) (i slot : Nat) : Prop :=
  (i, slot) ∈ W.claimed ∨ (i, slot) ∈ W.leased ∨
    W.engine.stage? i slot = some .reduced ∧
      ((i, slot) ∈ H ∨ ∃ o k', W.inbox? o = some k' ∧ k'.id ≠ k.id ∧ k'.home = i ∧
        slot ∈ k'.inFlight)

/-- Where no slot is free or pending, and none is in flight to an inbox, others hold them all. -/
lemma Sound.held (h : W.Sound F H) (hs : W.scan? site = some s) (hf : s.inbox.inFlight = [])
    {r : Ring ω} (hr : W.engine.rings[i]? = some r) (hfree : r.free = [])
    (hpending : r.pending = []) {slot : Nat} (hlt : slot < r.capacity) :
    W.Held H s.inbox i slot := by
  have hscan : s.Sound [] W.claimed W.leased F H := h.scan hs (.refl _)
  have ha := h.floor.engine.books.rings i r hr
  obtain ⟨stage, hstage⟩ : ∃ stage, r.stage? slot = some stage :=
    ⟨r.stage slot, Ring.stage?_eq_some_iff.2 ⟨hlt, rfl⟩⟩
  cases stage with
  | free =>
    have hm := (ha.free.2 slot).2 hstage
    rw [hfree] at hm
    exact absurd hm List.not_mem_nil
  | published =>
    have hm := (ha.pending.2 slot).2 hstage
    rw [hpending] at hm
    exact absurd hm List.not_mem_nil
  | claimed => exact .inl (mem_slotsOn.1 ((ha.claimed.2 slot).2 hstage))
  | leased => exact .inr (.inl (mem_slotsOn.1 ((ha.leased.2 slot).2 hstage)))
  | reduced =>
    refine .inr (.inr ⟨(Engine.stage?_eq hr).trans hstage, ?_⟩)
    have hm := mem_slotsOn.1 ((ha.flown.2 slot).2 (.inr hstage))
    rcases List.mem_append.1 hm with hm | hm
    · obtain ⟨l, hl, hplace⟩ := List.mem_map.1 hm
      obtain ⟨o, k', hk', hid⟩ := h.floor.bound l hl
      have hflight : l ∈ k'.flights := by
        rw [← (h.floor.fed o k' hk').flights]
        exact List.mem_filter.2 ⟨hl, by simp [hid]⟩
      obtain ⟨slot', hslot', rfl⟩ := List.mem_map.1 hflight
      obtain ⟨rfl, rfl⟩ := Prod.mk.inj hplace
      refine .inr ⟨o, k', hk', fun hid' => ?_, rfl, hslot'⟩
      -- nothing is in flight to the inbox itself
      have hown : (⟨k'.home, slot', k'.id⟩ : Lease) ∈ s.inbox.flights := by
        rw [← hscan.fed.flights]
        exact List.mem_filter.2 ⟨hl, by simp [hid']⟩
      simp [Inbox.flights, hf] at hown
    · exact .inl hm

/-- A consumer's try to get on fails for saturation exactly if nothing is in flight to it, there
is nothing that it could publish or reduce, and its hub has no patience left.  Nothing is in
flight or pending then, and the dispatcher has no frame left to publish or its ring no free slot.
In a workshop that can be reached all slots of the ring are in the hands of others then, if a
frame is left. -/
theorem saturates_iff_starved (s : Scan ω) :
    (Saturates s.steal.1 ↔ s.Idle ∧ s.Impatient) ∧
    (Saturates s.steal.1 → s.steal.2.inbox.inFlight = [] ∧
      s.steal.2.engine.pendingIn s.dispatcher.ring = [] ∧
        (s.dispatcher.next? s.engine = none ∨ s.steal.2.Full)) ∧
    (Saturates s.steal.1 → s.dispatcher.next? s.engine ≠ none →
      ∀ W H site i r, Reached W H → W.scan? site = some s → s.dispatcher.ring = some i →
        s.engine.rings[i]? = some r → ∀ slot < r.capacity, W.Held H s.inbox i slot) := by
  refine ⟨saturates_steal_iff, fun h => ?_, fun h hnext W H site i r hW hs hd hr slot hlt => ?_⟩
  · obtain ⟨hk, -, hrings⟩ := steal_of_saturates h
    obtain ⟨hidle, -⟩ := saturates_steal_iff.1 h
    refine ⟨hk ▸ hidle.inFlight, ?_,
      (publishOne?_eq_none_iff.1 hidle.publish).imp_right (·.steal h)⟩
    unfold Engine.pendingIn
    rw [hrings]
    unfold emptied
    cases hd : s.dispatcher.ring with
    | none => simp
    | some i => cases hr : s.engine.rings[i]? <;> simp [Engine.getElem?_modifyRing, hr]
  · obtain ⟨hidle, -⟩ := saturates_steal_iff.1 h
    obtain ⟨F, hsound⟩ := hW.sound
    have hscan : s.Sound [] W.claimed W.leased F H := hsound.scan hs (.refl _)
    have hpending : r.pending = [] := by
      by_contra hne
      have ht := (hscan.reduceOne_fst hd).2 (by rwa [Engine.pendingIn_some hr])
      rw [hidle.reduce] at ht
      cases ht
    have hfull := (publishOne?_eq_none_iff.1 hidle.publish).resolve_left hnext
    have hr' : W.engine.rings[i]? = some r := (scan?_eq_some_iff.1 hs).2.2 ▸ hr
    exact hsound.held hs hidle.inFlight hr' (hfull i r hd hr) hpending hlt

/-- What is done until a scan of one frame is complete: the frame was collected, and its slot came
back. -/
def completed : List (Deed Unit) :=
  [.addDispatcher "d" (.filtering .ascending), .addInbox "k",
    .dispatch ⟨.own "d", .own "k"⟩ (plainSource [1]) 0 keepAll, .gather ⟨.own "d", .own "k"⟩ 1]

/-- The consumer of a complete scan is told of a saturated ring, and all slots are free. -/
theorem saturates_beside_free_slots : ∃ s H, (completed.foldl after small).Reached H ∧
    (completed.foldl after small).scan? ⟨.own "d", .own "k"⟩ = some s ∧
      s.dispatcher.ring = some 0 ∧ (s.engine.rings[0]?).map (·.free) = some [1, 0] ∧
        Saturates s.steal.1 := by
  have h : (completed.foldl after small).Reached [] :=
    (reached_fitted.deed (permits_fitted (plainSource [1]) keepAll)).deed
      ⟨available_of_sites (s := .ofPlan "p") (by decide +kernel) nofun nofun,
        .inl (by decide +kernel)⟩
  have hat : ((completed.foldl after small).scan? ⟨.own "d", .own "k"⟩).map (fun s =>
      (s.dispatcher.ring, (s.engine.rings[0]?).map (·.free), s.steal.1)) =
        some (some 0, some [1, 0], .error (.failed (.saturated 0 0))) := by decide +kernel
  obtain ⟨s, hs, hat⟩ := Option.map_eq_some_iff.1 hat
  simp only [Prod.mk.injEq] at hat
  obtain ⟨hd, hfree, hsteal⟩ := hat
  exact ⟨s, [], h, hs, hd, hfree, 0, 0, hsteal⟩

end Workshop

end TableScan
