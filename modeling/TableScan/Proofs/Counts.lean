import TableScan.Proofs.Starting
import TableScan.Proofs.Stability
import TableScan.Proofs.Tallies

/-!
# Counts

How many slots a scan leases.  Every frame that is published is in flight until it is leased, and
a cursor leases a slot for every frame that it passes.  Main statement: a cursor that has passed
all frames of a new execution has leased as many slots, and no more
(`Cursor.Counted.claimed_eq`).
-/

namespace TableScan

variable {ω : Type}

namespace Engine

variable {e : Engine ω}

/-- What comes back was leased before. -/
lemma claimed_release (e : Engine ω) (l : Lease) (i : Nat) :
    ((e.release l).tally i).claimed = (e.tally i).claimed := by
  have ht : (e.release l).tallies[i]? = if l.inbox = i then
      (e.tallies[i]?).map fun t => { t with released := t.released + 1 } else e.tallies[i]? :=
    Array.getElem?_modify
  unfold tally
  rw [ht]
  by_cases hi : l.inbox = i <;> cases e.tallies[i]? <;> simp [hi]

end Engine

namespace Scan

variable {s s' : Scan ω} {l : Lease} {n : Nat}

/-- The number of slots that the inbox of a scan has leased. -/
def claimed (s : Scan ω) : Nat := (s.engine.tally s.inbox.id).claimed

/-- All frames that were published were leased or are in flight, and at least `n` were leased. -/
structure Counts (n : Nat) (s : Scan ω) : Prop where
  known : s.inbox.id < s.engine.tallies.size
  published : s.claimed + s.inbox.inFlight.length = s.dispatcher.position
  within : s.dispatcher.position ≤ s.dispatcher.frameCount
  least : n ≤ s.claimed

namespace Counts

lemma congr (h : s.Counts n) (hd : s'.dispatcher.position = s.dispatcher.position)
    (hc : s'.dispatcher.frameCount = s.dispatcher.frameCount) (hk : s'.inbox = s.inbox)
    (ht : s'.engine.tallies = s.engine.tallies) : s'.Counts n := by
  have hclaimed : s'.claimed = s.claimed := by
    rw [claimed, Engine.tally_congr ht, hk, claimed]
  exact ⟨hk ▸ ht ▸ h.known, by rw [hclaimed, hk, hd, h.published], by rw [hd, hc]; exact h.within,
    hclaimed ▸ h.least⟩

lemma mono (h : s.Counts n) {m : Nat} (hm : m ≤ n) : s.Counts m :=
  ⟨h.known, h.published, h.within, Nat.le_trans hm h.least⟩

/-- A lease is counted. -/
lemma next? (h : s.Counts n) (hn : s.next? = .ok (some (l, s'))) : s'.Counts (n + 1) := by
  obtain ⟨ring, slot, rest, r, -, hflight, -, -, -, rfl⟩ := next?_cases hn
  have hpublished := h.published
  have hleast := h.least
  have hclaimed : claimed { s with
      inbox := { s.inbox with inFlight := rest }
      engine := s.inbox.leased s.engine ring slot } = s.claimed + 1 := by
    have hleased : (s.inbox.leased s.engine ring slot).tallies =
        s.engine.tallies.modify s.inbox.id fun t => { t with claimed := t.claimed + 1 } := rfl
    have ht := Engine.tally_modify hleased h.known s.inbox.id
    rw [if_pos rfl] at ht
    exact congrArg Tally.claimed ht
  rw [hflight, List.length_cons] at hpublished
  refine ⟨?_, ?_, h.within, ?_⟩
  · simpa [Inbox.leased] using h.known
  · rw [hclaimed]
    show s.claimed + 1 + rest.length = s.dispatcher.position
    omega
  · rw [hclaimed]
    omega

/-- A frame that is published is in flight. -/
lemma publishOne? (h : s.Counts n) (hs : s.publishOne? = some s') : s'.Counts n := by
  obtain ⟨ring, work, frame, slot, e, -, -, hframe, hclaim, rfl⟩ := publishOne?_cases hs
  have ht := Engine.tallies_claim? hclaim
  have hclaimed : (e.tally s.inbox.id).claimed = s.claimed := by
    rw [Engine.tally_congr ht, claimed]
  have hpublished := h.published
  refine ⟨?_, ?_, (Dispatcher.frameAt?_eq_some_iff.1 hframe).1, ?_⟩
  · show s.inbox.id < e.tallies.size
    exact ht ▸ h.known
  · show (e.tally s.inbox.id).claimed + (s.inbox.inFlight ++ [slot]).length =
      s.dispatcher.position + 1
    rw [hclaimed, List.length_append, List.length_singleton]
    omega
  · show n ≤ (e.tally s.inbox.id).claimed
    exact hclaimed ▸ h.least

lemma done (h : s.Counts n) (l : Lease) : (s.done l).Counts n := by
  have hclaimed : (s.done l).claimed = s.claimed := Engine.claimed_release ..
  refine ⟨?_, ?_, h.within, hclaimed ▸ h.least⟩
  · simpa [Scan.done, Engine.release, Engine.putBack, Engine.modifyRing] using h.known
  · rw [hclaimed]
    exact h.published

/-- The count goes on along an execution. -/
lemma steady (n : Nat) : Steady (ω := ω) (Counts n) where
  publishOne? := publishOne?
  reduceOldest h _ := h.congr rfl rfl rfl (Engine.tallies_reduceOldest ..)
  next? h hn := (h.next? hn).mono (Nat.le_succ _)
  done := done
  quiet h _ _ _ ht := h.congr rfl rfl rfl ht
  starvedFrom h _ := h.congr rfl rfl rfl rfl

/-- A wait that ends with a lease has counted it. -/
lemma await (h : s.Counts n) (ha : s.await = (.ok l, s')) : s'.Counts (n + 1) := by
  fun_induction Scan.await s with
  | case2 s l' s₁ hn =>
    obtain ⟨hl, rfl⟩ := Prod.mk.inj ha
    exact h.next? hn
  | case4 s hn s₁ hh ih =>
    have hp := (steady n).help h
    rw [hh] at hp
    exact ih ((steady n).starvedFrom hp none) ha
  | case1 | case3 | case5 | case6 => cases ha

end Counts

end Scan

namespace Scan

variable {s s' : Scan ω}

/-- The count begins with a launch. -/
lemma counts_launch {source : Source ω} {hub : Nat} {filter : Filter ω} {frames : List Frame}
    (hid : s.inbox.id < s.engine.tallies.size) (hnone : s.claimed = 0)
    (h : s.launch source hub filter frames = (.ok (), s')) : s'.Counts 0 := by
  obtain ⟨t, hd, ha⟩ := drawShard_eq s.nextEpoch hub
  have hinbox : t.inbox = s.inbox := by
    have hi := inbox_drawShard (s := s.nextEpoch) hub
    rwa [hd] at hi
  have htallies : t.engine.tallies = s.engine.tallies := ha.tallies
  simp only [launch, hd] at h
  split at h
  · cases h
  · obtain ⟨-, rfl⟩ := Prod.mk.inj h
    refine (Counts.steady 0).publish ⟨?_, ?_, Nat.zero_le _, Nat.zero_le _⟩
    · show t.inbox.id < t.engine.tallies.size
      rwa [hinbox, htallies]
    · show (t.engine.tally t.inbox.id).claimed + 0 = 0
      rw [Engine.tally_congr htallies, hinbox]
      exact hnone

end Scan

namespace Cursor

variable {c c' : Cursor} {s s' : Scan ω}

/-- A cursor on a scan that counts its leases has passed at most as many frames. -/
abbrev Counted (c : Cursor) (s : Scan ω) : Prop := s.Counts c.position

namespace Counted

lemma advance (h : c.Counted s) : (c.advance s).2.1.Counted (c.advance s).2.2 := by
  fun_induction Cursor.advance c s with
  | case1 c s _ stop s' ha =>
    have hp := (Scan.Counts.steady c.position).await h
    rw [ha] at hp
    cases stop <;> exact hp
  | case2 c s _ l s' ha _ _ ih => exact ih (((h.await ha).done l).mono (Nat.le_succ _))
  | case3 c s _ l s' ha =>
    have hp := (h.await ha).mono (Nat.le_succ _)
    exact ((Scan.Counts.steady c.position).note hp _).done l
  | case4 c s _ l s' ha =>
    have hp := (h.await ha).mono (Nat.le_succ _)
    exact (Scan.Counts.steady c.position).note (hp.done l) _
  | case5 c s _ l s' ha _ _ _ _ _ ih => exact ih ((h.await ha).done l)
  | case6 c s _ l s' ha => exact h.await ha
  | case7 => exact h

/-- A cursor that moves on passes frames only by leases. -/
lemma next (h : c.Counted s) : (c.next s).2.1.Counted (c.next s).2.2 := by
  have ha : (c.emptied.advance (c.giveBack s)).2.1.Counted (c.emptied.advance (c.giveBack s)).2.2 :=
    Counted.advance (c := c.emptied) (steady_giveBack (Scan.Counts.steady c.position) h c)
  have deliver : ∀ {c : Cursor} {s : Scan ω}, c.Counted s → c.deliver.Counted s := by
    intro c s h
    unfold Cursor.deliver
    split <;> exact h
  unfold Cursor.next
  split
  · exact h
  · exact h
  all_goals
    split
    · exact deliver h
    · split <;> rename_i hadv <;> rw [hadv] at ha
      · exact deliver ha
      · exact ha
      · exact ha

/-- A cursor counts from its opening on. -/
lemma openOn (h : s.Counts 0) (ho : Cursor.openOn s = (.ok c, s')) : c.Counted s' := by
  have ha : ((start s.dispatcher).advance s).2.1.Counted ((start s.dispatcher).advance s).2.2 :=
    Counted.advance (c := start s.dispatcher) h
  unfold Cursor.openOn at ho
  split at ho <;> rename_i hadv
  · obtain ⟨hc, rfl⟩ := Prod.mk.inj ho
    obtain rfl := Except.ok.inj hc
    rwa [hadv] at ha
  · split at ho <;> cases ho

/-- Where all frames were passed, all were leased. -/
lemma claimed_eq (h : c.Counted s) (hcount : c.frameCount = s.dispatcher.frameCount)
    (hpast : c.frameCount ≤ c.position) : s.claimed = c.frameCount := by
  have := h.least
  have := h.published
  have := h.within
  omega

end Counted

/-- A cursor comes to its end only past the last frame. -/
lemma position_of_advance (h : c.advance s = (.ok false, c', s')) :
    c'.frameCount ≤ c'.position := by
  fun_induction Cursor.advance c s with
  | case2 c s _ l s₁ ha _ _ ih => exact ih h
  | case5 c s _ l s₁ ha _ _ _ _ _ ih => exact ih h
  | case7 c s hlt =>
    obtain ⟨-, h⟩ := Prod.mk.inj h
    obtain ⟨rfl, -⟩ := Prod.mk.inj h
    exact Nat.not_lt.1 hlt
  | case1 | case3 | case4 | case6 => cases h

/-- A cursor that finds no more rows is exhausted past the last frame. -/
lemma ended_of_next (hc : c.IsOpen) (h : c.next s = (.ok false, c', s')) :
    c'.phase = .exhausted ∧ c'.frameCount ≤ c'.position := by
  unfold Cursor.next at h
  split at h
  · rename_i hp
    exact absurd hc (by rintro (hc | hc) <;> rw [hp] at hc <;> cases hc)
  · rename_i hp
    exact absurd hc (by rintro (hc | hc) <;> rw [hp] at hc <;> cases hc)
  all_goals
    split at h
    · cases h
    · split at h <;> rename_i hadv
      · cases h
      · obtain ⟨-, h⟩ := Prod.mk.inj h
        obtain ⟨rfl, -⟩ := Prod.mk.inj h
        have hpast := position_of_advance hadv
        exact ⟨rfl, hpast⟩
      · cases h

end Cursor

end TableScan
