import TableScan.Proofs.Traffic

/-!
# The turnover of slots

Slots go round between producers, reducers and the consumers of several inboxes.  Every step keeps
the ring beside its record (`Kept`), with one case for each kind of step.  Main statement: whoever
works on a ring in whatever order, an inbox obtains its leases in the order of its posts, each post
once, with what its own reduction left of what was written into it.
-/

namespace TableScan

variable {ω : Type}

namespace Traffic

/-- The record and the ring agree: every slot has one holder, the slots in flight to an inbox are
those of the posts that it has no lease for, and the leases are for the posts before. -/
structure Kept (i : Nat) (r : Ring ω) (t : Record ω) (s : Traffic ω) : Prop where
  there : s.engine.rings[i]? = some r
  accounts : ∃ F, (r.withTaken s.taken).Accounts s.claimed (s.leases.map (·.slot)) F
  leases : ∀ l ∈ s.leases, l.ring = i
  inboxes : ∀ k, (s.inboxes k).ring = some i
  flights : ∀ k, (s.inboxes k).inFlight = ((t.posts k).drop (t.leases k).length).map (·.slot)
  awaits : ∀ k n p, (t.leases k).length ≤ n → (t.posts k)[n]? = some p → r.Awaits t k n p
  delivers : ∀ k n, n < (t.leases k).length → t.Delivers i k n

namespace Kept

variable {i : Nat} {r r' : Ring ω} {t u : Record ω} {s s' : Traffic ω}

/-- A record begins with nothing in flight to any inbox. -/
lemma begin (hr : s.engine.rings[i]? = some r)
    (ha : ∃ F, (r.withTaken s.taken).Accounts s.claimed (s.leases.map (·.slot)) F)
    (hl : ∀ l ∈ s.leases, l.ring = i)
    (hk : ∀ k, (s.inboxes k).ring = some i ∧ (s.inboxes k).inFlight = []) : s.Kept i r [] := by
  refine ⟨hr, ha, hl, fun k => (hk k).1, fun k => ?_, ?_, ?_⟩
  · rw [(hk k).2]
    rfl
  · simp [Record.posts]
  · simp [Record.leases]

/-- A new ring has an empty record. -/
lemma opened (h : s.Opened i) : ∃ r, s.Kept i r [] := by
  obtain ⟨shard, capacity, hr⟩ := h.ring
  refine ⟨_, begin hr ⟨[], ?_⟩ (by simp [h.leases]) h.inboxes⟩
  rw [h.claimed, h.taken, h.leases]
  exact Ring.Accounts.ofCapacity shard capacity

/-- A step that concerns no slot in flight and enters neither a post nor a lease. -/
lemma quiet (h : s.Kept i r t) (hr : s'.engine.rings[i]? = some r')
    (ha : ∃ F, (r'.withTaken s'.taken).Accounts s'.claimed (s'.leases.map (·.slot)) F)
    (hl : ∀ l ∈ s'.leases, l ∈ s.leases) (hi : s'.inboxes = s.inboxes)
    (hu : ∀ k, Record.posts k u = [] ∧ Record.leases k u = [])
    (hk : ∀ k n p, r.Awaits t k n p → r'.Awaits (t ++ u) k n p) : s'.Kept i r' (t ++ u) := by
  have hp : ∀ k, (t ++ u).posts k = t.posts k := fun k => by simp [(hu k).1]
  have hle : ∀ k, (t ++ u).leases k = t.leases k := fun k => by simp [(hu k).2]
  refine ⟨hr, ha, fun l hm => h.leases l (hl l hm), ?_, ?_, ?_, ?_⟩
  · rw [hi]
    exact h.inboxes
  · intro k
    rw [hi, hp, hle]
    exact h.flights k
  · intro k n p
    rw [hp, hle]
    intro hn hget
    exact hk k n p (h.awaits k n p hn hget)
  · intro k n
    rw [hle]
    intro hn
    exact (h.delivers k n hn).append u

/-- A step that concerns one slot, which is not in flight. -/
lemma quiet_at (h : s.Kept i r t) {slot : Nat} {stage : Stage} (hs : r.stage? slot = some stage)
    (h₁ : stage ≠ .published) (h₂ : stage ≠ .reduced) (hr : s'.engine.rings[i]? = some r')
    (ha : ∃ F, (r'.withTaken s'.taken).Accounts s'.claimed (s'.leases.map (·.slot)) F)
    (hl : ∀ l ∈ s'.leases, l ∈ s.leases) (hi : s'.inboxes = s.inboxes)
    (hu : ∀ k, Record.posts k u = [] ∧ Record.leases k u = []) (hev : ∀ ev ∈ u, ev.slot = slot)
    (hstage : ∀ j ≠ slot, r'.stage? j = r.stage? j) (htask : ∀ j ≠ slot, r'.task j = r.task j) :
    s'.Kept i r' (t ++ u) := by
  refine h.quiet hr ha hl hi hu fun k n p hp => ?_
  have hne : p.slot ≠ slot := hp.slot_ne hs h₁ h₂
  exact hp.keep (fun ev hm => hev ev hm ▸ hne.symm) (hstage _ hne) (htask _ hne)

lemma stage_claimed (h : s.Kept i r t) {slot : Nat} (hm : slot ∈ s.claimed) :
    r.stage? slot = some .claimed := by
  obtain ⟨F, ha⟩ := h.accounts
  exact (ha.claimed.2 slot).1 hm

lemma stage_taken (h : s.Kept i r t) {slot : Nat} (hm : slot ∈ s.taken) :
    r.stage? slot = some .published := by
  obtain ⟨F, ha⟩ := h.accounts
  exact (ha.pending.2 slot).1 (List.mem_append_left _ hm)

lemma stage_leased (h : s.Kept i r t) {l : Lease} (hm : l ∈ s.leases) :
    r.stage? l.slot = some .leased := by
  obtain ⟨F, ha⟩ := h.accounts
  exact (ha.leased.2 l.slot).1 (List.mem_map_of_mem hm)

/-- The accounts with a claimed slot in front. -/
lemma accounts_claimed (h : s.Kept i r t) {slot : Nat} (hm : slot ∈ s.claimed) :
    ∃ F, (r.withTaken s.taken).Accounts (slot :: s.claimed.erase slot)
      (s.leases.map (·.slot)) F := by
  obtain ⟨F, ha⟩ := h.accounts
  exact ⟨F, ha.perm (List.perm_cons_erase hm) (.refl _) (.refl _)⟩

/-- The accounts with a leased slot in front. -/
lemma accounts_leased (h : s.Kept i r t) {l : Lease} (hm : l ∈ s.leases) :
    ∃ F, (r.withTaken s.taken).Accounts s.claimed
      (l.slot :: (s.leases.erase l).map (·.slot)) F := by
  obtain ⟨F, ha⟩ := h.accounts
  exact ⟨F, ha.perm (.refl _) ((List.perm_cons_erase hm).map _) (.refl _)⟩

/-- No pending slot is skipped. -/
lemma due (h : s.Kept i r t) : r.due = r.pending := by
  obtain ⟨F, ha⟩ := h.accounts
  exact Ring.due_eq fun j hj => (ha.pending.2 j).1 (List.mem_append_right _ hj)

lemma ring_modifyRing (h : s.Kept i r t) (f : Ring ω → Ring ω) :
    (s.engine.modifyRing i f).rings[i]? = some (f r) :=
  Engine.getElem?_modifyRing_self h.there

/-- A task that its holder writes into is not in flight. -/
lemma modifyTask (h : s.Kept i r t) {slot : Nat} {stage : Stage} (hs : r.stage? slot = some stage)
    (h₁ : stage ≠ .published) (h₂ : stage ≠ .reduced) (f : Task ω → Task ω) :
    (s.modifyRing i (·.modifyTask slot f)).Kept i (r.modifyTask slot f) (t ++ []) := by
  obtain ⟨F, ha⟩ := h.accounts
  refine h.quiet_at hs h₁ h₂ (h.ring_modifyRing _) ⟨F, ha.modifyTask slot f⟩ (fun l hl => hl) rfl
    (fun _ => ⟨rfl, rfl⟩) (by simp) (fun j _ => Ring.stage?_modifyTask)
    fun j hj => Ring.task_modifyTask_ne hj

lemma claim (h : s.Kept i r t) {slot : Nat} {e : Engine ω}
    (hc : s.engine.claim? i = some (slot, e)) :
    ({ s with engine := e, claimed := slot :: s.claimed } : Traffic ω).Kept i r.claim
      (t ++ []) := by
  obtain ⟨F, ha⟩ := h.accounts
  obtain ⟨r', rest, hr', hf, rfl⟩ := Engine.claim?_cases hc
  obtain rfl := Option.some.inj (h.there.symm.trans hr')
  have hs : r.stage? slot = some .free := ((ha.free.2 slot).1 (hf ▸ List.mem_cons_self ..))
  refine h.quiet_at hs (by decide) (by decide) (h.ring_modifyRing _) ⟨F, ?_⟩ (fun l hl => hl) rfl
    (fun _ => ⟨rfl, rfl⟩) (by simp) (fun j => Ring.stage?_claim hf)
    fun j _ => Ring.task_claim
  rw [Ring.withTaken_claim]
  exact ha.claim hf

lemma discard (h : s.Kept i r t) {slot : Nat} (hm : slot ∈ s.claimed) :
    ({ s with engine := s.engine.putBack i slot,
              claimed := s.claimed.erase slot } : Traffic ω).Kept i (r.putBack slot)
      (t ++ [.freed slot]) := by
  obtain ⟨F, ha⟩ := h.accounts_claimed hm
  refine h.quiet_at (h.stage_claimed hm) (by decide) (by decide) (h.ring_modifyRing _)
    ⟨F, ha.putBack_claimed⟩ (fun l hl => hl) rfl
    (fun _ => ⟨by simp, by simp⟩)
    (by simp [Event.slot]) (fun j => Ring.stage?_putBack) fun j hj => ?_
  rw [Ring.task_putBack, if_neg fun h => hj h.1]

lemma stray (h : s.Kept i r t) {slot : Nat} (hm : slot ∈ s.claimed) :
    ({ s with engine := s.engine.publish i slot,
              claimed := s.claimed.erase slot } : Traffic ω).Kept i (r.publish slot)
      (t ++ [.strayed slot]) := by
  obtain ⟨F, ha⟩ := h.accounts_claimed hm
  refine h.quiet_at (h.stage_claimed hm) (by decide) (by decide) (h.ring_modifyRing _)
    ⟨slot :: F, ?_⟩ (fun l hl => hl) rfl
    (fun _ => ⟨by simp, by simp⟩)
    (by simp [Event.slot]) (fun j => Ring.stage?_publish) fun j _ => Ring.task_publish
  rw [Ring.withTaken_publish]
  exact ha.publish

/-- A lease ends, with whatever notice to the operator. -/
lemma free (h : s.Kept i r t) {l : Lease} (hm : l ∈ s.leases) {e : Engine ω}
    (he : e.rings = (s.engine.putBack i l.slot).rings) :
    ({ s with engine := e, leases := s.leases.erase l } : Traffic ω).Kept i (r.putBack l.slot)
      (t ++ [.freed l.slot]) := by
  obtain ⟨F, ha⟩ := h.accounts_leased hm
  refine h.quiet_at (h.stage_leased hm) (by decide) (by decide) ?_ ⟨F, ha.putBack_leased⟩
    (fun l' hl => List.mem_of_mem_erase hl) rfl
    (fun _ => ⟨by simp, by simp⟩)
    (by simp [Event.slot]) (fun j => Ring.stage?_putBack) fun j hj => ?_
  · rw [he]
    exact h.ring_modifyRing _
  · rw [Ring.task_putBack, if_neg fun h => hj h.1]

lemma take (h : s.Kept i r t) {slot : Nat} {rest : List Nat} (hd : r.due = slot :: rest) :
    ({ s.modifyRing i (·.withPending rest) with
      taken := slot :: s.taken } : Traffic ω).Kept i (r.withPending rest) (t ++ []) := by
  obtain ⟨F, ha⟩ := h.accounts
  have hp : r.pending = slot :: rest := h.due.symm.trans hd
  refine h.quiet (h.ring_modifyRing _) ⟨F, ?_⟩ (fun l hl => hl) rfl
    (fun _ => ⟨rfl, rfl⟩) fun k n p hk => hk.keep (by simp) rfl rfl
  have hperm : (r.withTaken s.taken).pending.Perm (slot :: s.taken ++ rest) := by
    show (s.taken ++ r.pending).Perm _
    rw [hp]
    exact List.perm_middle
  exact ha.withPending hperm

lemma elsewhere (h : s.Kept i r t) {e : Engine ω} (he : e.rings[i]? = s.engine.rings[i]?) :
    ({ s with engine := e } : Traffic ω).Kept i r (t ++ []) :=
  h.quiet (he.trans h.there) h.accounts (fun l hl => hl) rfl
    (fun _ => ⟨rfl, rfl⟩) fun k n p hk => hk.keep (by simp) rfl rfl

/-- A reduction ends: the slot holds the outcome of what was posted in it. -/
lemma finish (h : s.Kept i r t) {slot : Nat} {u : Task ω} {x : Option Fault} {w : ω}
    (hm : slot ∈ s.taken)
    (hrun : (s.engine.task i slot).run s.engine.epoch s.engine.world = (u, x, w)) :
    ({ s with
      engine := (s.engine.withWorld w).modifyRing i fun r => r.reduceTo slot r.pending u
      taken := s.taken.erase slot } : Traffic ω).Kept i (r.reduceTo slot r.pending u)
      (t ++ [.reduced slot s.engine.epoch s.engine.world]) := by
  obtain ⟨F, ha⟩ := h.accounts
  have hs : r.stage? slot = some .published := h.stage_taken hm
  have hperm : (r.withTaken s.taken).pending.Perm
      (slot :: (s.taken.erase slot ++ r.pending)) :=
    (List.perm_cons_erase hm).append_right r.pending
  refine h.quiet (Engine.getElem?_modifyRing_self h.there)
    ⟨F, (ha.withPending hperm).reduceTo rfl u⟩ (fun l hl => hl) rfl
    (fun _ => ⟨by simp, by simp⟩) fun k n p hk => ?_
  by_cases hp : p.slot = slot
  · subst hp
    have hu : u = ((r.task p.slot).run s.engine.epoch s.engine.world).1 := by
      rw [← Engine.task_eq h.there, hrun]
    rw [hu]
    exact hk.reduceTo hs s.engine.epoch s.engine.world
  · refine hk.keep (fun ev hev => ?_) (Ring.stage?_reduceTo hp) ?_
    · rw [List.mem_singleton.1 hev]
      exact fun he => hp he.symm
    · rw [Ring.task_reduceTo, if_neg fun h => hp h.1]

/-- An inbox has no more leases than posts. -/
lemma length_le (h : s.Kept i r t) (k : Nat) : (t.leases k).length ≤ (t.posts k).length := by
  by_contra hlt
  exact Nat.lt_irrefl _ (h.delivers k _ (Nat.lt_of_not_le hlt)).lt

/-- A step that concerns one inbox: nothing changes for what was posted to the others. -/
lemma setInbox (h : s.Kept i r t) {k : Nat} {inbox : Inbox}
    (hr : s'.engine.rings[i]? = some r')
    (ha : ∃ F, (r'.withTaken s'.taken).Accounts s'.claimed (s'.leases.map (·.slot)) F)
    (hl : ∀ l ∈ s'.leases, l.ring = i) (hi : s'.inboxes = s.inboxes)
    (hu : ∀ j ≠ k, Record.posts j u = [] ∧ Record.leases j u = [])
    (hkeep : ∀ j ≠ k, ∀ n p, r.Awaits t j n p → r'.Awaits (t ++ u) j n p)
    (hring : inbox.ring = some i)
    (hflights : inbox.inFlight =
      (((t ++ u).posts k).drop ((t ++ u).leases k).length).map (·.slot))
    (hawaits : ∀ n p, ((t ++ u).leases k).length ≤ n → ((t ++ u).posts k)[n]? = some p →
      r'.Awaits (t ++ u) k n p)
    (hdelivers : ∀ n < ((t ++ u).leases k).length, (t ++ u).Delivers i k n) :
    (s'.setInbox k inbox).Kept i r' (t ++ u) := by
  have hp : ∀ j ≠ k, (t ++ u).posts j = t.posts j := fun j hj => by simp [(hu j hj).1]
  have hle : ∀ j ≠ k, (t ++ u).leases j = t.leases j := fun j hj => by simp [(hu j hj).2]
  refine ⟨hr, ha, hl, fun j => ?_, fun j => ?_, fun j n p hn hget => ?_, fun j n hn => ?_⟩
  all_goals by_cases hj : j = k
  · simpa [Traffic.setInbox, hj] using hring
  · simpa [Traffic.setInbox, hj, hi] using h.inboxes j
  · simpa [Traffic.setInbox, hj] using hflights
  · simpa [Traffic.setInbox, hj, hi, hp, hle] using h.flights j
  · subst hj
    exact hawaits n p hn hget
  · rw [hle j hj] at hn
    rw [hp j hj] at hget
    exact hkeep j hj n p (h.awaits j n p hn hget)
  · subst hj
    exact hdelivers n hn
  · rw [hle j hj] at hn
    exact (h.delivers j n hn).append u

/-- A slot that is posted is in flight behind the others. -/
lemma post (h : s.Kept i r t) (k : Nat) {p : Post ω} (hm : p.slot ∈ s.claimed) :
    (({ s with
      engine := (s.engine.modifyRing i (·.modifyTask p.slot fun _ => p.task)).publish i p.slot
      claimed := s.claimed.erase p.slot } : Traffic ω).setInbox k
        ((s.inboxes k).push p.slot)).Kept i
      ((r.modifyTask p.slot fun _ => p.task).publish p.slot) (t ++ [.posted k p]) := by
  obtain ⟨F, ha⟩ := h.accounts_claimed hm
  have hs : r.stage? p.slot = some .claimed := h.stage_claimed hm
  have hle : Record.leases k (t ++ [.posted k p]) = t.leases k := by simp
  have hposts : Record.posts k (t ++ [.posted k p]) = t.posts k ++ [p] := by simp
  -- the posts before are about other slots
  have hkeep : ∀ j n q, r.Awaits t j n q →
      ((r.modifyTask p.slot fun _ => p.task).publish p.slot).Awaits (t ++ [.posted k p]) j n q := by
    intro j n q hq
    have hqp : q.slot ≠ p.slot := hq.slot_ne hs (by decide) (by decide)
    refine hq.keep (by simpa [Event.slot] using hqp.symm) ?_ ?_
    · rw [Ring.stage?_publish hqp, Ring.stage?_modifyTask]
    · rw [Ring.task_publish, Ring.task_modifyTask_ne hqp]
  have hnew : ((r.modifyTask p.slot fun _ => p.task).publish p.slot).Awaits
      (t ++ [.posted k p]) k (t.posts k).length p := by
    refine ⟨t, [], rfl, rfl, .posted ?_ ?_⟩
    · exact (Ring.stage?_moved_to (by simpa using hs)).2 (.inl rfl)
    · rw [Ring.task_publish, Ring.task_modifyTask, if_pos ⟨rfl, Ring.lt_capacity hs⟩]
  refine h.setInbox ?_ ⟨p.slot :: F, ?_⟩ h.leases rfl (fun j hj => ?_) (fun j _ => hkeep j)
    (h.inboxes k) ?_ (fun n q hn hget => ?_) fun n hn => ?_
  · exact Engine.getElem?_modifyRing_self (h.ring_modifyRing _)
  · rw [Ring.withTaken_publish]
    exact Ring.Accounts.publish (ha.modifyTask p.slot fun _ => p.task)
  · simp [Record.posts_posted_ne [] hj]
  · rw [hle, hposts, List.drop_append_of_le_length (h.length_le k)]
    simp [Inbox.push, h.flights k]
  · rw [hle] at hn
    rw [hposts, List.getElem?_append] at hget
    split at hget
    · exact hkeep k n q (h.awaits k n q hn hget)
    · rename_i hlt
      obtain ⟨h0, rfl⟩ := List.getElem?_eq_some_iff.1 hget
      obtain rfl : n = (t.posts k).length := by
        rw [List.length_singleton] at h0
        omega
      simpa using hnew
  · rw [hle] at hn
    exact (h.delivers k n hn).append _

/-- The first slot in flight is that of the first post without a lease. -/
lemma first (h : s.Kept i r t) {k slot : Nat} {rest : List Nat}
    (hf : (s.inboxes k).inFlight = slot :: rest) :
    ∃ p ps, (t.posts k).drop (t.leases k).length = p :: ps ∧ p.slot = slot ∧
      ps.map (·.slot) = rest ∧ r.Awaits t k (t.leases k).length p := by
  have hflights := h.flights k
  rw [hf] at hflights
  obtain ⟨p, ps, hdrop, hslot, hps⟩ := List.map_eq_cons_iff.1 hflights.symm
  refine ⟨p, ps, hdrop, hslot, hps, h.awaits k _ p (Nat.le_refl _) ?_⟩
  rw [← Nat.add_zero (t.leases k).length, ← List.getElem?_drop, hdrop]
  rfl

/-- The first slot in flight is leased. -/
lemma lease (h : s.Kept i r t) (k : Nat) {l : Lease} {inbox : Inbox} {e : Engine ω}
    (hn : (s.inboxes k).next? s.engine = .ok (some (l, inbox, e))) :
    (({ s with engine := e, leases := l :: s.leases } : Traffic ω).setInbox k inbox).Kept i
      (r.lease l.slot) (t ++ [.leased k l (e.task l.ring l.slot)]) := by
  obtain ⟨ring, slot, rest, r', hring, hflight, hr, hs, rfl, rfl, rfl⟩ := Inbox.next?_cases hn
  obtain rfl : i = ring := Option.some.inj ((h.inboxes k).symm.trans hring)
  obtain rfl : r = r' := Option.some.inj (h.there.symm.trans hr)
  have htask : ((s.inboxes k).leased s.engine i slot).task i slot = r.task slot :=
    (Engine.task_eq (Engine.getElem?_modifyRing_self h.there)).trans Ring.task_lease
  obtain ⟨p, ps, hdrop, rfl, hps, hfirst⟩ := h.first hflight
  have hdelivers := hfirst.delivers (l := ⟨i, p.slot, (s.inboxes k).id⟩) hs rfl rfl rfl
  simp only [htask]
  generalize r.task p.slot = got at hdelivers ⊢
  -- the other posts are about other slots
  have hother : ∀ j n q, r.Awaits t j n q → (j = k → n ≠ (t.leases k).length) →
      (r.lease p.slot).Awaits (t ++ [.leased k ⟨i, p.slot, (s.inboxes k).id⟩ got]) j n q := by
    intro j n q hq hjn
    have hqp : q.slot ≠ p.slot := fun hqp =>
      have hu := hq.unique hfirst hqp
      hjn hu.1 hu.2.1
    exact hq.keep (by simpa [Event.slot] using hqp.symm) (Ring.stage?_lease hqp) Ring.task_lease
  obtain ⟨F, ha⟩ := h.accounts
  have hF := List.perm_cons_erase ((ha.flown.2 p.slot).2 (.inr hs))
  have hposts : Record.posts k (t ++ [.leased k ⟨i, p.slot, (s.inboxes k).id⟩ got]) =
      t.posts k := by simp
  have hlen : (Record.leases k (t ++ [.leased k ⟨i, p.slot, (s.inboxes k).id⟩ got])).length =
      (t.leases k).length + 1 := by simp
  refine h.setInbox (Engine.getElem?_modifyRing_self h.there)
    ⟨_, (ha.perm (.refl _) (.refl _) hF).lease hs⟩ (fun l hl => ?_) rfl (fun j hj => ?_)
    (fun j hj n q hq => hother j n q hq fun he => absurd he hj) (h.inboxes k) ?_
    (fun n q hn hq => ?_) fun n hlt => ?_
  · rcases List.mem_cons.1 hl with rfl | hl
    · rfl
    · exact h.leases l hl
  · simp [Record.leases_leased_ne [] hj]
  · rw [hposts, hlen, ← List.tail_drop, hdrop, List.tail_cons, hps]
  · rw [hposts] at hq
    rw [hlen] at hn
    exact hother k n q (h.awaits k n q (by omega) hq) fun _ => by omega
  · rw [hlen] at hlt
    rcases Nat.lt_succ_iff_lt_or_eq.1 hlt with hlt | rfl
    · exact (h.delivers k n hlt).append _
    · exact hdelivers

/-- A step keeps the record and the ring together. -/
lemma step (h : s.Kept i r t) (hs : Step i s u s') : ∃ r', s'.Kept i r' (t ++ u) := by
  cases hs with
  | claim done => exact ⟨_, h.claim done⟩
  | write f held => exact ⟨_, h.modifyTask (h.stage_claimed held) (by decide) (by decide) f⟩
  | discard held => exact ⟨_, h.discard held⟩
  | post k p held => exact ⟨_, h.post k held⟩
  | stray held => exact ⟨_, h.stray held⟩
  | take there due =>
    obtain rfl := Option.some.inj (h.there.symm.trans there)
    exact ⟨_, h.take due⟩
  | finish slot held ran => exact ⟨_, h.finish held ran⟩
  | lease k done => exact ⟨_, h.lease k done⟩
  | edit f held => exact ⟨_, h.modifyTask (h.stage_leased held) (by decide) (by decide) f⟩
  | @giveBack l held =>
    refine ⟨_, h.free held ?_⟩
    rw [← h.leases l held]
    rfl
  | @drop l held =>
    refine ⟨_, h.free held ?_⟩
    rw [← h.leases l held]
    rfl
  | elsewhere same => exact ⟨r, h.elsewhere same⟩

end Kept

/-- Any number of steps keeps the record and the ring together. -/
lemma Run.kept_from {i : Nat} {r : Ring ω} {s₀ s : Traffic ω} {t₀ t : Record ω} (h : Run i s₀ t s)
    (h₀ : s₀.Kept i r t₀) : ∃ r', s.Kept i r' (t₀ ++ t) := by
  induction h with
  | none => exact ⟨r, by rwa [List.append_nil]⟩
  | step _ step ih =>
    obtain ⟨r', hr'⟩ := ih
    rw [← List.append_assoc]
    exact hr'.step step

lemma Run.kept {i : Nat} {s₀ s : Traffic ω} {t : Record ω} (h : Run i s₀ t s)
    (h₀ : s₀.Opened i) : ∃ r, s.Kept i r t := by
  obtain ⟨r, hr⟩ := Kept.opened h₀
  exact h.kept_from hr

end Traffic

/-! ## The operations of a scan -/

/-- The post of the next frame, if there is one and the ring has room. -/
def Scan.post? (s : Scan ω) : Option (Post ω) :=
  match s.dispatcher.ring, s.dispatcher.work, s.dispatcher.frameAt? s.dispatcher.position with
  | some ring, some work, some frame => (s.engine.claim? ring).map fun (slot, _) =>
      ⟨slot, work, s.engine.epoch s.dispatcher.id, frame, s.dispatcher.directory.rowCount frame⟩
  | _, _, _ => none

/-- What a round of reduction enters in the record of a ring. -/
def Engine.reduction (e : Engine ω) (i : Nat) : Record ω :=
  ((e.rings[i]?.bind (·.due.head?)).map fun slot => Event.reduced slot e.epoch e.world).toList

/-- A round of reduction runs the task of the first slot that is due. -/
lemma Engine.reduceOldest_due {e : Engine ω} {i slot : Nat} {r : Ring ω} {rest : List Nat}
    (hr : e.rings[i]? = some r) (hdue : r.due = slot :: rest) :
    ∃ e', e.reduceOldest i = (true, e') ∧
      e'.rings[i]? = some (r.reduceTo slot rest ((r.task slot).run e.epoch e.world).1) ∧
      e'.world = ((r.task slot).run e.epoch e.world).2.2 := by
  rcases hrun : (r.task slot).run e.epoch e.world with ⟨u, x, w⟩
  have hring := getElem?_modifyRing_self (e := e.withWorld w) (f := (·.reduceTo slot rest u)) hr
  simp only [reduceOldest, hr, hdue, hrun]
  cases x with
  | none => exact ⟨_, rfl, hring, rfl⟩
  | some fault => exact ⟨_, rfl, hring, rfl⟩

namespace Traffic

section Operations

variable {i : Nat} {r : Ring ω} {s : Traffic ω} {t : Record ω}

/-- A scan that publishes its next frame claims a slot and posts the frame for its inbox. -/
lemma Run.publishOne? (k : Nat) {a b : Scan ω} (he : a.engine = s.engine)
    (hk : a.inbox = s.inboxes k) (hr : a.dispatcher.ring = some i)
    (hp : a.publishOne? = some b) :
    ∃ p : Post ω, a.post? = some p ∧
      Run i s [.posted k p] ({ s with engine := b.engine }.setInbox k b.inbox) := by
  obtain ⟨ring, work, frame, slot, e, hring, hwork, hframe, hclaim, rfl⟩ :=
    Scan.publishOne?_cases hp
  obtain rfl : i = ring := Option.some.inj (hr.symm.trans hring)
  let p : Post ω := ⟨slot, work, a.engine.epoch a.dispatcher.id, frame,
    a.dispatcher.directory.rowCount frame⟩
  refine ⟨p, by simp [Scan.post?, hring, hwork, hframe, hclaim, p], ?_⟩
  have hrun := ((Run.none : Run i s [] s).step (.claim (he ▸ hclaim))).step
    (.post k p (List.mem_cons_self ..))
  simpa [hk, p, Post.task] using hrun

/-- A round of reduction takes a slot up and finishes it, or does nothing. -/
lemma Run.reduceOldest (h : s.Kept i r t) :
    Run i s (s.engine.reduction i) { s with engine := (s.engine.reduceOldest i).2 } := by
  cases hd : r.due with
  | nil =>
    have hnone : s.engine.reduction i = [] := by simp [Engine.reduction, h.there, hd]
    have hp : r.pending = [] := h.due.symm.trans hd
    rw [hnone]
    refine (Run.none : Run i s [] s).step (.elsewhere ?_)
    simp only [Engine.reduceOldest, h.there, hd]
    rw [h.ring_modifyRing]
    exact congrArg some (congrArg (fun p => { r with pending := p }) hp.symm)
  | cons slot rest =>
    have hsome : s.engine.reduction i = [.reduced slot s.engine.epoch s.engine.world] := by
      simp [Engine.reduction, h.there, hd]
    rcases hrun : (r.task slot).run s.engine.epoch s.engine.world with ⟨u, x, w⟩
    let s₁ : Traffic ω := { s.modifyRing i (·.withPending rest) with taken := slot :: s.taken }
    have hthere : s₁.engine.rings[i]? = some (r.withPending rest) :=
      h.ring_modifyRing (·.withPending rest)
    have hran : (s₁.engine.task i slot).run s₁.engine.epoch s₁.engine.world = (u, x, w) := by
      rw [Engine.task_eq hthere]
      exact hrun
    have hfinished := ((Run.none : Run i s [] s).step (.take h.there hd)).step
      (.finish slot (List.mem_cons_self ..) hran)
    -- the ring is the same, with or without a notice to the operator
    have hring : (s.engine.reduceOldest i).2.rings[i]? = some (r.reduceTo slot rest u) := by
      obtain ⟨e', hreduce, hring, -⟩ := Engine.reduceOldest_due h.there hd
      rw [hreduce, hring, hrun]
    have hring₁ : ((s₁.engine.withWorld w).modifyRing i
        fun r => r.reduceTo slot r.pending u).rings[i]? = some (r.reduceTo slot rest u) :=
      Engine.getElem?_modifyRing_self (e := s₁.engine.withWorld w) hthere
    have hsame := hfinished.step (.elsewhere (hring.trans hring₁.symm))
    rw [hsome]
    simpa [s₁, modifyRing] using hsame

end Operations

/-! ## What an inbox obtains -/

/-- A lease on ring `i` that is for the slot of a post, with a task about what was posted. -/
structure Fits (i : Nat) (p : Post ω) (l : Lease) (got : Task ω) : Prop where
  ring : l.ring = i
  slot : l.slot = p.slot
  dispatcher : got.dispatcher = p.work.dispatcher
  epoch : got.epoch = p.epoch
  frame : got.frame = p.frame
  rowCount : got.rowCount = p.rowCount

/-- What inbox `k` has obtained on ring `i`, and what it obtains next. -/
structure InOrder (i : Nat) (t : Record ω) (s : Traffic ω) (k : Nat) : Prop where
  /-- In flight are the posts after those that were leased, in the order of publication. -/
  flights : (s.inboxes k).inFlight = ((t.posts k).drop (t.leases k).length).map (·.slot)
  /-- The `n`th lease is for the `n`th post, and carries what was written there. -/
  fits : ∀ (n : Nat) (l : Lease) (got : Task ω), (t.leases k)[n]? = some (l, got) →
    ∃ p : Post ω, (t.posts k)[n]? = some p ∧ Fits i p l got
  /-- Between the two, one run of the task is all that happened to the slot. -/
  delivers : ∀ n < (t.leases k).length, t.Delivers i k n
  /-- The inbox obtains a lease exactly if it says that it can, and obtains none only if nothing
  is in flight or the first slot in flight is not reduced. -/
  answers : ∃ r b, s.engine.rings[i]? = some r ∧ (s.inboxes k).canLease s.engine = .ok b ∧
    (b = true ↔ ∃ l inbox e, (s.inboxes k).next? s.engine = .ok (some (l, inbox, e))) ∧
    (b = false ↔ (s.inboxes k).next? s.engine = .ok none) ∧
    (b = false ↔ ∀ slot ∈ (s.inboxes k).inFlight.head?, r.stage? slot ≠ some .reduced)

section InOrder

variable {i : Nat} {r : Ring ω} {s₀ s : Traffic ω} {t : Record ω} {k : Nat}

lemma fits_of_delivers {n : Nat} (h : t.Delivers i k n) {l : Lease} {got : Task ω}
    (hget : (t.leases k)[n]? = some (l, got)) :
    ∃ p, (t.posts k)[n]? = some p ∧ Fits i p l got := by
  obtain ⟨before, between, after, p, l', epochOf, w, rfl, hposts, hleases, hring, hslot, -⟩ := h
  have hl : Record.leases k (before ++ .posted k p ::
      (between ++ .leased k l' (p.outcome epochOf w) :: after)) =
      Record.leases k (before ++ between) ++ (l', p.outcome epochOf w) :: Record.leases k after := by
    simp
  rw [hl, List.getElem?_append_right (Nat.le_of_eq hleases), hleases, Nat.sub_self] at hget
  obtain ⟨rfl, rfl⟩ := Prod.mk.inj (Option.some.inj hget)
  obtain ⟨rows, error, ho⟩ := p.outcome_eq epochOf w
  refine ⟨p, ?_, hring, hslot, ?_, ?_, ?_, ?_⟩
  · rw [Record.posts_append, List.getElem?_append_right (Nat.le_of_eq hposts), hposts, Nat.sub_self]
    simp
  all_goals
    rw [ho]
    rfl

/-- The leases of an inbox are for the first of its posts. -/
lemma Kept.leasedFrames_eq (h : s.Kept i r t) (k : Nat) :
    t.leasedFrames k = (t.postedFrames k).take (t.leases k).length := by
  refine List.ext_getElem? fun n => ?_
  unfold Record.leasedFrames Record.postedFrames
  by_cases hn : n < (t.leases k).length
  · obtain ⟨⟨l, got⟩, hget⟩ : ∃ x, (t.leases k)[n]? = some x := ⟨_, List.getElem?_eq_getElem hn⟩
    obtain ⟨p, hp, hfits⟩ := fits_of_delivers (h.delivers k n hn) hget
    rw [List.getElem?_take_of_lt hn, List.getElem?_map, List.getElem?_map, hget, hp]
    simp [hfits.epoch, hfits.frame]
  · rw [List.getElem?_eq_none (by simpa using hn), List.getElem?_eq_none]
    rw [List.length_take]
    omega

/-- Whether the first slot in flight can be leased. -/
lemma Kept.ready (h : s.Kept i r t) (k : Nat) :
    ((s.inboxes k).ready? s.engine = .ok none ∧
        ∀ slot ∈ (s.inboxes k).inFlight.head?, r.stage? slot ≠ some .reduced) ∨
      ∃ slot, (s.inboxes k).inFlight.head? = some slot ∧ r.stage? slot = some .reduced ∧
        (s.inboxes k).ready? s.engine = .ok (some (i, slot)) := by
  have hring := h.inboxes k
  cases hf : (s.inboxes k).inFlight with
  | nil => simp [Inbox.ready?, hring, hf]
  | cons slot rest =>
    obtain ⟨p, hp, hs⟩ : ∃ p, (t.posts k)[(t.leases k).length]? = some p ∧ p.slot = slot := by
      have hh := congrArg List.head? (h.flights k)
      rw [hf, List.head?_map, List.head?_drop] at hh
      exact Option.map_eq_some_iff.1 hh.symm
    have hflown := hs ▸ (h.awaits k _ p (Nat.le_refl _) hp).flown
    have hlt : slot < r.capacity := hflown.elim Ring.lt_capacity Ring.lt_capacity
    have hready : (s.inboxes k).ready? s.engine =
        .ok (if r.isCollectable slot then some (i, slot) else none) := by
      simp [Inbox.ready?, hring, hf, h.there, hlt]
    by_cases hc : r.isCollectable slot = true
    · refine .inr ⟨slot, rfl, (Ring.isCollectable_iff hlt).1 hc, ?_⟩
      rw [hready, if_pos hc]
    · refine .inl ⟨?_, ?_⟩
      · rw [hready, if_neg hc]
      · simpa [Ring.isCollectable_iff hlt] using hc

end InOrder

/-- Whoever works on a ring in whatever order, every inbox obtains its leases in the order of its
posts, each post once, with the outcome of its own task. -/
theorem leases_in_order {i : Nat} {s₀ s : Traffic ω} {t : Record ω} (h₀ : s₀.Opened i)
    (h : Run i s₀ t s) (k : Nat) : s.InOrder i t k := by
  obtain ⟨r, hk⟩ := h.kept h₀
  refine ⟨hk.flights k, fun n l got hget => ?_, hk.delivers k, ?_⟩
  · exact fits_of_delivers (hk.delivers k n (List.getElem?_eq_some_iff.1 hget).1) hget
  · rcases hk.ready k with ⟨hready, hnone⟩ | ⟨slot, hhead, hs, hready⟩
    · refine ⟨r, false, hk.there, ?_, ?_, ?_, ?_⟩
      · simp [Inbox.canLease, hready]
      · simp [Inbox.next?, hready]
      · simp [Inbox.next?, hready]
      · exact ⟨fun _ => hnone, fun _ => rfl⟩
    · refine ⟨r, true, hk.there, ?_, ?_, ?_, ?_⟩
      · simp [Inbox.canLease, hready]
      · simp [Inbox.next?, Inbox.lease, hready]
      · simp [Inbox.next?, hready]
      · simp [hhead, hs]

/-- A new ring of two slots, with an inbox for every number. -/
def twoSlots : Traffic Unit where
  engine := { rings := #[.ofCapacity 0 2], epochs := #[0, 1], world := () }
  inboxes k := { id := k, ring := some 0 }

/-- The work of a dispatcher whose frames are kept whole. -/
def wholeFrames : Work Unit where
  dispatcher := 1
  view := {}
  filter := { judge := fun _ w => (.keep, w) }
  reducer info _ _ w := (.finished (List.range info.rowCount) none, w)

/-- Slots for two inboxes, reduced the other way round, and one of them used again. -/
def swapped : Record Unit :=
  let epochOf := twoSlots.engine.epoch
  let p : Post Unit := ⟨0, wholeFrames, 1, 7, 3⟩
  let q : Post Unit := ⟨1, wholeFrames, 1, 8, 1⟩
  let r : Post Unit := ⟨1, wholeFrames, 0, 9, 2⟩
  [.posted 0 p, .posted 1 q, .reduced 1 epochOf (), .leased 1 ⟨0, 1, 1⟩ (q.outcome epochOf ()),
    .freed 1, .posted 0 r, .reduced 1 epochOf (), .reduced 0 epochOf (),
    .leased 0 ⟨0, 0, 0⟩ (p.outcome epochOf ()), .leased 0 ⟨0, 1, 0⟩ (r.outcome epochOf ())]

theorem leases_in_order_swapped :
    twoSlots.Opened 0 ∧ ∃ s, Run 0 twoSlots swapped s ∧ s.InOrder 0 swapped 0 := by
  have h₀ : twoSlots.Opened 0 := ⟨⟨0, 2, rfl⟩, fun _ => ⟨rfl, rfl⟩, rfl, rfl, rfl⟩
  have h : ∃ s, Run 0 twoSlots swapped s := by
    have h₁ := (((Run.none : Run 0 twoSlots [] twoSlots).step (.claim rfl)).step
      (.post 0 ⟨0, wholeFrames, 1, 7, 3⟩ (by decide))).step (.claim rfl)
    have h₂ := (h₁.step (.post 1 ⟨1, wholeFrames, 1, 8, 1⟩ (by decide))).step (.take rfl rfl)
    have h₃ := (h₂.step (.take rfl rfl)).step (.finish 1 (by decide) rfl)
    have h₄ := (h₃.step (.lease 1 rfl)).step (.giveBack (l := ⟨0, 1, 1⟩) (by decide))
    have h₅ := (h₄.step (.claim rfl)).step (.post 0 ⟨1, wholeFrames, 0, 9, 2⟩ (by decide))
    have h₆ := (h₅.step (.take rfl rfl)).step (.finish 1 (by decide) rfl)
    have h₇ := h₆.step (.finish 0 (by decide) rfl)
    have h₈ := (h₇.step (.lease 0 rfl)).step (.lease 0 rfl)
    exact ⟨_, h₈⟩
  obtain ⟨s, h⟩ := h
  exact ⟨h₀, s, h, leases_in_order h₀ h 0⟩

end Traffic

end TableScan
