import TableScan.Proofs.Moves

/-!
# Operations as sequences of moves

Publishing, helping, waiting and settling, the executions of a dispatcher and the operations of a
cursor are sequences of moves.  A cursor's lease is at hand before and after each of its
operations; the leases that others hold stay as they are.
-/

namespace TableScan

variable {ω σ : Type}

/-- The leases that a wait has come to. -/
def held : Except Stop Lease → List Lease
  | .ok l => [l]
  | .error _ => []

namespace Scan

variable {s s' : Scan ω} {π : ω → σ} {l : Lease} {M : List Lease} {C L H : List Place}
  {F : List Lease}

/-! ## Publishing and waiting -/

lemma Moves.home {a b : Scan ω × List Lease} (m : Moves π a b) (h : a.1.Home) : b.1.Home :=
  m.sameSite.home h

lemma moves_publish (h : s.Home) : Moves π (s, M) (s.publish, M) :=
  publish_keeps (P := fun t => Moves π (s, M) (t, M))
    (fun m hs => m.tail (.publish (Moves.home m h) hs)) .refl

lemma moves_reduceOne {b : Bool} (h : s.reduceOne = (b, s')) : Moves π (s, M) (s', M) := by
  have hs : s' = s.reduceOne.2 := by rw [h]
  rw [hs]
  exact .single .reduce

lemma moves_starvedFrom (since : Option Nat) : Moves π (s, M) (s.starvedFrom since, M) :=
  .single (.adjust rfl rfl rfl (.inl ⟨rfl, rfl, rfl, rfl, .inl rfl⟩))

lemma moves_note (n : Notice) : Moves π (s, M) (s.note n, M) :=
  .single (.alike ⟨rfl, rfl, rfl, rfl, rfl⟩)

lemma moves_help (h : s.Home) : Moves π (s, M) (s.help.2, M) := by
  have m : Moves π (s, M) (s.publish, M) := moves_publish h
  unfold help
  dsimp only
  split
  · exact m
  · exact m
  · split
    · rename_i hr
      exact m.trans (moves_reduceOne hr)
    · rename_i hr
      split_ifs <;> exact m.trans (moves_reduceOne hr)

lemma moves_giveUp (waited : Nat) : Moves π (s, M) ((s.giveUp waited).2, M) :=
  (moves_starvedFrom none).trans (moves_note _)

lemma moves_steal (h : s.Home) : Moves π (s, M) (s.steal.2, M) := by
  have m : Moves π (s, M) (s.help.2, M) := moves_help h
  unfold steal
  split
  · rename_i hh
    rwa [hh] at m
  · rename_i hh
    rw [hh] at m
    dsimp only
    split
    · exact m.trans (moves_giveUp 0)
    · exact m.trans (moves_starvedFrom _)
  · rename_i hh
    rw [hh] at m
    exact m.trans (moves_starvedFrom none)

lemma moves_starve : Moves π (s, M) (s.starve.2, M) :=
  (Relation.ReflTransGen.single (.alike ⟨rfl, rfl, rfl, rfl, rfl⟩)).trans (moves_giveUp _)

lemma moves_await (h : s.Home) : Moves π (s, M) (s.await.2, held s.await.1 ++ M) := by
  fun_induction await s with
  | case1 => exact .refl
  | case2 s l s' hn => exact .single (.lease hn)
  | case3 s hn fault s' hh =>
    have m : Moves π (s, M) (s.help.2, M) := moves_help h
    rwa [hh] at m
  | case4 s hn s' hh ih =>
    have m : Moves π (s, M) (s.help.2, M) := moves_help h
    rw [hh] at m
    have m' := m.trans (moves_starvedFrom none)
    exact m'.trans (ih (Moves.home m' h))
  | case5 s hn s' hh =>
    have m : Moves π (s, M) (s.help.2, M) := moves_help h
    rw [hh] at m
    exact m.trans (moves_starvedFrom none)
  | case6 s hn s' hh failure s'' hs =>
    have m : Moves π (s, M) (s.help.2, M) := moves_help h
    rw [hh] at m
    have m' : Moves π (s', M) (s'.starve.2, M) := moves_starve
    rw [hs] at m'
    exact m.trans m'

lemma moves_gather (n : Nat) (h : s.Home) : Moves π (s, M) ((s.gather n).2, M) := by
  induction n generalizing s with
  | zero => exact .refl
  | succ n ih =>
    have m : Moves π (s, M) (s.await.2, held s.await.1 ++ M) := moves_await h
    unfold gather
    split
    · rename_i ha
      rwa [ha] at m
    · rename_i s' ha
      rw [ha] at m
      have m' := m.tail .giveBack
      have m'' := m'.trans (ih (Moves.home m' h))
      split
      · rename_i hg
        rwa [hg] at m''
      · exact m''

/-! ## Settling -/

lemma moves_settle : Moves π (s, M) (s.settle.2, M) := by
  fun_induction settle s with
  | case1 => exact .refl
  | case2 => exact .refl
  | case3 s hf l s' hn ih =>
    exact ((Relation.ReflTransGen.single (.lease hn)).tail .giveBack).trans ih
  | case4 s hf hn s' hr ih => exact (moves_reduceOne hr).trans ih
  | case5 s hf hn s' hr => exact moves_reduceOne hr

lemma moves_drain : Moves π (s, M) (s.drain.2, M) :=
  (Relation.ReflTransGen.single (.adjust rfl rfl rfl (.inl ⟨rfl, rfl, rfl, rfl, .inr rfl⟩))).trans
    moves_settle

lemma moves_replace : Moves π (s, M) (s.replace.2, M) := by
  unfold replace
  split
  · exact .refl
  · exact (moves_note _).trans moves_drain

lemma inFlight_settle (h : s.settle = (.ok (), s')) : s'.inbox.inFlight = [] := by
  fun_induction settle s with
  | case1 s hf =>
    obtain ⟨-, rfl⟩ := Prod.mk.inj h
    exact hf
  | case3 s hf l s₁ hn ih => exact ih h
  | case4 s hf hn s₁ hr ih => exact ih h
  | case2 | case5 => cases h

lemma inFlight_replace (h : s.replace = (.ok (), s')) : s'.inbox.inFlight = [] := by
  unfold replace at h
  split at h
  · rename_i hf
    obtain ⟨-, rfl⟩ := Prod.mk.inj h
    exact hf
  · exact inFlight_settle h

/-- The next slot of a moored scan on a sound engine is ready, or still pending. -/
lemma Sound.next?_or_pending (h : s.Sound M C L F H) {ring : Nat}
    (hk : s.inbox.ring = some ring) :
    (∃ l s', s.next? = .ok (some (l, s'))) ∨
      s.next? = .ok none ∧ ∀ slot rest, s.inbox.inFlight = slot :: rest →
        slot ∈ s.engine.pendingIn (some ring) := by
  cases hf : s.inbox.inFlight with
  | nil =>
    right
    simp [next?, Inbox.next?, Inbox.ready?, hk, hf]
  | cons slot rest =>
    obtain ⟨F₁, F₂, rfl, -, -⟩ := h.fed.split hk hf
    have hp : (ring, slot) ∈ (F₁ ++ ⟨ring, slot, s.inbox.id⟩ :: F₂).map Lease.place ++ H :=
      (Engine.map_place_middle F₁ F₂ H ⟨ring, slot, s.inbox.id⟩).mem_iff.2 (List.mem_cons_self ..)
    obtain ⟨r, hr, hs⟩ := h.engine.books.flown hp
    have hlt : slot < r.capacity := hs.elim Ring.lt_capacity Ring.lt_capacity
    by_cases hc : r.isCollectable slot = true
    · left
      simp [next?, Inbox.next?, Inbox.ready?, hk, hf, hr, hlt, hc]
    · right
      have hpub : r.stage? slot = some .published :=
        hs.resolve_right fun hs => hc ((Ring.isCollectable_iff hlt).2 hs)
      refine ⟨by simp [next?, Inbox.next?, Inbox.ready?, hk, hf, hr, hlt, hc], fun k l hkl => ?_⟩
      obtain ⟨rfl, -⟩ := List.cons.inj hkl
      have hp := ((h.engine.books.rings ring r hr).pending.2 slot).2 hpub
      simpa [Engine.pendingIn, hr] using hp

/-- With something pending in the ring of the dispatcher there is something to reduce. -/
lemma Sound.reduceOne_fst (h : s.Sound M C L F H) {ring : Nat}
    (hd : s.dispatcher.ring = some ring) :
    s.reduceOne.1 = true ↔ s.engine.pendingIn (some ring) ≠ [] := by
  unfold reduceOne
  rw [hd]
  rcases hred : s.engine.reduceOldest ring with ⟨b, e⟩
  rcases h.engine.books.reduceOldest_cases hred with
    ⟨rfl, -, hp⟩ | ⟨rfl, r, k, rest, -, -, -, hr, hp, -⟩
  · simp [hred, hp]
  · simp [hred, Engine.pendingIn, hr, hp]

/-- A moored scan on a sound engine settles all that is in flight to it. -/
lemma settle_ok (h : s.Sound M C L F H) (hm : s.Moored) : s.settle.1 = .ok () := by
  fun_induction settle s generalizing F with
  | case1 => rfl
  | case2 s hf fault hn =>
    obtain ⟨ring, -, hk⟩ := hm
    rcases h.next?_or_pending hk with ⟨l, s', hn'⟩ | ⟨hn', -⟩ <;> rw [hn] at hn' <;> cases hn'
  | case3 s hf l s' hn ih =>
    have m : Moves (fun _ : ω => ()) (s, M) (s'.done l, M) :=
      (Relation.ReflTransGen.single (.lease hn)).tail .giveBack
    obtain ⟨F', h', -⟩ := Moves.sound m h
    exact ih h' ((Moves.sameSite m).moored hm)
  | case4 s hf hn s' hr ih =>
    have m : Moves (fun _ : ω => ()) (s, M) (s', M) := moves_reduceOne hr
    obtain ⟨F', h', -⟩ := Moves.sound m h
    exact ih h' ((Moves.sameSite m).moored hm)
  | case5 s hf hn s' hr =>
    -- the first slot in flight is pending, so that something is reduced
    exfalso
    obtain ⟨ring, hd, hk⟩ := hm
    obtain ⟨slot, rest, hfl⟩ := List.exists_cons_of_ne_nil hf
    rcases h.next?_or_pending hk with ⟨l, s', hn'⟩ | ⟨-, hp⟩
    · rw [hn] at hn'
      cases hn'
    · have ht := (h.reduceOne_fst hd).2 (List.ne_nil_of_mem (hp slot rest hfl))
      rw [hr] at ht
      cases ht

lemma drain_ok (h : s.Sound M C L F H) (hm : s.Moored) : s.drain.1 = .ok () := by
  have m : Move (fun _ : ω => ()) (s, M) _ :=
    .adjust (d := { s.dispatcher with position := s.dispatcher.frameCount }) rfl rfl rfl
      (.inl ⟨rfl, rfl, rfl, rfl, .inr rfl⟩)
  obtain ⟨F', h', -⟩ := m.sound h
  exact settle_ok h' hm

/-! ## Executions -/

lemma ringOf_of_sameSize (h : s.engine.SameSize s'.engine) (hub shard : Nat) :
    s'.ringOf hub shard = s.ringOf hub shard := by
  have hh : (s'.engine.hubs[hub]?).map Hub.rings = (s.engine.hubs[hub]?).map Hub.rings := by
    rw [← Array.getElem?_map, ← Array.getElem?_map, h.hubs]
  unfold ringOf
  cases ha : s.engine.hubs[hub]? with
  | none =>
    rw [ha, Option.map_none, Option.map_eq_none_iff] at hh
    rw [hh]
  | some a =>
    rw [ha, Option.map_some] at hh
    obtain ⟨b, hb, hab⟩ := Option.map_eq_some_iff.1 hh
    obtain ⟨h₁, h₂⟩ := Prod.mk.inj hab
    simp only [hb, Hub.ring, h₁, h₂]

/-- All rings of a hub belong to the engine of the scan. -/
def HasHub (s : Scan ω) (hub : Nat) : Prop :=
  ∀ shard, s.ringOf hub shard < s.engine.rings.size

lemma HasHub.of_sameSize {hub : Nat} (h : s.HasHub hub) (hs : s.engine.SameSize s'.engine) :
    s'.HasHub hub := by
  intro shard
  rw [ringOf_of_sameSize hs, hs.rings]
  exact h shard

/-- It does not matter whether the shard is drawn before or after the epoch begins. -/
lemma drawShard_nextEpoch (s : Scan ω) (hub : Nat) :
    s.nextEpoch.drawShard hub = ((s.drawShard hub).1, (s.drawShard hub).2.nextEpoch) := by
  unfold drawShard
  have hshard : s.nextEpoch.dispatcher.shard = s.dispatcher.shard := rfl
  rw [hshard]
  cases s.dispatcher.shard with
  | some shard => rfl
  | none =>
    have hhub : s.nextEpoch.engine.hubs[hub]? = s.engine.hubs[hub]? := rfl
    simp only [Engine.drawShard, hhub]
    cases s.engine.hubs[hub]? <;> rfl

lemma moves_drawShard (hub : Nat) : Moves π (s, M) ((s.drawShard hub).2, M) := by
  unfold drawShard
  split
  · exact .refl
  · have ha := Engine.alike_drawShard s.engine π hub
    rcases he : s.engine.drawShard hub with ⟨shard, e⟩
    rw [he] at ha
    have m : Moves π (s, M) ({ s with engine := e }, M) := .single (.alike ha)
    exact m.tail (.adjust (d := { s.dispatcher with shard := some shard }) rfl rfl rfl
      (.inl ⟨rfl, rfl, rfl, rfl, .inl rfl⟩))

@[simp] lemma inbox_drawShard (hub : Nat) : (s.drawShard hub).2.inbox = s.inbox := by
  unfold drawShard
  split <;> rfl

lemma moves_launch {source : Source ω} {hub : Nat} {filter : Filter ω} {frames : List Frame}
    (hf : s.inbox.inFlight = []) (hh : s.HasHub hub) (hl : s.dispatcher.reducer.Leaves filter π) :
    Moves π (s, M) ((s.launch source hub filter frames).2, M) := by
  have m : Moves π (s, M) ((s.drawShard hub).2, M) := moves_drawShard hub
  have hf' : (s.drawShard hub).2.inbox.inFlight = [] := by
    rw [inbox_drawShard]
    exact hf
  unfold launch
  rw [drawShard_nextEpoch]
  rcases hd : s.drawShard hub with ⟨shard, s₁⟩
  rw [hd] at m hf'
  rcases hadd : (Directory.ofSchema source.schema).addAll frames with ⟨fault, directory⟩
  simp only [listFrames, hadd]
  -- the frames are listed: the last execution is gone
  have m₁ := m.tail (.adjust (d := { s₁.dispatcher with work := none, directory }) rfl rfl rfl
    (.inr rfl))
  cases fault with
  | some fault => exact m₁.tail .epoch
  | none =>
    refine (m₁.tail (.begin hf' ?_ ?_)).trans (moves_publish ?_)
    · exact hh.of_sameSize (Moves.sameSite m₁).size shard
    · rw [(Moves.sameSite m₁).reducer]
      exact hl
    · intro i hi
      exact Option.some.inj hi

lemma moves_dispatch {source : Source ω} {hub : Nat} {filter : Filter ω} (hh : s.HasHub hub)
    (hs : ∀ w, π (source.supply w).2 = π w) (hl : s.dispatcher.reducer.Leaves filter π) :
    Moves π (s, M) ((s.dispatch source hub filter).2, M) := by
  have m : Moves π (s, M) (s.replace.2, M) := moves_replace
  unfold dispatch
  split
  · rename_i hr
    rwa [hr] at m
  · rename_i s₁ hr
    rw [hr] at m
    have hf : s₁.inbox.inFlight = [] := inFlight_replace hr
    have m₁ := m.tail (.alike (e := s₁.engine.withWorld (source.supply s₁.engine.world).2)
      ⟨rfl, rfl, rfl, rfl, hs _⟩)
    dsimp only
    split
    · exact m₁
    · refine m₁.trans (moves_launch hf ?_ ?_)
      · exact hh.of_sameSize (Moves.sameSite m₁).size
      · rw [(Moves.sameSite m₁).reducer]
        exact hl

/-- An execution that was launched is moored; one that was not has left the inbox alone. -/
lemma launch_cases (s : Scan ω) (source : Source ω) (hub : Nat) (filter : Filter ω)
    (frames : List Frame) :
    (∃ s', s.launch source hub filter frames = (.ok (), s') ∧ s'.Moored) ∨
      ∃ stop s', s.launch source hub filter frames = (.error stop, s') ∧ s'.inbox = s.inbox := by
  have hk : (s.nextEpoch.drawShard hub).2.inbox = s.inbox := inbox_drawShard hub
  unfold launch
  rcases hd : s.nextEpoch.drawShard hub with ⟨shard, s₁⟩
  rw [hd] at hk
  dsimp only
  split
  · exact .inr ⟨_, _, rfl, hk⟩
  · rename_i d _
    refine .inl ⟨_, rfl, ?_⟩
    have hm : Moored { s₁ with
        dispatcher := begin d source hub (s₁.ringOf hub shard) filter
        inbox := s₁.inbox.subscribe (s₁.ringOf hub shard) } := ⟨_, rfl, rfl⟩
    have m : Moves (fun _ : ω => ()) (_, []) _ := moves_publish hm.home
    exact (Moves.sameSite m).moored hm

/-- The same, for an inbox that had nothing in flight. -/
lemma dispatch_cases (hf : s.inbox.inFlight = []) (source : Source ω) (hub : Nat)
    (filter : Filter ω) :
    (∃ s', s.dispatch source hub filter = (.ok (), s') ∧ s'.Moored) ∨
      ∃ stop s', s.dispatch source hub filter = (.error stop, s') ∧ s'.inbox.inFlight = [] := by
  have hr : s.replace = (.ok (), s) := by
    unfold replace
    rw [if_pos hf]
  rcases hw : source.supply s.engine.world with ⟨stop | frames, w⟩ <;>
    simp only [dispatch, hr, hw]
  · exact .inr ⟨stop, _, rfl, hf⟩
  · rcases launch_cases { s with engine := s.engine.withWorld w } source hub filter frames with
      ⟨s', hs', hm⟩ | ⟨stop, s', hs', hk⟩
    · exact .inl ⟨s', hs', hm⟩
    · exact .inr ⟨stop, s', hs', hk ▸ hf⟩

lemma moves_rewindFilter (hl : ∀ w, s.dispatcher.work = some w → w.reducer.Leaves w.filter π) :
    Moves π (s, M) (s.rewindFilter, M) := by
  unfold rewindFilter
  split
  · rename_i w hw
    exact .single (.alike ⟨rfl, rfl, rfl, rfl, (hl w hw).rewind _⟩)
  · exact .refl

lemma moves_rewind (h : s.Home) : Moves π (s, M) (s.rewind, M) := by
  unfold rewind
  split
  · have m : Moves π (s, M) _ := .single .restart
    exact m.trans (moves_publish (Moves.home m h))
  · exact .refl

lemma moves_clear : Moves π (s, M) (s.clear, M) := .single (.adjust rfl rfl rfl (.inr rfl))

end Scan

namespace Cursor

open Scan

variable {c : Cursor} {s : Scan ω} {π : ω → σ} {M : List Lease}

/-! ## Cursors -/

/-- The leases that a cursor holds. -/
def leases (c : Cursor) : List Lease := c.lease.toList

@[simp] lemma leases_emptied (c : Cursor) : c.emptied.leases = [] := rfl

@[simp] lemma leases_exhaust (c : Cursor) : c.exhaust.leases = c.leases := rfl

@[simp] lemma leases_deliver (c : Cursor) : c.deliver.leases = c.leases := by
  unfold deliver
  split <;> rfl

@[simp] lemma leases_stopped (c : Cursor) (stop : Stop) : (c.stopped stop).leases = c.leases := by
  cases stop <;> rfl

lemma moves_giveBack : Moves π (s, c.leases ++ M) (c.giveBack s, M) := by
  unfold giveBack leases
  cases c.lease with
  | none => exact .refl
  | some l => exact .single .giveBack

/-- What a cursor with nothing at hand collects is the lease of the frame it stands on. -/
lemma moves_advance (h : s.Home) (hc : c.leases = []) :
    Moves π (s, M) ((c.advance s).2.2, (c.advance s).2.1.leases ++ M) := by
  fun_induction advance c s with
  | case1 c s _ stop s' ha =>
    have m : Moves π (s, M) (s.await.2, held s.await.1 ++ M) := moves_await h
    rw [ha] at m
    simpa [hc, held] using m
  | case2 c s _ l s' ha _ _ ih =>
    have m : Moves π (s, M) (s.await.2, held s.await.1 ++ M) := moves_await h
    rw [ha] at m
    have m' := m.tail .giveBack
    exact m'.trans (ih (Moves.home m' h) hc)
  | case3 c s _ l s' ha _ _ _ =>
    have m : Moves π (s, M) (s.await.2, held s.await.1 ++ M) := moves_await h
    rw [ha] at m
    have m' := (m.tail (.alike (e := s'.engine.note (.leaseDropped (s'.engine.shardOf l.ring) l.slot))
      ⟨rfl, rfl, rfl, rfl, rfl⟩)).tail .giveBack
    rw [hc]
    exact m'
  | case4 c s _ l s' ha _ _ _ failure _ =>
    have m : Moves π (s, M) (s.await.2, held s.await.1 ++ M) := moves_await h
    rw [ha] at m
    rw [leases_exhaust, hc]
    exact (m.tail .giveBack).trans (moves_note _)
  | case5 c s _ l s' ha _ _ _ _ _ ih =>
    have m : Moves π (s, M) (s.await.2, held s.await.1 ++ M) := moves_await h
    rw [ha] at m
    have m' := m.tail .giveBack
    exact m'.trans (ih (Moves.home m' h) hc)
  | case6 c s _ l s' ha =>
    have m : Moves π (s, M) (s.await.2, held s.await.1 ++ M) := moves_await h
    rw [ha] at m
    exact m
  | case7 =>
    rw [hc]
    exact .refl

lemma moves_next (h : s.Home) :
    Moves π (s, c.leases ++ M) ((c.next s).2.2, (c.next s).2.1.leases ++ M) := by
  have m : Moves π (s, c.leases ++ M) (c.giveBack s, M) := moves_giveBack
  have m' := m.trans (moves_advance (Moves.home m h) c.leases_emptied)
  unfold next
  split
  · exact .refl
  · exact .refl
  all_goals
    split
    · simpa using .refl
    · split <;> rename_i ha <;> rw [ha] at m' <;> simpa using m'

lemma moves_rewind (h : s.Home)
    (hl : ∀ w, s.dispatcher.work = some w → w.reducer.Leaves w.filter π) :
    Moves π (s, c.leases ++ M) ((c.rewind s).2.2, (c.rewind s).2.1.leases ++ M) := by
  have m : Moves π (s, c.leases ++ M) (c.giveBack s, M) := moves_giveBack
  have hd : (c.giveBack s).dispatcher = s.dispatcher := by
    unfold giveBack
    split <;> rfl
  have m₁ := m.trans (moves_rewindFilter (hd ▸ hl))
  have m₂ := m₁.trans (Scan.moves_rewind (Moves.home m₁ h))
  have m₃ := m₂.trans (moves_advance (c := { c.emptied with position := 0, phase := .fresh })
    (Moves.home m₂ h) rfl)
  unfold rewind
  split
  · exact .refl
  · exact .refl
  all_goals
    split <;> rename_i ha <;> rwa [ha] at m₃

lemma moves_close : Moves π (s, c.leases ++ M) ((c.close s).2.2, (c.close s).2.1.leases ++ M) := by
  have m : Moves π (s, c.leases ++ M) ((c.giveBack s).drain.2, M) :=
    moves_giveBack.trans moves_drain
  unfold close
  split
  · exact .refl
  all_goals
    split <;> rename_i hd <;> rw [hd] at m
    · exact m
    · exact m.trans moves_clear

lemma leases_close (h : c.phase ≠ .closed) : (c.close s).2.1.leases = [] := by
  unfold close
  split
  · contradiction
  all_goals
    split <;> rfl

lemma phase_close (h : (c.close s).1 = .ok ()) : (c.close s).2.1.phase = .closed := by
  unfold close at h ⊢
  split at h
  · assumption
  all_goals
    split at h
    · cases h
    · rfl

lemma phase_advance (h : c.phase ≠ .closed) : (c.advance s).2.1.phase ≠ .closed := by
  fun_induction advance c s with
  | case1 c s _ stop =>
    cases stop
    · exact Phase.noConfusion
    · exact h
    · exact h
  | case2 c s _ l s' ha _ _ ih => exact ih h
  | case3 => exact h
  | case4 => exact Phase.noConfusion
  | case5 c s _ l s' ha _ _ _ _ _ ih => exact ih h
  | case6 => exact h
  | case7 => exact h

/-- The leases of a cursor, if it was opened. -/
def leasesOf : Except Stop Cursor → List Lease
  | .ok c => c.leases
  | .error _ => []

lemma moves_openOn (h : s.Home) : Moves π (s, M) ((openOn s).2, leasesOf (openOn s).1 ++ M) := by
  have m : Moves π (s, M) _ := moves_advance (c := start s.dispatcher) h rfl
  have hp : ((start s.dispatcher).advance s).2.1.phase ≠ .closed :=
    phase_advance Phase.noConfusion
  unfold openOn
  split
  · rename_i ha
    rwa [ha] at m
  · rename_i c s' ha
    rw [ha] at m hp
    -- a cursor that could not be opened gives back what it holds
    have m' := m.trans moves_close
    rw [leases_close hp] at m'
    split <;> rename_i hcl <;> rwa [hcl] at m'

/-! ## The end of a cursor -/

variable {C L H : List Place} {F : List Lease}

@[simp] lemma phase_deliver (c : Cursor) : c.deliver.phase = .iterating := by
  unfold deliver
  split <;> rfl

lemma next_of_ended (h : c.phase = .exhausted ∨ c.phase = .closed) (s : Scan ω) :
    c.next s = (.ok false, c, s) := by
  unfold next
  rcases h with h | h <;> rw [h]

lemma rewind_of_still (h : ¬ (c.phase = .iterating ∨ c.phase = .exhausted)) (s : Scan ω) :
    c.rewind s = (.ok (), c, s) := by
  unfold rewind
  cases hp : c.phase with
  | fresh | closed => rfl
  | iterating | exhausted => simp [hp] at h

lemma phase_next (h : c.phase ≠ .closed) : (c.next s).2.1.phase ≠ .closed := by
  have ha : (c.emptied.advance (c.giveBack s)).2.1.phase ≠ .closed := phase_advance h
  unfold next
  split
  · exact h
  · contradiction
  all_goals
    split
    · simp
    · split
      · simp
      · exact Phase.noConfusion
      · rename_i hadv
        rwa [hadv] at ha

/-- A cursor that has moved to a row is on its way. -/
lemma phase_of_next {c' : Cursor} {s' : Scan ω} (h : c.next s = (.ok true, c', s')) :
    c'.phase = .iterating := by
  unfold next at h
  split at h
  · cases h
  · cases h
  all_goals
    split at h
    · cases h
      exact phase_deliver _
    · split at h
      · cases h
        exact phase_deliver _
      · cases h
      · cases h

lemma phase_rewind (h : c.phase ≠ .closed) : (c.rewind s).2.1.phase ≠ .closed := by
  have ha : (({ c.emptied with position := 0, phase := .fresh } : Cursor).advance
      (c.giveBack s).rewindFilter.rewind).2.1.phase ≠ .closed := phase_advance Phase.noConfusion
  unfold rewind
  split
  · exact h
  · contradiction
  all_goals
    split <;> rename_i hadv <;> rwa [hadv] at ha

/-- A cursor of a moored scan can be closed, and nothing of the scan stays in flight. -/
lemma close_ok (hs : s.Sound (c.leases ++ M) C L F H) (hm : s.Moored) (hc : c.phase ≠ .closed) :
    ∃ s', c.close s = (.ok (), { c.emptied with phase := .closed }, s') ∧
      s'.inbox.inFlight = [] := by
  have m : Moves (fun _ : ω => ()) (s, c.leases ++ M) (c.giveBack s, M) := moves_giveBack
  obtain ⟨F', hs', -⟩ := Moves.sound m hs
  have hok := drain_ok hs' ((Moves.sameSite m).moored hm)
  rcases hd : (c.giveBack s).drain with ⟨r, s'⟩
  rw [hd] at hok
  obtain rfl : r = .ok () := hok
  have hf : s'.inbox.inFlight = [] := inFlight_settle hd
  refine ⟨s'.clear, ?_, hf⟩
  unfold close
  split
  · contradiction
  all_goals rw [hd]

lemma phase_openOn {s' : Scan ω} (h : openOn s = (.ok c, s')) : c.phase ≠ .closed := by
  have hp : ((start s.dispatcher).advance s).2.1.phase ≠ .closed :=
    phase_advance Phase.noConfusion
  unfold openOn at h
  split at h
  · rename_i ha
    rw [ha] at hp
    obtain rfl := Except.ok.inj (Prod.mk.inj h).1
    exact hp
  · split at h <;> cases h

/-- A cursor that was opened is not closed; one that could not be opened has left nothing in
flight. -/
lemma openOn_cases (hs : s.Sound M C L F H) (hm : s.Moored) :
    (∃ c s', openOn s = (.ok c, s') ∧ c.phase ≠ .closed) ∨
      ∃ stop s', openOn s = (.error stop, s') ∧ s'.inbox.inFlight = [] := by
  have hp : ((start s.dispatcher).advance s).2.1.phase ≠ .closed :=
    phase_advance Phase.noConfusion
  have m : Moves (fun _ : ω => ()) (s, M) _ :=
    moves_advance (c := start s.dispatcher) hm.home rfl
  unfold openOn
  rcases ha : (start s.dispatcher).advance s with ⟨_ | r, c, s'⟩ <;> rw [ha] at hp m
  · obtain ⟨F', hs', -⟩ := Moves.sound m hs
    obtain ⟨s'', hcl, hf⟩ := close_ok hs' ((Moves.sameSite m).moored hm) hp
    right
    simp only [hcl]
    exact ⟨_, s'', rfl, hf⟩
  · exact .inl ⟨c, s', rfl, hp⟩

end Cursor

namespace Plan

open Scan Cursor

variable {p : Plan ω} {e : Engine ω} {π : ω → σ} {M : List Lease} {C L H : List Place}
  {F : List Lease} {hub : Nat}

/-! ## Plans -/

/-- What the execution of a plan with a cursor comes to. -/
lemma openCursor_eq (p : Plan ω) (hub : Nat) (e : Engine ω) :
    p.openCursor hub e = match (p.scan e).dispatch p.source hub p.filter with
      | (.error stop, s) => (.error stop, p.ofScan s, s.engine)
      | (.ok (), s) => ((openOn s).1, p.ofScan (openOn s).2, (openOn s).2.engine) := rfl

lemma moves_openCursor (hs : (p.scan e).Sound M C L F H) (hf : p.inbox.inFlight = [])
    (hh : (p.scan e).HasHub hub) (hw : ∀ w, π (p.source.supply w).2 = π w)
    (hl : p.dispatcher.reducer.Leaves p.filter π) :
    ∃ r s', p.openCursor hub e = (r, p.ofScan s', s'.engine) ∧
      Moves π (p.scan e, M) (s', leasesOf r ++ M) ∧
      (∀ c, r = .ok c → s'.Moored ∧ c.phase ≠ .closed) ∧
      (∀ stop, r = .error stop → s'.inbox.inFlight = []) := by
  have m : Moves π (p.scan e, M) _ := moves_dispatch hh hw hl
  rcases dispatch_cases (s := p.scan e) hf p.source hub p.filter with
    ⟨s, hd, hm⟩ | ⟨stop, s, hd, hf'⟩ <;> rw [hd] at m <;> rw [openCursor_eq, hd]
  · have m' := m.trans (moves_openOn hm.home)
    obtain ⟨F', hs', -⟩ := Moves.sound m hs
    refine ⟨(openOn s).1, (openOn s).2, rfl, m', fun c hc => ⟨?_, ?_⟩, fun stop hc => ?_⟩
    · exact (Moves.sameSite (moves_openOn (π := π) (M := M) hm.home)).moored hm
    · rcases openOn_cases hs' hm with ⟨c', s', ho, hp⟩ | ⟨stop, s', ho, -⟩ <;> rw [ho] at hc
      · exact Except.ok.inj hc ▸ hp
      · cases hc
    · rcases openOn_cases hs' hm with ⟨c', s', ho, -⟩ | ⟨stop, s', ho, hi⟩ <;> rw [ho] at hc ⊢
      · cases hc
      · exact hi
  · refine ⟨.error stop, s, rfl, m, fun c hc => ?_, fun stop _ => hf'⟩
    cases hc

end Plan

end TableScan
