import TableScan.Proofs.Stability
import TableScan.Proofs.Starting

/-!
# Epochs

When the epoch of a dispatcher begins.  Waiting, collecting and settling go on with the pass that
is there; a launch begins a new one, and so does an active scan that starts again.  Main statement:
whatever a scan does, the epoch of its dispatcher never goes back (`Scan.Moves.epoch_le`).
-/

namespace TableScan

variable {ω σ : Type}

namespace Engine

variable {e e' : Engine ω}

lemma epoch_reduceOldest (e : Engine ω) (i : Nat) : (e.reduceOldest i).2.epoch = e.epoch := by
  obtain ⟨f, -, -, hepochs, -⟩ := e.reduceOldest_modifies i
  funext d
  rw [epoch, hepochs, ← epoch]

lemma Alike.epoch {π : ω → σ} (h : e.Alike π e') : e'.epoch = e.epoch := by
  funext d
  simp only [Engine.epoch, h.epochs]

end Engine

namespace Scan

variable {s s' s'' : Scan ω} {π : ω → σ} {l : Lease} {M M' : List Lease} {b : Bool}
  {source : Source ω} {hub : Nat} {filter : Filter ω} {frames : List Frame}

/-! ## The same pass -/

/-- A scan goes on with the same execution, in the same epoch. -/
structure SamePass (s s' : Scan ω) : Prop where
  epoch : s'.engine.epoch = s.engine.epoch
  work : s'.dispatcher.work = s.dispatcher.work
  count : s'.dispatcher.frameCount = s.dispatcher.frameCount

namespace SamePass

lemma refl (s : Scan ω) : s.SamePass s := ⟨rfl, rfl, rfl⟩

lemma trans (h : s.SamePass s') (h' : s'.SamePass s'') : s.SamePass s'' :=
  ⟨h'.epoch.trans h.epoch, h'.work.trans h.work, h'.count.trans h.count⟩

end SamePass

lemma samePass_publishOne? (h : s.publishOne? = some s') : s.SamePass s' := by
  obtain ⟨ring, work, frame, slot, e, -, -, -, hclaim, rfl⟩ := publishOne?_cases h
  have he : e.epoch = s.engine.epoch := Engine.epoch_claim? hclaim
  exact ⟨he, rfl, rfl⟩

/-- Nothing that an execution does takes it out of its pass. -/
lemma stable_samePass (s : Scan ω) : Stable s.SamePass where
  publishOne? h hs := h.trans (samePass_publishOne? hs)
  reduceOldest h i := h.trans ⟨Engine.epoch_reduceOldest _ i, rfl, rfl⟩
  next? h hn := by
    obtain ⟨ring, slot, rest, r, -, -, -, -, -, rfl⟩ := next?_cases hn
    exact h.trans ⟨rfl, rfl, rfl⟩
  done h l := h.trans ⟨rfl, rfl, rfl⟩
  quiet h _ _ hp _ := h.trans ⟨funext fun d => by simp [Engine.epoch, hp], rfl, rfl⟩
  starvedFrom h _ := h.trans ⟨rfl, rfl, rfl⟩
  halted h := h.trans ⟨rfl, rfl, rfl⟩

lemma samePass_publish (s : Scan ω) : s.SamePass s.publish := s.stable_samePass.publish (.refl s)

lemma samePass_reduceOne (s : Scan ω) : s.SamePass s.reduceOne.2 :=
  s.stable_samePass.reduceOne (.refl s)

lemma samePass_next? (h : s.next? = .ok (some (l, s'))) : s.SamePass s' :=
  s.stable_samePass.next? (.refl s) h

lemma samePass_done (s : Scan ω) (l : Lease) : s.SamePass (s.done l) := ⟨rfl, rfl, rfl⟩

lemma samePass_help (s : Scan ω) : s.SamePass s.help.2 := s.stable_samePass.help (.refl s)

lemma samePass_drain (s : Scan ω) : s.SamePass s.drain.2 := s.stable_samePass.drain (.refl s)

lemma samePass_replace (s : Scan ω) : s.SamePass s.replace.2 := s.stable_samePass.replace (.refl s)

/-! ## The next epoch -/

lemma epoch_lt_nextEpoch (h : s.dispatcher.id < s.engine.epochs.size) :
    s.engine.epoch s.dispatcher.id < s.nextEpoch.engine.epoch s.dispatcher.id := by
  have hnext : s.nextEpoch.engine.epoch s.dispatcher.id = s.engine.epoch s.dispatcher.id + 1 :=
    (Engine.epoch_nextEpoch ..).trans (if_pos ⟨rfl, h⟩)
  omega

lemma epoch_drawShard (s : Scan ω) (hub : Nat) :
    (s.drawShard hub).2.engine.epoch = s.engine.epoch := by
  unfold drawShard
  split
  · rfl
  · exact (Engine.alike_drawShard s.engine id hub).epoch

/-- Starting an execution over opened frames begins an epoch. -/
lemma epoch_launch (s : Scan ω) (source : Source ω) (hub : Nat) (filter : Filter ω)
    (frames : List Frame) :
    (s.launch source hub filter frames).2.engine.epoch = s.nextEpoch.engine.epoch := by
  have hd := s.nextEpoch.epoch_drawShard hub
  rcases hshard : s.nextEpoch.drawShard hub with ⟨shard, t⟩
  rw [hshard] at hd
  simp only [launch, hshard]
  split
  · exact hd
  · exact (samePass_publish _).epoch.trans hd

/-- An active scan that starts again begins an epoch. -/
lemma epoch_rewind (h : s.dispatcher.isActive = true) :
    s.rewind.engine.epoch = s.nextEpoch.engine.epoch := by
  unfold rewind
  rw [if_pos h]
  exact (samePass_publish _).epoch

/-- The parts of a dispatch: what is in flight is settled and the frames are opened, and then an
execution is launched, unless the dispatch has stopped before. -/
lemma dispatch_splits (s : Scan ω) (source : Source ω) (hub : Nat) (filter : Filter ω)
    (hw : ∀ w, π (source.supply w).2 = π w) :
    ∃ t, Moves π (s, M) (t, M) ∧ s.SamePass t ∧
      ((∃ stop, s.dispatch source hub filter = (.error stop, t)) ∨ ∃ frames,
        s.replace.1 = .ok () ∧
        source.supply s.replace.2.engine.world = (.ok frames, t.engine.world) ∧
        t.inbox.inFlight = [] ∧
        s.dispatch source hub filter = t.launch source hub filter frames) := by
  have m : Moves π (s, M) (s.replace.2, M) := moves_replace
  have hsame := samePass_replace s
  rcases hr : s.replace with ⟨stop | u, t⟩ <;> rw [hr] at m hsame
  · refine ⟨t, m, hsame, .inl ⟨stop, ?_⟩⟩
    simp only [dispatch, hr]
  · rcases hs : source.supply t.engine.world with ⟨opened, w⟩
    have hshown : π w = π t.engine.world := by rw [← hw t.engine.world, hs]
    have m' := m.tail (.alike (e := t.engine.withWorld w) ⟨rfl, rfl, rfl, rfl, hshown⟩)
    refine ⟨_, m', hsame.trans ⟨rfl, rfl, rfl⟩, ?_⟩
    cases opened with
    | error stop =>
      left
      exact ⟨stop, by simp only [dispatch, hr, hs]⟩
    | ok frames =>
      have hsettled : t.inbox.inFlight = [] := inFlight_replace hr
      refine .inr ⟨frames, rfl, rfl, hsettled, ?_⟩
      simp only [dispatch, hr, hs]

/-- Once what is in flight is settled and the frames are opened, a dispatch is a launch. -/
lemma dispatch_eq_launch (hub : Nat) (filter : Filter ω) {w : ω} (hr : s.replace.1 = .ok ())
    (hw : source.supply s.replace.2.engine.world = (.ok frames, w)) :
    s.dispatch source hub filter =
      Scan.launch { s.replace.2 with engine := s.replace.2.engine.withWorld w } source hub filter
        frames := by
  rcases hs : s.replace with ⟨r, t⟩
  rw [hs] at hr hw
  obtain rfl : r = .ok () := hr
  dsimp only at hw
  simp only [dispatch, hs, hw]

/-! ## Epochs along moves -/

/-- The epoch of a dispatcher never goes back. -/
lemma Move.epoch_le (m : Move π (s, M) (s', M')) (d : Nat) :
    s.engine.epoch d ≤ s'.engine.epoch d := by
  cases m with
  | publish home done => exact ((samePass_publishOne? done).epoch ▸ Nat.le_refl _)
  | reduce => exact (s.samePass_reduceOne.epoch ▸ Nat.le_refl _)
  | lease done => exact ((samePass_next? done).epoch ▸ Nat.le_refl _)
  | giveBack | adjust => exact Nat.le_refl _
  | epoch | begin | restart => exact s.engine.epoch_le_nextEpoch _ d
  | alike alike => exact (alike.epoch ▸ Nat.le_refl _)

lemma Moves.epoch_le {a b : Scan ω × List Lease} (m : Moves π a b) (d : Nat) :
    a.1.engine.epoch d ≤ b.1.engine.epoch d := by
  induction m with
  | refl => exact Nat.le_refl _
  | tail _ m ih => exact Nat.le_trans ih (Move.epoch_le m d)

end Scan

namespace Cursor

open Scan

variable {c : Cursor} {s : Scan ω}

lemma samePass_giveBack (c : Cursor) (s : Scan ω) : s.SamePass (c.giveBack s) :=
  steady_giveBack s.stable_samePass.toSteady (.refl s) c

lemma samePass_advance (c : Cursor) (s : Scan ω) : s.SamePass (c.advance s).2.2 :=
  steady_advance s.stable_samePass.toSteady (.refl s) c

lemma samePass_next (c : Cursor) (s : Scan ω) : s.SamePass (c.next s).2.2 :=
  steady_next s.stable_samePass.toSteady (.refl s) c

lemma samePass_openOn {s' : Scan ω} (ho : openOn s = (.ok c, s')) : s.SamePass s' := by
  have ha := samePass_advance (start s.dispatcher) s
  unfold openOn at ho
  split at ho
  · rename_i hadv
    rw [hadv] at ha
    obtain ⟨-, rfl⟩ := Prod.mk.inj ho
    exact ha
  · split at ho <;> cases ho

/-- A cursor is closed, or stays without what it had at hand. -/
lemma close_cases (c : Cursor) (s : Scan ω) :
    (c.close s).2.1.phase = .closed ∨
      (c.close s).1 ≠ .ok () ∧ (c.close s).2.1 = c.emptied ∧ s.SamePass (c.close s).2.2 := by
  have hdrain := (samePass_giveBack c s).trans (samePass_drain (c.giveBack s))
  unfold close
  split
  · rename_i hcl
    exact .inl hcl
  all_goals
    split <;> rename_i hr
    · rw [hr] at hdrain
      exact .inr ⟨nofun, rfl, hdrain⟩
    · exact .inl rfl

lemma epoch_close (c : Cursor) (s : Scan ω) :
    (c.close s).2.2.engine.epoch = s.engine.epoch := by
  have hd := (samePass_giveBack c s).epoch
  have hdrain := (samePass_drain (c.giveBack s)).epoch
  unfold close
  split
  · rfl
  all_goals
    split
    all_goals
      rename_i hr
      rw [hr] at hdrain
      exact hdrain.trans hd

lemma epoch_openOn (s : Scan ω) : (openOn s).2.engine.epoch = s.engine.epoch := by
  have ha := (samePass_advance (start s.dispatcher) s).epoch
  unfold openOn
  split
  · rename_i hr
    rw [hr] at ha
    exact ha
  · rename_i stop c t hr
    rw [hr] at ha
    have hc := epoch_close c t
    split
    all_goals
      rename_i hcl
      rw [hcl] at hc
      exact hc.trans ha

/-- A cursor that starts over begins an epoch, if it has moved and its scan is active. -/
lemma epoch_rewind (hphase : c.phase = .iterating ∨ c.phase = .exhausted)
    (h : s.dispatcher.isActive = true) :
    (c.rewind s).2.2.engine.epoch = s.nextEpoch.engine.epoch := by
  -- giving a slot back and undoing the filter leave the dispatcher and its epoch as they are
  have hdispatcher : (c.giveBack s).rewindFilter.dispatcher = s.dispatcher ∧
      (c.giveBack s).rewindFilter.nextEpoch.engine.epoch = s.nextEpoch.engine.epoch := by
    unfold giveBack rewindFilter
    cases c.lease <;> dsimp only <;> split <;> exact ⟨rfl, rfl⟩
  have hactive : (c.giveBack s).rewindFilter.dispatcher.isActive = true := by
    rw [hdispatcher.1]
    exact h
  have hadvance := samePass_advance { c.emptied with position := 0, phase := .fresh }
    (c.giveBack s).rewindFilter.rewind
  have hepoch := hadvance.epoch.trans ((Scan.epoch_rewind hactive).trans hdispatcher.2)
  rw [Reads.rewind_eq hphase]
  exact hepoch

end Cursor

end TableScan
