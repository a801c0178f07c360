import TableScan.Proofs.Motions

/-!
# Ages

The ages of tasks and dispatchers, whatever is done in a workshop: nobody has to be permitted
anything here, so that inboxes may be handed to dispatchers of other rings.  Main statement: every
task in a ring is of an epoch that has come, and no epoch ever goes back
(`Workshop.aged_after`).
-/

namespace TableScan

variable {ω : Type} {R : Nat → Prop}

namespace Engine

/-- A task of a dispatcher that is there, and of an epoch that has come. -/
def Knows (e : Engine ω) (t : Task ω) : Prop := t.dispatcher < e.epochs.size ∧ t.Dated e.epoch

/-- An engine with at least `n` dispatchers, whose epochs have come as far as `past` says.  It
knows all tasks in its rings. -/
structure Aged (n : Nat) (past : Nat → Nat) (e : Engine ω) : Prop where
  knows : ∀ i k, e.Knows (e.task i k)
  size : n ≤ e.epochs.size
  past : ∀ d, past d ≤ e.epoch d

variable {e e' : Engine ω} {n i k : Nat} {past : Nat → Nat} {t : Task ω} {l : Lease}

namespace Aged

/-- An engine that comes after an aged one, with tasks that were known before. -/
lemma later (h : e.Aged n past) (hsize : e.epochs.size ≤ e'.epochs.size)
    (hepoch : ∀ d, e.epoch d ≤ e'.epoch d) (hknows : ∀ i k, e.Knows (e'.task i k)) :
    e'.Aged n past where
  knows i k := ⟨Nat.lt_of_lt_of_le (hknows i k).1 hsize, (hknows i k).2.mono hepoch⟩
  size := h.size.trans hsize
  past d := (h.past d).trans (hepoch d)

/-- What neither a task nor an epoch depends on may change at will. -/
lemma congr (h : e.Aged n past) (hr : e'.rings = e.rings) (hp : e'.epochs = e.epochs) :
    e'.Aged n past := by
  refine h.later (hp ▸ Nat.le_refl _) (fun d => ?_) fun i k => ?_
  · simp [epoch, hp]
  · have ht : e'.task i k = e.task i k := by simp [task, hr]
    exact ht ▸ h.knows i k

lemma modifyRing (h : e.Aged n past) {f : Ring ω → Ring ω}
    (hf : ∀ r : Ring ω, (∀ k, e.Knows (r.task k)) → ∀ k, e.Knows ((f r).task k)) :
    (e.modifyRing i f).Aged n past := by
  refine h.later (Nat.le_refl _) (fun _ => Nat.le_refl _) fun j k => ?_
  by_cases hj : j = i
  · subst hj
    cases hr : e.rings[j]? with
    | none =>
      have ht : (e.modifyRing j f).task j k = e.task j k := by
        simp [task, getElem?_modifyRing, hr]
      exact ht ▸ h.knows j k
    | some r =>
      rw [task_eq (getElem?_modifyRing_self hr)]
      exact hf r (fun k => task_eq hr ▸ h.knows j k) k
  · have ht : (e.modifyRing i f).task j k = e.task j k := by
      simp [task, getElem?_modifyRing_ne hj]
    exact ht ▸ h.knows j k

/-- The task of a slot is changed into another known one. -/
lemma modifyTask (h : e.Aged n past) {f : Task ω → Task ω}
    (hf : ∀ t, e.Knows t → e.Knows (f t)) : (e.modifyRing i (·.modifyTask k f)).Aged n past := by
  refine h.modifyRing fun r hr j => ?_
  rw [Ring.task_modifyTask]
  split
  · exact hf _ (hr j)
  · exact hr j

lemma claim? (h : e.Aged n past) (hc : e.claim? i = some (k, e')) : e'.Aged n past := by
  obtain ⟨r, rest, -, -, rfl⟩ := claim?_cases hc
  exact h.modifyRing fun r hr j => Ring.task_claim (r := r) ▸ hr j

lemma publish (h : e.Aged n past) (i k : Nat) : (e.publish i k).Aged n past :=
  h.modifyRing fun r hr j => Ring.task_publish (r := r) ▸ hr j

lemma putBack (h : e.Aged n past) (i k : Nat) : (e.putBack i k).Aged n past := by
  refine h.modifyRing fun r hr j => ?_
  rw [Ring.task_putBack]
  split
  · exact ⟨(hr j).1, (hr j).2.cleared⟩
  · exact hr j

lemma release (h : e.Aged n past) (l : Lease) : (e.release l).Aged n past :=
  (h.putBack l.ring l.slot).congr rfl rfl

lemma dropLease (h : e.Aged n past) (l : Lease) : (e.dropLease l).Aged n past :=
  have hnote : (e.note (.leaseDropped (e.shardOf l.ring) l.slot)).Aged n past := h.congr rfl rfl
  hnote.release l

lemma leased (h : e.Aged n past) (inbox : Inbox) (i k : Nat) :
    (inbox.leased e i k).Aged n past := by
  have hl : (e.modifyRing i (·.lease k)).Aged n past :=
    h.modifyRing fun r hr j => Ring.task_lease (r := r) ▸ hr j
  exact hl.congr rfl rfl

lemma reduceOldest (h : e.Aged n past) (i : Nat) : (e.reduceOldest i).2.Aged n past := by
  obtain ⟨f, hrings, -, hepochs, -, hf⟩ := e.reduceOldest_modifies i
  have hring : (e.modifyRing i f).Aged n past := by
    refine h.modifyRing fun r hr j => ?_
    rcases hf with hf | ⟨r', k, rest, t, x, w, hr', -, hrun, hf⟩
    · rw [hf]
      exact hr j
    · rw [hf, Ring.task_reduceTo]
      split
      · obtain ⟨rows, error, rfl⟩ := Task.run_eq hrun
        exact task_eq hr' ▸ h.knows i k
      · exact hr j
  exact hring.congr hrings hepochs

lemma nextEpoch (h : e.Aged n past) (d : Nat) : (e.nextEpoch d).Aged n past :=
  h.later (by simp [Engine.nextEpoch]) (e.epoch_le_nextEpoch d) h.knows

lemma drawShard (h : e.Aged n past) (hub : Nat) : (e.drawShard hub).2.Aged n past :=
  h.congr (e.alike_drawShard id hub).rings (e.alike_drawShard id hub).epochs

/-- A dispatcher is employed, in epoch zero. -/
lemma employ (h : e.Aged n past) (hr : e'.rings = e.rings) (hp : e'.epochs = e.epochs.push 0) :
    e'.Aged n past := by
  have hnew : e.addDispatcher.2.Aged n past :=
    h.later (by simp [addDispatcher]) (fun _ => e.epoch_addDispatcher ▸ Nat.le_refl _) h.knows
  exact hnew.congr hr hp

/-- New rings without tasks. -/
lemma addRings (h : e.Aged n past) {new : Array (Ring ω)} (hr : e'.rings = e.rings ++ new)
    (hnew : ∀ r ∈ new, ∀ k, r.task k = {}) (hp : e'.epochs = e.epochs) : e'.Aged n past := by
  have hnone : e.Knows {} := by
    have ht : e.task e.rings.size 0 = {} := by simp [task]
    exact ht ▸ h.knows e.rings.size 0
  refine h.later (hp ▸ Nat.le_refl _) (fun d => ?_) fun i k => ?_
  · simp [epoch, hp]
  · by_cases hi : i < e.rings.size
    · have ht : e'.task i k = e.task i k := by simp [task, hr, Array.getElem?_append, hi]
      exact ht ▸ h.knows i k
    · cases ha : new[i - e.rings.size]? with
      | none =>
        have ht : e'.task i k = {} := by simp [task, hr, Array.getElem?_append, hi, ha]
        exact ht ▸ hnone
      | some r =>
        have ht : e'.task i k = r.task k := by simp [task, hr, Array.getElem?_append, hi, ha]
        rw [ht, hnew r (Array.mem_of_getElem? ha)]
        exact hnone

/-- The number of dispatchers that there are. -/
lemma ofSize (h : e.Aged n past) : e.Aged e.epochs.size past := ⟨h.knows, Nat.le_refl _, h.past⟩

end Aged

lemma Handled.aged (m : e.Handled R e') (h : e.Aged n past) : e'.Aged n past := by
  cases m with
  | addRing added =>
    obtain ⟨m, rfl⟩ := addRing?_eq added
    refine h.addRings Array.push_eq_append (fun r hr k => ?_) rfl
    rw [Array.mem_singleton.1 hr, Ring.task_ofCapacity]
  | claim home claimed => exact h.claim? claimed
  | publish home k => exact h.publish _ k
  | putBack i k => exact h.putBack i k
  | edit i k results =>
    refine h.modifyTask fun t ht => ?_
    obtain ⟨rows, error, hf⟩ := results t
    exact hf ▸ ht
  | reduce i => exact h.reduceOldest i
  | lease inbox i k => exact h.leased inbox i k
  | release l => exact h.release l
  | dropLease l => exact h.dropLease l
  | quiet rings hubs epochs => exact h.congr rings epochs

end Engine

namespace Scan

/-- A scan of the dispatcher `id` on an aged engine. -/
structure Aged (n : Nat) (past : Nat → Nat) (id : Nat) (s : Scan ω) : Prop where
  engine : s.engine.Aged n past
  id_lt : id < n
  id_eq : s.dispatcher.id = id
  work : ∀ w, s.dispatcher.work = some w → w.dispatcher = id

variable {s s' : Scan ω} {n id : Nat} {past : Nat → Nat} {l : Lease}

namespace Aged

lemma onEngine (h : s.Aged n past id) {e : Engine ω} (he : e.Aged n past) (k : Inbox) :
    Aged n past id { s with inbox := k, engine := e } := ⟨he, h.id_lt, h.id_eq, h.work⟩

lemma publishOne? (h : s.Aged n past id) (hs : s.publishOne? = some s') : s'.Aged n past id := by
  obtain ⟨ring, work, frame, slot, e, -, hwork, -, hclaim, rfl⟩ := publishOne?_cases hs
  have he := h.engine.claim? hclaim
  refine ⟨(he.modifyTask fun t _ => ?_).publish ring slot, h.id_lt, h.id_eq, h.work⟩
  have hd := h.work work hwork
  have hepoch : s.engine.epoch s.dispatcher.id = e.epoch work.dispatcher := by
    rw [Engine.epoch_claim? hclaim, h.id_eq, hd]
  rw [hepoch]
  refine ⟨?_, Task.dated_ask work _ _⟩
  show work.dispatcher < e.epochs.size
  exact hd ▸ Nat.lt_of_lt_of_le h.id_lt he.size

lemma next? (h : s.Aged n past id) (hn : s.next? = .ok (some (l, s'))) : s'.Aged n past id := by
  obtain ⟨ring, slot, rest, r, -, -, -, -, -, rfl⟩ := next?_cases hn
  exact h.onEngine (h.engine.leased s.inbox ring slot) _

end Aged

lemma Motion.aged (m : s.Motion R s') (h : s.Aged n past id) : s'.Aged n past id := by
  cases m with
  | publish home done => exact h.publishOne? done
  | reduce i => exact h.onEngine (h.engine.reduceOldest i) _
  | lease done => exact h.next? done
  | giveBack l => exact h.onEngine (h.engine.release l) _
  | quiet rings hubs epochs => exact h.onEngine (h.engine.congr rings epochs) _
  | epoch => exact h.onEngine (h.engine.nextEpoch _) _
  | pause | halt | restart => exact ⟨h.engine, h.id_lt, h.id_eq, h.work⟩
  | clear => exact ⟨h.engine, h.id_lt, h.id_eq, nofun⟩

lemma Motions.aged (m : s.Motions R s') (h : s.Aged n past id) : s'.Aged n past id := by
  induction m with
  | refl => exact h
  | tail _ m ih => exact m.aged ih

namespace Aged

/-- No step of an execution makes a scan younger. -/
lemma stable (n : Nat) (past : Nat → Nat) (id : Nat) : Stable (ω := ω) (Aged n past id) :=
  stable_of_motion fun h m => m.aged h

lemma drawShard (h : s.Aged n past id) (hub : Nat) : (s.drawShard hub).2.Aged n past id := by
  unfold Scan.drawShard
  split
  · exact h
  · exact ⟨h.engine.drawShard hub, h.id_lt, h.id_eq, h.work⟩

lemma launch (h : s.Aged n past id) (source : Source ω) (hub : Nat) (filter : Filter ω)
    (frames : List Frame) : (s.launch source hub filter frames).2.Aged n past id := by
  have hnext : s.nextEpoch.Aged n past id := h.onEngine (h.engine.nextEpoch _) _
  have hd := hnext.drawShard hub
  unfold Scan.launch
  rcases hs : s.nextEpoch.drawShard hub with ⟨shard, t⟩
  rw [hs] at hd
  dsimp only at hd ⊢
  split <;> rename_i hlist
  · obtain ⟨-, rfl⟩ := Prod.mk.inj hlist
    exact ⟨hd.engine, hd.id_lt, hd.id_eq, nofun⟩
  · obtain ⟨-, rfl⟩ := Prod.mk.inj hlist
    refine (stable n past id).publish ⟨hd.engine, hd.id_lt, hd.id_eq, fun w hw => ?_⟩
    exact Option.some.inj hw ▸ hd.id_eq

lemma dispatch (h : s.Aged n past id) (source : Source ω) (hub : Nat) (filter : Filter ω) :
    (s.dispatch source hub filter).2.Aged n past id := by
  cases hopen : s.opensFrames source with
  | false => exact (motions_dispatch (R := fun _ => True) hopen hub filter).aged h
  | true =>
    obtain ⟨t, frames, m, hlaunch⟩ := dispatch_opened (R := fun _ => True) hopen hub filter
    exact hlaunch ▸ (m.aged h).launch source hub filter frames

end Aged

end Scan

namespace Workshop

/-- A workshop with an aged engine, on which all its dispatchers are employed. -/
structure Aged (past : Nat → Nat) (W : Workshop ω) : Prop where
  engine : W.engine.Aged 0 past
  dispatchers : ∀ o d, W.dispatcher? o = some d →
    d.id < W.engine.epochs.size ∧ ∀ w, d.work = some w → w.dispatcher = d.id

variable {W V : Workshop ω} {past : Nat → Nat} {site : Site} {s s' : Scan ω} {o : Owner}
  {d : Dispatcher ω}

namespace Aged

lemma scan (h : W.Aged past) (hs : W.scan? site = some s) :
    s.Aged W.engine.epochs.size past s.dispatcher.id := by
  obtain ⟨hd, -, he⟩ := scan?_eq_some_iff.1 hs
  obtain ⟨hid, hwork⟩ := h.dispatchers _ _ hd
  exact ⟨he ▸ h.engine.ofSize, hid, rfl, hwork⟩

/-- A workshop with the same dispatchers, on an engine that comes later. -/
lemma onEngine (h : W.Aged past) (he : V.engine.Aged W.engine.epochs.size past)
    (hd : V.dispatcher? = W.dispatcher?) : V.Aged past where
  engine := ⟨he.knows, Nat.zero_le _, he.past⟩
  dispatchers o d ho := by
    obtain ⟨hid, hwork⟩ := h.dispatchers o d (hd ▸ ho)
    exact ⟨Nat.lt_of_lt_of_le hid he.size, hwork⟩

/-- A workshop with one dispatcher changed, on an engine that comes later. -/
lemma update (h : W.Aged past) (he : V.engine.Aged W.engine.epochs.size past)
    (hd : V.dispatcher? = Function.update W.dispatcher? o (some d))
    (hid : d.id < V.engine.epochs.size) (hwork : ∀ w, d.work = some w → w.dispatcher = d.id) :
    V.Aged past where
  engine := ⟨he.knows, Nat.zero_le _, he.past⟩
  dispatchers o' d' ho := by
    rw [hd, Function.update_apply] at ho
    split at ho
    · exact Option.some.inj ho ▸ ⟨hid, hwork⟩
    · obtain ⟨hid, hwork⟩ := h.dispatchers o' d' ho
      exact ⟨Nat.lt_of_lt_of_le hid he.size, hwork⟩

/-- A scan is put back. -/
lemma put (h : W.Aged past) {id : Nat} (hs' : s'.Aged W.engine.epochs.size past id)
    (he : V.engine = s'.engine)
    (hd : V.dispatcher? = Function.update W.dispatcher? o (some s'.dispatcher)) : V.Aged past := by
  have hid : s'.dispatcher.id < V.engine.epochs.size := by
    rw [he, hs'.id_eq]
    exact Nat.lt_of_lt_of_le hs'.id_lt hs'.engine.size
  exact h.update (he ▸ hs'.engine) hd hid (hs'.id_eq ▸ hs'.work)

end Aged

lemma Motion.aged (m : W.Motion R V) (h : W.Aged past) : V.Aged past := by
  cases m with
  | hand handled dispatchers => exact h.onEngine (handled.aged h.engine.ofSize) dispatchers
  | scan dispatcher engine motions dispatchers engine' =>
    obtain ⟨hid, hwork⟩ := h.dispatchers _ _ dispatcher
    exact h.put (motions.aged ⟨engine ▸ h.engine.ofSize, hid, rfl, hwork⟩) engine' dispatchers

lemma Motions.aged (m : W.Motions R V) (h : W.Aged past) : V.Aged past := by
  induction m with
  | refl => exact h
  | tail _ m ih => exact m.aged ih

/-- Whatever is done in a workshop, the tasks in its rings are of epochs that have come, and no
epoch goes back. -/
lemma aged_after (h : W.Aged past) (a : Deed ω) : (W.after a).Aged past := by
  cases W.comesTo_after a with
  | draw _ engine dispatchers => exact h.onEngine (engine ▸ h.engine.ofSize.drawShard _) dispatchers
  | @employ o d _ _ new idle rings _ epochs dispatchers =>
    have hid : d.id = W.engine.epochs.size := congrArg Seat.id new
    refine h.update (h.engine.ofSize.employ rings epochs) dispatchers ?_ fun w hw => ?_
    · rw [hid, epochs, Array.size_push]
      exact Nat.lt_succ_self _
    · -- a dispatcher without an execution has no work that could be somebody else's
      exact absurd (idle.symm.trans hw) (Option.some_ne_none w).symm
  | @execute x s s' U _ _ scan dispatched moved motions =>
    have hs' := (h.scan scan).dispatch x.source x.hub x.filter
    rw [dispatched] at hs'
    exact motions.aged (h.put hs' moved.engine moved.dispatchers)
  | motions _ _ motions => exact motions.aged h

/-- What has been done to a new workshop, one deed after the other. -/
lemma aged_foldl (h : W.Aged past) (as : List (Deed ω)) : (as.foldl after W).Aged past := by
  induction as generalizing W with
  | nil => exact h
  | cons a as ih => exact ih (aged_after h a)

lemma aged_make {world : ω} {settings : List Settings}
    (h : Workshop.make? world settings = .ok W) : W.Aged fun _ => 0 := by
  have hfirst : Engine.Aged 0 (fun _ => 0) ({ world } : Engine ω) := by
    refine ⟨fun i k => ?_, Nat.zero_le _, fun _ => Nat.zero_le _⟩
    have ht : ({ world } : Engine ω).task i k = {} := by simp [Engine.task]
    rw [ht]
    exact ⟨Nat.one_pos, Task.dated_default⟩
  have hhub : ∀ (e : Engine ω) (s : Settings) n e', e.Aged 0 (fun _ => 0) →
      e.addHub? s = .ok (n, e') → e'.Aged 0 fun _ => 0 := by
    intro e s n e' he ha
    obtain ⟨capacity, rfl⟩ := Engine.addHub?_eq ha
    refine he.addRings rfl (fun r hr k => ?_) rfl
    obtain ⟨shard, -, rfl⟩ := Array.mem_map.1 hr
    exact Ring.task_ofCapacity
  obtain ⟨e, rfl, he⟩ := made_of_hubs h hfirst hhub
  refine ⟨he, fun o d ho => ?_⟩
  cases o <;> cases ho

/-- The epochs of an aged workshop have come as far as they have. -/
lemma Aged.now (h : W.Aged past) : W.Aged W.engine.epoch :=
  ⟨⟨h.engine.knows, h.engine.size, fun _ => Nat.le_refl _⟩, h.dispatchers⟩

end Workshop

end TableScan
