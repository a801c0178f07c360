import TableScan.Proofs.Epochs

/-!
# Scans on a trail

A dispatcher serves a course: it publishes the frames in their order, and each frame that it
publishes is the last one that is due.  Main statement: whatever a scan does within an epoch, it
stays on the trail of the course that it serves (`Scan.Moves.onTrail`).
-/

namespace TableScan

variable {ω σ : Type}

/-- A dispatcher at work on a course, before the position `p` or done with publishing. -/
structure Dispatcher.Serves (d : Dispatcher ω) (S : Course ω σ) (p : Nat) : Prop where
  work : d.work = some S.work
  ring : d.ring = some S.ring
  count : d.frameCount = S.count
  order : d.order = S.order
  directory : d.directory = S.directory
  position : d.position = p ∨ d.frameCount ≤ d.position

namespace Scan

variable {S : Course ω σ} {s s' : Scan ω} {b : Nat} {D : List Nat} {M M' : List Lease}
  {C L H : List Place} {F : List Lease}

/-- The scan of a course on its trail: it is at work on the course, or has ended it. -/
structure OnTrail (s : Scan ω) (S : Course ω σ) (b : Nat) (D : List Nat) : Prop where
  id : s.dispatcher.id = S.id
  trail : Trail S s.engine b D
  serves : s.dispatcher.work = none ∨ s.dispatcher.Serves S (b + D.length)

/-- What the engine does by itself keeps a scan on its trail. -/
lemma OnTrail.steps (hS : S.Lawful) (h : s.OnTrail S b D) (hd : s'.dispatcher = s.dispatcher)
    (hsteps : Engine.Steps S.id (fun _ => False) S.shown s.engine s'.engine) :
    ∃ b' D', b ≤ b' ∧ s'.OnTrail S b' D' := by
  obtain ⟨b', D', hle, hlen, ht⟩ := h.trail.steps hS hsteps
  refine ⟨b', D', hle, hd ▸ h.id, ht, ?_⟩
  rw [hlen, hd]
  exact h.serves

/-- The frame that is published next is the last one that is due. -/
lemma OnTrail.publishOne? (hS : S.Lawful) (h : s.OnTrail S b D) (hs : s.Sound M C L F H)
    (hp : s.publishOne? = some s') : ∃ b' D', b ≤ b' ∧ s'.OnTrail S b' D' := by
  obtain ⟨ring, work, frame, slot, e, hring, hwork, hframe, hclaim, rfl⟩ := publishOne?_cases hp
  have hv := h.serves.resolve_left (by rw [hwork]; exact Option.some_ne_none work)
  obtain rfl : ring = S.ring := Option.some.inj (hring.symm.trans hv.ring)
  obtain rfl : work = S.work := Option.some.inj (hwork.symm.trans hv.work)
  have hclaimed : Engine.Steps S.id (fun _ => False) S.shown s.engine e :=
    .single (Engine.step_claim? hs.engine hclaim)
  obtain ⟨b', D', hle, hlen, ht⟩ := h.trail.steps hS hclaimed
  obtain ⟨r, hr, hst, -⟩ := (hs.engine.claim? hclaim).books.claimed (List.mem_cons_self ..)
  have hat : s.dispatcher.position < S.count ∧ frame = S.frame s.dispatcher.position := by
    obtain ⟨hlt, rfl⟩ := Dispatcher.frameAt?_eq_some_iff.1 hframe
    rw [hv.count] at hlt
    exact ⟨hlt, by rw [Course.frame, hv.order, hv.count]⟩
  have hposition : s.dispatcher.position = b' + D'.length := by
    rcases hv.position with hp | hp
    · omega
    · rw [hv.count] at hp
      omega
  have hask : Task.ask S.work (s.engine.epoch s.dispatcher.id) frame
      (s.dispatcher.directory.rowCount frame) = S.ask (e.epoch S.id) (b' + D'.length) := by
    rw [Course.ask, hv.directory, hat.2, ← hposition, h.id, Engine.epoch_claim? hclaim]
  refine ⟨b', D' ++ [slot], hle, h.id, ?_, .inr ⟨hv.work, hv.ring, hv.count, hv.order,
    hv.directory, .inl ?_⟩⟩
  · have hpending := Engine.pendingIn_some (Engine.getElem?_modifyRing_self
      (f := (·.publish slot)) (Engine.getElem?_modifyRing_self
        (f := (·.modifyTask slot fun _ => S.ask (e.epoch S.id) (b' + D'.length))) hr))
    rw [hask]
    refine ht.publish hS ((Engine.stage?_eq hr).trans hst) (Engine.turns_publish hr hst _)
      (hpending.trans ?_) (hposition ▸ hat.1)
    rw [Ring.pending_publish, Ring.pending_modifyTask, Engine.pendingIn_some hr]
  · show s.dispatcher.position + 1 = b' + (D' ++ [slot]).length
    rw [List.length_append, List.length_singleton]
    omega

/-- A move in the same epoch keeps a scan on its trail. -/
lemma Move.onTrail (hS : S.Lawful) (m : Move S.shown (s, M) (s', M')) (hs : s.Sound M C L F H)
    (h : s.OnTrail S b D) (he : s'.engine.epoch S.id = s.engine.epoch S.id) :
    ∃ b' D', b ≤ b' ∧ s'.OnTrail S b' D' := by
  -- no epoch begins
  have later : s.nextEpoch.engine.epoch S.id ≠ s.engine.epoch S.id := by
    have hlt := epoch_lt_nextEpoch hs.employed.id_lt
    rw [h.id] at hlt
    omega
  cases m with
  | publish home done => exact h.publishOne? hS hs done
  | reduce => exact h.steps hS s.dispatcher_reduceOne hs.steps_reduceOne
  | lease done => exact h.steps hS (dispatcher_next? done) (steps_next? done id)
  | giveBack =>
    exact h.steps hS rfl (Engine.steps_release hs.engine.books (List.mem_cons_self ..) id)
  | epoch | begin | restart => exact absurd he later
  | adjust id reducer ring work =>
    refine ⟨b, D, Nat.le_refl b, id.trans h.id, h.trail, ?_⟩
    rcases work with hw | hw
    · refine h.serves.imp hw.work.trans fun hv => ⟨hw.work.trans hv.work, ring.trans hv.ring,
        hw.count.trans hv.count, hw.order.trans hv.order, hw.directory.trans hv.directory, ?_⟩
      rcases hw.position with hp | hp
      · exact hv.position.imp hp.trans fun hle => by rw [hp, hw.count]; exact hle
      · exact .inr (by rw [hp, hw.count])
    · exact .inl hw
  | alike alike => exact h.steps hS rfl alike.steps

/-- A move of a dispatcher leaves the work of others tame. -/
lemma Move.tame {π : ω → σ} (m : Move π (s, M) (s', M')) (hs : s.Sound M C L F H)
    (h : s.engine.Tame s.dispatcher.id π) : s'.engine.Tame s.dispatcher.id π := by
  have still : ∀ {e : Engine ω},
      Engine.Steps s.dispatcher.id (fun _ => False) π s.engine e → e.Tame s.dispatcher.id π :=
    fun hsteps => hsteps.tame h
  cases m with
  | publish home done =>
    obtain ⟨ring, work, frame, slot, e, -, hwork, -, hclaim, rfl⟩ := publishOne?_cases done
    obtain ⟨r, hr, hst, -⟩ := (hs.engine.claim? hclaim).books.claimed (List.mem_cons_self ..)
    have hturn := Engine.turns_publish hr hst (.ask work (s.engine.epoch s.dispatcher.id) frame
      (s.dispatcher.directory.rowCount frame))
    intro i k w hw hid
    by_cases hne : (i, k) = (ring, slot)
    · obtain ⟨rfl, rfl⟩ := Prod.mk.inj hne
      obtain rfl : work = w := Option.some.inj ((congrArg Task.work hturn.task).symm.trans hw)
      exact absurd (hs.employed.work_dispatcher work hwork) hid
    · rw [(hturn.off i k hne).1] at hw
      exact still (.single (Engine.step_claim? hs.engine hclaim)) i k w hw hid
  | reduce => exact still hs.steps_reduceOne
  | lease done => exact still (steps_next? done id)
  | giveBack => exact still (Engine.steps_release hs.engine.books (List.mem_cons_self ..) id)
  | epoch | begin | restart | adjust => exact h
  | alike alike => exact still alike.steps

lemma Moves.tame {π : ω → σ} {x y : Scan ω × List Lease} (m : Moves π x y)
    (hs : x.1.Sound x.2 C L F H) (h : x.1.engine.Tame x.1.dispatcher.id π) :
    y.1.engine.Tame x.1.dispatcher.id π := by
  induction m with
  | refl => exact h
  | tail m' m ih =>
    obtain ⟨F', hs', -⟩ := Moves.sound m' hs
    have hid := (Moves.sameSite m').dispatcher
    exact hid ▸ Move.tame m hs' (hid ▸ ih)

/-- Moves in the same epoch keep a scan on its trail. -/
lemma Moves.onTrail (hS : S.Lawful) {x y : Scan ω × List Lease} (m : Moves S.shown x y)
    (hs : x.1.Sound x.2 C L F H) (h : x.1.OnTrail S b D)
    (he : y.1.engine.epoch S.id = x.1.engine.epoch S.id) :
    ∃ b' D', b ≤ b' ∧ y.1.OnTrail S b' D' := by
  induction m with
  | refl => exact ⟨b, D, Nat.le_refl b, h⟩
  | tail m' m ih =>
    -- no epoch begins in between
    have hle := Moves.epoch_le m' S.id
    have hle' := Move.epoch_le m S.id
    obtain ⟨b₁, D₁, hle₁, h₁⟩ := ih (by omega)
    obtain ⟨F₁, hs₁, -⟩ := Moves.sound m' hs
    obtain ⟨b₂, D₂, hle₂, h₂⟩ := Move.onTrail hS m hs₁ h₁ (by omega)
    exact ⟨b₂, D₂, Nat.le_trans hle₁ hle₂, h₂⟩

end Scan

end TableScan
