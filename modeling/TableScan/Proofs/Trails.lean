import TableScan.Proofs.Courses

/-!
# Trails

What is left to reduce of an execution, wherever its slots go afterwards.  A trail is the list of
the slots that are due, in the order of the frames; slots of past epochs are on no trail, and what
was reduced has left it.  Main statement: nothing that is done to the engine, by whomever, reduces
the frames of an execution out of their order (`Trail.step`, `Trail.steps`).
-/

namespace TableScan

variable {ω σ : Type}

/-- A slot that was leased, or that was reduced in its turn and brings what was found. -/
def Course.Spent (S : Course ω σ) (e : Engine ω) (b ring slot : Nat) : Prop :=
  e.stage? ring slot = some .leased ∨
    e.stage? ring slot = some .reduced ∧ ∃ j < b, S.Done e j (e.task ring slot)

lemma Course.Spent.rests {S : Course ω σ} {e e' : Engine ω} {b ring slot : Nat}
    (h : S.Spent e b ring slot) (hr : e.Rests e' ring slot)
    (hepoch : e'.epoch S.id = e.epoch S.id) : S.Spent e' b ring slot := by
  rcases hr with hr | ⟨ht, hs⟩
  · exact .inl hr
  · rw [Course.Spent, ht, hs]
    exact h.imp_right fun ⟨hst, j, hj, hd⟩ => ⟨hst, j, hj, hd.congr hepoch⟩

lemma Course.Spent.mono {S : Course ω σ} {e : Engine ω} {b b' ring slot : Nat}
    (h : S.Spent e b ring slot) (hle : b ≤ b') : S.Spent e b' ring slot :=
  h.imp_right fun ⟨hst, j, hj, hd⟩ => ⟨hst, j, Nat.lt_of_lt_of_le hj hle, hd⟩

/-- A slot that is published was not reduced yet. -/
lemma Course.not_spent {S : Course ω σ} {e : Engine ω} {b ring slot : Nat}
    (hs : e.stage? ring slot = some .published) : ¬ S.Spent e b ring slot := by
  rintro (h | ⟨h, -⟩) <;> rw [hs] at h <;> cases h

/-- The trail of an execution of which the first `b` frames were reduced: the slots `D` of the next
frames are due.  Any other work of the present epoch is spent. -/
structure Trail (S : Course ω σ) (e : Engine ω) (b : Nat) (D : List Nat) : Prop where
  due : Numbered (fun j slot =>
    e.task S.ring slot = S.ask (e.epoch S.id) j ∧ e.stage? S.ring slot = some .published) b D
  bound : b + D.length ≤ S.count
  /-- What is due is reduced in its order. -/
  pending : D.Sublist (e.pendingIn (some S.ring))
  world : S.shown e.world = S.state b
  spent : ∀ i slot w, (e.task i slot).work = some w → w.dispatcher = S.id →
    (e.task i slot).epoch = e.epoch S.id → (i = S.ring ∧ slot ∈ D) ∨ S.Spent e b i slot
  /-- The work of others leaves the filter of the course alone. -/
  tame : e.Tame S.id S.shown

namespace Trail

variable {S : Course ω σ} {e e' : Engine ω} {b i k : Nat} {D : List Nat} {mine : Place → Prop}

lemma published (h : Trail S e b D) {slot : Nat} (hs : slot ∈ D) :
    e.stage? S.ring slot = some .published :=
  (h.due.mem hs).elim fun _ hj => hj.2

/-- A trail stays where nothing is reduced. -/
lemma passes (h : Trail S e b D) (hp : e.Passes S.id S.shown e')
    (hkin : ∀ i slot, (e.task i slot).Kin S.id S.shown (e'.task i slot)) : Trail S e' b D := by
  refine ⟨h.due.imp fun j slot hs hd => ?_, h.bound, h.pending.trans (hp.pending S.ring),
    hp.world.trans h.world, fun i slot w hw hid he => ?_, h.tame.kin hkin⟩
  · obtain ⟨ht, hst⟩ := hp.published S.ring slot hd.2
    rw [ht, hp.epoch]
    exact ⟨hd.1, hst⟩
  · rcases hkin i slot w hw with ⟨hne, -⟩ | ⟨hw', he'⟩
    · exact absurd hid hne
    · refine (h.spent i slot w hw' hid (he'.symm.trans (he.trans hp.epoch))).imp_right fun hs => ?_
      exact hs.rests (hp.spent i slot (hs.symm.imp_left (·.1)) (by simp [hw])) hp.epoch

/-- The first frame that is due is reduced, to what is found there. -/
lemma reduce_due (hS : S.Lawful) (h : Trail S e b (k :: D)) (hr : e.Reduces e' S.ring k) :
    Trail S e' (b + 1) D ∧ S.Done e' b (e'.task S.ring k) := by
  have hepoch : e'.epoch S.id = e.epoch S.id := by rw [hr.epoch]
  have hsub : D.Sublist (e'.pendingIn (some S.ring)) :=
    List.cons_sublist_cons.1 (hr.pending ▸ h.pending)
  have hbound := h.bound
  rw [List.length_cons] at hbound
  obtain ⟨x, hrun⟩ := hr.run
  rw [h.due.1.1] at hrun
  obtain ⟨hdone, hworld⟩ := hS.run (by omega) h.world hrun
  have hdone' := hdone.congr hepoch
  refine ⟨⟨h.due.2.imp fun j slot hs hd => ?_, by omega, hsub, hworld, fun i slot v hv hid he => ?_,
    h.tame.kin hr.kin⟩, hdone'⟩
  · obtain ⟨ht, hs'⟩ := hr.off S.ring slot fun heq => hr.once (hsub.subset ((Prod.mk.inj heq).2 ▸ hs))
    rw [ht, hs', hepoch]
    exact hd
  · by_cases heq : (i, slot) = (S.ring, k)
    · -- the slot brings what is found there now
      obtain ⟨rfl, rfl⟩ := Prod.mk.inj heq
      exact .inr (.inr ⟨hr.reduced, b, Nat.lt_succ_self b, hdone'⟩)
    · have hoff := hr.off i slot heq
      rw [hoff.1] at hv he
      rcases h.spent i slot v hv hid (he.trans hepoch) with ⟨rfl, hs⟩ | hs
      · exact .inl ⟨rfl, (List.mem_cons.1 hs).resolve_left fun hs => heq (by rw [hs])⟩
      · exact .inr ((hs.rests (.inr hoff) hepoch).mono (Nat.le_succ b))

/-- Something else is reduced: a slot of a past epoch, or one that is not of the course. -/
lemma reduce_other (h : Trail S e b D) (hr : e.Reduces e' i k) (hD : ¬ (i = S.ring ∧ k ∈ D)) :
    Trail S e' b D := by
  have hepoch : e'.epoch S.id = e.epoch S.id := by rw [hr.epoch]
  have hkin : ∀ j slot, (e.task j slot).Kin S.id S.shown (e'.task j slot) := hr.kin
  obtain ⟨x, hrun⟩ := hr.run
  -- a published slot with work of this epoch is due, and this one is not
  have hworld : S.shown e'.world = S.shown e.world :=
    Task.shown_run hrun
      (fun v hv hid he => (h.spent i k v hv hid he).elim hD (S.not_spent hr.published))
      (h.tame i k)
  refine ⟨h.due.imp fun j slot hs hd => ?_, h.bound, ?_, hworld.trans h.world,
    fun j slot v hv hid he => ?_, h.tame.kin hkin⟩
  · obtain ⟨ht, hs'⟩ := hr.off S.ring slot fun heq =>
      hD ⟨(Prod.mk.inj heq).1.symm, (Prod.mk.inj heq).2 ▸ hs⟩
    rw [ht, hs', hepoch]
    exact hd
  · by_cases hi : S.ring = i
    · subst hi
      have hsub := h.pending
      rw [hr.pending] at hsub
      cases hsub with
      | cons _ hsub => exact hsub
      | cons_cons => exact absurd ⟨rfl, List.mem_cons_self ..⟩ hD
    · rw [hr.others S.ring hi]
      exact h.pending
  · rcases hkin j slot v hv with ⟨hne, -⟩ | ⟨hv', he'⟩
    · exact absurd hid hne
    · refine (h.spent j slot v hv' hid (he'.symm.trans (he.trans hepoch))).imp_right fun hs => ?_
      refine hs.rests (.inr (hr.off j slot ?_)) hepoch
      rintro heq
      obtain ⟨rfl, rfl⟩ := Prod.mk.inj heq
      exact S.not_spent hr.published hs

/-! ## Steps -/

/-- A step reduces nothing of a course but the first frame that is due. -/
lemma step (hS : S.Lawful) (h : Trail S e b D) (hstep : Engine.Step S.id mine S.shown e e') :
    Trail S e' b D ∨ ∃ k D', D = k :: D' ∧ Trail S e' (b + 1) D' ∧
      S.Done e' b (e'.task S.ring k) ∧ e'.stage? S.ring k = some .reduced := by
  rcases hstep.passes_or_reduces with hp | ⟨i, k, hr⟩
  · exact .inl (h.passes hp hstep.kin)
  · by_cases hD : i = S.ring ∧ k ∈ D
    · -- what is due first among the pending slots is due first
      obtain ⟨rfl, hk⟩ := hD
      have hsub := h.pending
      rw [hr.pending] at hsub
      cases hsub with
      | cons _ hsub => exact absurd (hsub.subset hk) hr.once
      | cons_cons =>
        obtain ⟨ht, hdone⟩ := reduce_due hS h hr
        exact .inr ⟨k, _, rfl, ht, hdone, hr.reduced⟩
    · exact .inl (h.reduce_other hr hD)

/-- Along any steps the frames that are due are reduced in their order. -/
lemma steps (hS : S.Lawful) (h : Trail S e b D) (hsteps : Engine.Steps S.id mine S.shown e e') :
    ∃ b' D', b ≤ b' ∧ b' + D'.length = b + D.length ∧ Trail S e' b' D' := by
  induction hsteps with
  | refl => exact ⟨b, D, Nat.le_refl b, rfl, h⟩
  | tail _ hstep ih =>
    obtain ⟨b₁, D₁, hle₁, hlen₁, h₁⟩ := ih
    rcases h₁.step hS hstep with h₂ | ⟨k, D₂, rfl, h₂, -⟩
    · exact ⟨b₁, D₁, hle₁, hlen₁, h₂⟩
    · refine ⟨b₁ + 1, D₂, Nat.le_succ_of_le hle₁, ?_, h₂⟩
      rw [List.length_cons] at hlen₁
      omega

/-! ## Moves of the course's own scan -/

/-- The next frame is published in a slot that was claimed. -/
lemma publish (hS : S.Lawful) (h : Trail S e b D) (hk : e.stage? S.ring k = some .claimed)
    (ht : e.Turns e' (S.ring, k) (S.ask (e.epoch S.id) (b + D.length)) .published)
    (hp : e'.pendingIn (some S.ring) = e.pendingIn (some S.ring) ++ [k])
    (hlt : b + D.length < S.count) : Trail S e' b (D ++ [k]) := by
  have hepoch : e'.epoch S.id = e.epoch S.id := by rw [ht.epoch]
  have htask := ht.task
  rw [← hepoch] at htask
  refine ⟨Numbered.append.2 ⟨h.due.imp fun j slot hs hd => ?_, ⟨htask, ht.stage⟩, trivial⟩, ?_, ?_,
    ?_, fun i slot w hw hid he => ?_, fun i slot w hw hid => ?_⟩
  · -- a slot that is due is not the one that was claimed
    have hne : (S.ring, slot) ≠ (S.ring, k) := by
      rintro heq
      rw [(Prod.mk.inj heq).2, hk] at hd
      cases hd.2
    obtain ⟨ht', hs'⟩ := ht.off S.ring slot hne
    rw [ht', hs', hepoch]
    exact hd
  · rw [List.length_append, List.length_singleton]
    omega
  · rw [hp]
    exact h.pending.append_right [k]
  · rw [ht.world]
    exact h.world
  · by_cases hne : (i, slot) = (S.ring, k)
    · obtain ⟨rfl, rfl⟩ := Prod.mk.inj hne
      exact .inl ⟨rfl, List.mem_append_right _ (List.mem_singleton_self _)⟩
    · have hoff := ht.off i slot hne
      rw [hoff.1] at hw he
      rcases h.spent i slot w hw hid (he.trans hepoch) with ⟨hi, hs⟩ | hs
      · exact .inl ⟨hi, List.mem_append_left _ hs⟩
      · exact .inr (hs.rests (.inr hoff) hepoch)
  · by_cases hne : (i, slot) = (S.ring, k)
    · obtain ⟨rfl, rfl⟩ := Prod.mk.inj hne
      rw [ht.task] at hw
      exact absurd (Option.some.inj hw ▸ hS.dispatcher) hid
    · rw [(ht.off i slot hne).1] at hw
      exact h.tame i slot w hw hid

section fresh

variable (hdated : ∀ i slot, (e.task i slot).Dated e.epoch) (hepoch : e.epoch S.id < e'.epoch S.id)
  (hr : e'.rings = e.rings)

include hdated hepoch hr

/-- No task is of an epoch that begins only now. -/
lemma not_current (i slot : Nat) : ¬ S.Current e' (e'.task i slot) := by
  intro hc
  have hle := (hdated i slot).1
  rw [(Engine.seen_of_rings hr).1] at hc
  rw [hc.1, hc.2] at hle
  omega

lemma epoch_ne_of_work {i slot : Nat} {w : Work ω} (hw : (e'.task i slot).work = some w)
    (hid : w.dispatcher = S.id) : (e'.task i slot).epoch ≠ e'.epoch S.id := by
  intro he
  refine not_current hdated hepoch hr i slot ⟨?_, he⟩
  rw [(Engine.seen_of_rings hr).1] at hw ⊢
  exact ((hdated i slot).2 w hw).symm.trans hid

/-- In a new epoch nothing is due and nothing is spent. -/
lemma fresh (htame : e.Tame S.id S.shown) (hworld : S.shown e'.world = S.state 0) :
    Trail S e' 0 [] := by
  refine ⟨trivial, Nat.zero_le _, List.nil_sublist _, hworld, fun i slot w hw hid he => ?_, ?_⟩
  · exact absurd he (epoch_ne_of_work hdated hepoch hr hw hid)
  · rw [Engine.Tame, (Engine.seen_of_rings hr).1]
    exact htame

end fresh

end Trail

end TableScan
