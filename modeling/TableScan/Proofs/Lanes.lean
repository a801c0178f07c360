import TableScan.Proofs.Trails

/-!
# Lanes

The frames of an execution come to their cursor in order, however the reductions are mixed with
those of other scans.  A lane is what is on its way: slots of past epochs, then the frames that
were reduced, then those that are still due, which are the trail of the execution.  Main
statement: no step of others disturbs a lane; a reduction may only move the first frame that is
due to those that were reduced.
-/

namespace TableScan

variable {ω σ : Type}

/-- The slots on their way to a cursor that has collected the first `b` frames of a course, as far
as they are not due: those of past epochs and those that were reduced.  `M` are the slots that the
cursor holds. -/
structure Row (S : Course ω σ) (e : Engine ω) (b : Nat) (M O R : List Nat) : Prop where
  hand : ∀ slot ∈ M, e.stage? S.ring slot = some .leased
  old : ∀ slot ∈ O, ¬ S.Current e (e.task S.ring slot) ∧ e.Flown S.ring slot
  ready : Numbered (fun j slot =>
    S.Done e j (e.task S.ring slot) ∧ e.stage? S.ring slot = some .reduced) b R

/-- A row of slots before a trail. -/
structure Lane (S : Course ω σ) (e : Engine ω) (b : Nat) (M O R D : List Nat) : Prop
    extends Row S e b M O R, Trail S e (b + R.length) D where
  /-- No other slot has work of the present epoch. -/
  sole : ∀ i slot w, (e.task i slot).work = some w → w.dispatcher = S.id →
    (e.task i slot).epoch = e.epoch S.id → i = S.ring ∧ slot ∈ M ++ (R ++ D)

namespace Row

variable {S : Course ω σ} {e e' : Engine ω} {b : Nat} {M O R : List Nat}

lemma reduced (h : Row S e b M O R) {slot : Nat} (hs : slot ∈ R) :
    e.stage? S.ring slot = some .reduced :=
  (h.ready.mem hs).elim fun _ hj => hj.2

lemma held (h : Row S e b M O R) {slot : Nat} (hs : slot ∈ M ++ (O ++ R)) :
    e.Held (S.ring, slot) := by
  simp only [List.mem_append] at hs
  rcases hs with hs | hs | hs
  · exact .inr (h.hand slot hs)
  · exact .inl (h.old slot hs).2
  · exact .inl (.inr (h.reduced hs))

/-- A row stays if its places are kept. -/
lemma kept (h : Row S e b M O R) (hkept : ∀ slot ∈ M ++ (O ++ R), e.Kept e' (S.ring, slot))
    (hepoch : e'.epoch S.id = e.epoch S.id) : Row S e' b M O R := by
  simp only [List.mem_append] at hkept
  refine ⟨fun slot hs => ?_, fun slot hs => ⟨fun hc => (h.old slot hs).1 ?_, ?_⟩,
    h.ready.imp fun j slot hs hd => ?_⟩
  · have hst := h.hand slot hs
    exact ((hkept slot (.inl hs)).same (by simp [hst])).2.trans hst
  · -- only the results of its task have changed
    have ht := (hkept slot (.inr (.inl hs))).request
    exact ⟨ht.dispatcher.symm.trans hc.1, ht.epoch.symm.trans (hc.2.trans hepoch)⟩
  · rcases (hkept slot (.inr (.inl hs))).stage? with hst | ⟨-, hst⟩
    · exact (h.old slot hs).2.imp hst.trans hst.trans
    · exact .inr hst
  · obtain ⟨ht, hst⟩ := (hkept slot (.inr (.inr hs))).same (by simp [hd.2])
    rw [ht, hst]
    exact ⟨hd.1.congr hepoch, hd.2⟩

end Row

namespace Lane

variable {S : Course ω σ} {e e' : Engine ω} {b k : Nat} {M O R D : List Nat}
  {mine : Place → Prop}

/-- The slots of a lane that are not at hand are on their way. -/
lemma flown (h : Lane S e b M O R D) {slot : Nat} (hs : slot ∈ O ++ (R ++ D)) :
    e.Flown S.ring slot := by
  simp only [List.mem_append] at hs
  rcases hs with hs | hs | hs
  · exact (h.old slot hs).2
  · exact .inr (h.reduced hs)
  · exact .inl (h.published hs)

/-- The slots of a lane are in flight or leased. -/
lemma held (h : Lane S e b M O R D) {slot : Nat} (hs : slot ∈ M ++ (O ++ (R ++ D))) :
    e.Held (S.ring, slot) := by
  rcases List.mem_append.1 hs with hs | hs
  · exact .inr (h.hand slot hs)
  · exact .inl (h.flown hs)

lemma sole_kin (h : Lane S e b M O R D)
    (hkin : ∀ i slot, (e.task i slot).Kin S.id S.shown (e'.task i slot))
    (hepoch : e'.epoch S.id = e.epoch S.id) (i slot : Nat) (w : Work ω)
    (hw : (e'.task i slot).work = some w) (hid : w.dispatcher = S.id)
    (he : (e'.task i slot).epoch = e'.epoch S.id) : i = S.ring ∧ slot ∈ M ++ (R ++ D) := by
  rcases hkin i slot w hw with ⟨hne, -⟩ | ⟨hw', he'⟩
  · exact absurd hid hne
  · exact h.sole i slot w hw' hid (he'.symm.trans (he.trans hepoch))

/-! ## Steps of others -/

/-- Bookkeeping leaves a lane alone. -/
lemma still (h : Lane S e b M O R D) (hr : e'.rings = e.rings)
    (hepoch : e'.epoch S.id = e.epoch S.id) (hworld : S.shown e'.world = S.shown e.world) :
    Lane S e' b M O R D := by
  have hkin : ∀ i slot, (e.task i slot).Kin S.id S.shown (e'.task i slot) := by
    rw [(Engine.seen_of_rings hr).1]
    exact fun _ _ => .refl _
  refine ⟨h.toRow.kept (fun slot hs => ?_) hepoch,
    h.toTrail.passes (Engine.passes_still hr hepoch hworld) hkin, h.sole_kin hkin hepoch⟩
  obtain ⟨r, hring⟩ := (h.toRow.held hs).there
  exact Engine.kept_of_rings hring hr

/-- A step of others moves at most the first frame that is due to those that were reduced. -/
lemma step (hS : S.Lawful) (h : Lane S e b M O R D)
    (hmine : ∀ slot ∈ M ++ (O ++ (R ++ D)), mine (S.ring, slot))
    (hstep : Engine.Step S.id mine S.shown e e') :
    ∃ R' D', R' ++ D' = R ++ D ∧ Lane S e' b M O R' D' := by
  have hrow : Row S e' b M O R := by
    refine h.toRow.kept (fun slot hs => ?_) hstep.epoch_eq
    have hs' : slot ∈ M ++ (O ++ (R ++ D)) := by
      simp only [List.mem_append] at hs ⊢
      exact hs.imp_right fun hs => hs.imp_right .inl
    exact hstep.kept (hmine slot hs') (h.held hs')
  have hsole := h.sole_kin hstep.kin hstep.epoch_eq
  rcases h.toTrail.step hS hstep with ht | ⟨k, D', rfl, ht, hdone, hst⟩
  · exact ⟨R, D, rfl, hrow, ht, hsole⟩
  · -- the slot keeps its number: it was the first one due and is the last one ready
    rw [Nat.add_assoc] at ht
    rw [List.append_cons] at hsole
    refine ⟨R ++ [k], D', (List.append_cons ..).symm, ⟨hrow.hand, hrow.old, ?_⟩, ?_, hsole⟩
    · exact Numbered.append.2 ⟨hrow.ready, ⟨hdone, hst⟩, trivial⟩
    · rwa [List.length_append, List.length_singleton]

/-- No run of others disturbs a lane. -/
lemma steps (hS : S.Lawful) (h : Lane S e b M O R D)
    (hmine : ∀ slot ∈ M ++ (O ++ (R ++ D)), mine (S.ring, slot))
    (hsteps : Engine.Steps S.id mine S.shown e e') :
    ∃ R' D', R' ++ D' = R ++ D ∧ Lane S e' b M O R' D' := by
  induction hsteps with
  | refl => exact ⟨R, D, rfl, h⟩
  | tail _ hstep ih =>
    obtain ⟨R₁, D₁, heq₁, h₁⟩ := ih
    obtain ⟨R₂, D₂, heq₂, h₂⟩ := h₁.step hS (heq₁ ▸ hmine) hstep
    exact ⟨R₂, D₂, heq₂.trans heq₁, h₂⟩

end Lane

end TableScan
