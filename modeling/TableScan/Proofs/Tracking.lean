import TableScan.Proofs.Collecting

/-!
# Trails in a workshop

What the deeds in a workshop do to the trail of an execution, as long as no new epoch of its
dispatcher begins.  Main statements: such a deed makes moves at its site that leave the filter of
the execution alone (`Workshop.Sound.shift_within`), and keeps the trail (`Workshop.Tracks.after`).
-/

namespace TableScan.Workshop

variable {ω σ : Type} {W V : Workshop ω} {F : List Lease} {H : List Place} {site : Site}
  {s s' : Scan ω} {π : ω → σ} {a : Deed ω} {M M' : List Lease} {id : Nat}

/-- A deed leaves alone what `π` shows of the world, but for the filter of a new execution of the
dispatcher `id`. -/
def SparesBut (W : Workshop ω) (id : Nat) (π : ω → σ) : Deed ω → Prop
  | .dispatch site source _ filter =>
      (∀ w, π (source.supply w).2 = π w) ∧
        ∀ d, W.dispatcher? site.dispatcher = some d → d.id ≠ id → d.reducer.Leaves filter π
  | .execute plan _ _ | .openCursor plan _ _ =>
      ∀ p, W.plans.find? plan = some p → (∀ w, π (p.source.supply w).2 = π w) ∧
        (p.dispatcher.id ≠ id → p.dispatcher.reducer.Leaves p.filter π)
  | a => W.Spares π a

/-- The work of all dispatchers but `id` leaves alone what `π` shows of the world. -/
structure Secluded (W : Workshop ω) (id : Nat) (π : ω → σ) : Prop where
  others : ∀ o d w, W.dispatcher? o = some d → d.id ≠ id → d.work = some w →
    w.reducer.Leaves w.filter π
  tame : W.engine.Tame id π

/-- What is permitted under one epoch of a dispatcher, if nobody else touches its filter. -/
structure Within (id : Nat) (π : ω → σ) (W : Workshop ω) (a : Deed ω) : Prop where
  permits : W.Permits a
  spares : W.SparesBut id π a
  epoch : (W.after a).engine.epoch id = W.engine.epoch id

lemma SparesBut.byHand (h : W.SparesBut id π a) (ha : W.site? a = none) : W.Spares π a := by
  cases a with
  | dispatch | execute | openCursor => cases ha
  | _ => exact h

lemma SparesBut.other (h : W.SparesBut id π a) (ha : W.site? a = some site)
    (hs : W.scan? site = some s) (hid : s.dispatcher.id ≠ id) : W.Spares π a := by
  have hd := (scan?_eq_some_iff.1 hs).1
  -- the dispatcher of a plan
  have plan : ∀ {plan : String} {k : Owner}, some ⟨.plan plan, k⟩ = some site →
      ∀ p, W.plans.find? plan = some p → p.dispatcher.id ≠ id := by
    intro plan k ha p hp
    obtain rfl := Option.some.inj ha
    simp only [dispatcher?, hp, Option.map_some, Option.some.injEq] at hd
    rwa [hd]
  cases a with
  | dispatch site' source hub filter =>
    obtain rfl := Option.some.inj ha
    exact ⟨h.1, fun d hd' => h.2 d hd' (Option.some.inj (hd.symm.trans hd') ▸ hid)⟩
  | execute => exact fun p hp => ⟨(h p hp).1, (h p hp).2 (plan ha p hp)⟩
  | openCursor => exact fun p hp => ⟨(h p hp).1, (h p hp).2 (plan ha p hp)⟩
  | _ => exact h

lemma after_dispatch (hs : W.scan? site = some s) (source : Source ω) (hub : Nat)
    (filter : Filter ω) : W.after (.dispatch site source hub filter) =
      W.putScan site (s.dispatch source hub filter).2 := by
  have herrand : Errand (.dispatch site source hub filter) site _ := .dispatch
  rw [herrand.after, hs]

/-- After the dispatch of a plan, the opening of its cursor begins no epoch. -/
lemma epoch_openCursor {plan name : String} {p : Plan ω} (hpl : W.plans.find? plan = some p)
    (hc : W.cursors.find? name = none) {hub : Nat} :
    (W.after (.openCursor plan name hub)).engine.epoch =
      ((p.scan W.engine).dispatch p.source hub p.filter).2.engine.epoch := by
  have hW := after_openCursor hpl hc hub
  rw [Plan.openCursor_eq] at hW
  rcases hd : (p.scan W.engine).dispatch p.source hub p.filter with ⟨stop | u, t⟩ <;>
    rw [hd] at hW <;> dsimp only at hW
  · rw [hW]
  · have ht := Cursor.epoch_openOn t
    rcases ho : Cursor.openOn t with ⟨stop | c, t'⟩ <;> rw [ho] at hW ht <;>
      dsimp only at hW <;> rw [hW] <;> exact ht

namespace Sound

/-- A dispatch only settles what is in flight and stops, or it begins an epoch. -/
lemma dispatch_or (h : W.Sound F H) (hs : W.scan? site = some s) {source : Source ω}
    (hub : Nat) (filter : Filter ω) (hw : ∀ w, π (source.supply w).2 = π w) :
    (∃ stop t, s.dispatch source hub filter = (.error stop, t) ∧ Scan.Moves π (s, []) (t, [])) ∨
      W.engine.epoch s.dispatcher.id <
        (s.dispatch source hub filter).2.engine.epoch s.dispatcher.id := by
  obtain ⟨t, m, hsame, ht | ⟨frames, -, -, -, hd⟩⟩ := Scan.dispatch_splits (M := []) _ _ hub filter hw
  · exact .inl (ht.elim fun stop hd => ⟨stop, t, hd, m⟩)
  · obtain ⟨F', hs', -⟩ := Scan.Moves.sound m (h.scan hs (.refl _))
    have hlt := Scan.epoch_lt_nextEpoch hs'.employed.id_lt
    have hid : t.dispatcher.id = s.dispatcher.id := (Scan.Moves.sameSite m).dispatcher
    rw [hd, Scan.epoch_launch, (scan?_eq_some_iff.1 hs).2.2, ← hsame.epoch, ← hid]
    exact .inr hlt

/-- Starting over begins no epoch only for a cursor that has not moved, or on a scan that is not
active. -/
lemma rewind_within (h : W.Sound F H) {name : String} {c : OpenCursor}
    (hc : W.cursors.find? name = some c) (hs : W.scan? c.site = some s)
    (he : (W.after (.rewindCursor name)).engine.epoch s.dispatcher.id =
      W.engine.epoch s.dispatcher.id) :
    ¬ (c.cursor.phase = .iterating ∨ c.cursor.phase = .exhausted) ∨ s.dispatcher.work = none := by
  by_contra hboth
  obtain ⟨hphase, hwork⟩ := not_or.1 hboth
  have hactive : s.dispatcher.isActive = true := Option.isSome_iff_ne_none.2 hwork
  have hlt := Scan.epoch_lt_nextEpoch (h.scan hs (M := []) (.refl _)).employed.id_lt
  have hepoch : (W.after (.rewindCursor name)).engine.epoch = s.nextEpoch.engine.epoch := by
    rw [Turn.rewind.after hc hs]
    exact Cursor.epoch_rewind (not_not.1 hphase) hactive
  rw [hepoch, (scan?_eq_some_iff.1 hs).2.2] at he
  exact hlt.ne' he

/-- What a dispatcher does itself under one epoch leaves its filter alone, but for reductions. -/
lemma shift_own (h : W.Sound F H) (hp : W.Permits a) (hsp : W.SparesBut s.dispatcher.id π a)
    (ha : W.site? a = some site) (hs : W.scan? site = some s)
    (he : (W.after a).engine.epoch s.dispatcher.id = W.engine.epoch s.dispatcher.id) :
    W.after a = W ∨ ∃ s s' M M', W.Shift (W.after a) π site s s' M M' := by
  -- a dispatch that only settles
  have dispatch : ∀ (source : Source ω) (hub : Nat) (filter : Filter ω),
      W.after a = W.putScan site (s.dispatch source hub filter).2 → W.Available site →
      (∀ w, π (source.supply w).2 = π w) →
      W.after a = W ∨ ∃ s s' M M', W.Shift (W.after a) π site s s' M M' := by
    intro source hub filter hW hav hw
    rw [hW] at he ⊢
    obtain ⟨stop, t, hd, m⟩ := (h.dispatch_or hs hub filter hw).resolve_right fun hlt => hlt.ne' he
    rw [hd]
    exact .inr ⟨s, t, [], [], (moved_putScan hs _).unread hs m (fun _ _ => hav.site_ne)
      (cursors_putScan _)⟩
  cases a with
  | dispatch site' source hub filter =>
    obtain rfl := Option.some.inj ha
    exact dispatch source hub filter (after_dispatch hs ..) hp.1 hsp.1
  | execute plan inbox hub =>
    obtain rfl := Option.some.inj ha
    cases hpl : W.plans.find? plan with
    | none =>
      left
      rw [after_execute, hpl]
    | some p =>
      refine dispatch p.source hub p.filter ?_ hp.1 (hsp p hpl).1
      rw [after_execute, hpl]
      exact after_dispatch hs ..
  | openCursor plan name hub =>
    obtain rfl := Option.some.inj ha
    obtain ⟨hfree, hc, hhub⟩ := hp
    cases hpl : W.plans.find? plan with
    | none => exact .inl (after_openCursor_none hpl hub)
    | some p =>
      obtain ⟨hs', hsite, -⟩ := h.vacant hfree hpl
      obtain rfl := Option.some.inj (hs.symm.trans hs')
      have hW := after_openCursor hpl hc hub
      rw [Plan.openCursor_eq] at hW
      rw [epoch_openCursor hpl hc] at he
      obtain ⟨stop, t, hd, m⟩ :=
        (h.dispatch_or hs hub p.filter (hsp p hpl).1).resolve_right fun hlt => hlt.ne' he
      rw [hd] at hW
      rw [hW]
      exact .inr ⟨_, t, [], [], (moved_putPlan t).unread hs m hsite rfl⟩
  | rewindCursor name =>
    obtain ⟨c, hc, rfl⟩ := Option.map_eq_some_iff.1 ha
    obtain ⟨s', hs', hfit⟩ := h.fit name c hc
    obtain rfl := Option.some.inj (hs.symm.trans hs')
    have hW := Turn.rewind.after hc hs
    have hmoves : Scan.Moves π (s, c.cursor.leases) ((c.cursor.rewind s).2.2,
        (c.cursor.rewind s).2.1.leases) := by
      rcases h.rewind_within hc hs he with hphase | hnone
      · rw [Cursor.rewind_of_still hphase]
      · have m := Cursor.moves_rewind (π := π) (c := c.cursor) (M := []) hfit.home
          fun w hw => absurd (hnone.symm.trans hw) (Option.some_ne_none w).symm
        rwa [List.append_nil, List.append_nil] at m
    rw [hW]
    exact .inr ⟨_, _, _, _, h.shift_turn hc hs hmoves⟩
  | _ => exact h.shift hp hsp ha fun _ _ hn => nomatch hn

/-- What is done under one epoch of a dispatcher leaves its filter alone, but for reductions. -/
lemma shift_within (h : W.Sound F H) (ha : W.Within id π a) (hothers : W.Secluded id π)
    (hsite : W.site? a = some site) :
    W.after a = W ∨ ∃ s s' M M', W.Shift (W.after a) π site s s' M M' := by
  rcases h.shift_unit ha.permits hsite with hW | ⟨s, s', M, M', hshift⟩
  · exact .inl hW
  · have hs := hshift.scan
    by_cases hid : s.dispatcher.id = id
    · subst hid
      exact h.shift_own ha.permits ha.spares hsite hs ha.epoch
    · refine h.shift ha.permits (ha.spares.other hsite hs hid) hsite fun n s₁ hn hs₁ w hw => ?_
      obtain rfl := Option.some.inj (hs.symm.trans hs₁)
      exact hothers.others _ _ w (scan?_eq_some_iff.1 hs).1 hid hw

end Sound

/-! ## Workshops with a trail -/

/-- The execution of a course in a workshop: what is left of it to reduce is on its trail, and its
dispatcher is at work on it, or has ended it. -/
structure Tracks (W : Workshop ω) (S : Course ω σ) (b : Nat) (D : List Nat) : Prop where
  trail : Trail S W.engine b D
  serves : ∀ o d, W.dispatcher? o = some d → d.id = S.id →
    d.work = none ∨ d.Serves S (b + D.length)
  others : ∀ o d w, W.dispatcher? o = some d → d.id ≠ S.id → d.work = some w →
    w.reducer.Leaves w.filter S.shown

namespace Tracks

variable {S : Course ω σ} {b b' : Nat} {D D' : List Nat}

lemma secluded (ht : W.Tracks S b D) : W.Secluded S.id S.shown := ⟨ht.others, ht.trail.tame⟩

lemma onTrail (ht : W.Tracks S b D) (hs : W.scan? site = some s) (hid : s.dispatcher.id = S.id) :
    s.OnTrail S b D := by
  obtain ⟨hd, -, he⟩ := scan?_eq_some_iff.1 hs
  exact ⟨hid, he ▸ ht.trail, ht.serves _ _ hd hid⟩

/-- When its own scan is put back, an execution is tracked as far as the scan is on the trail. -/
lemma own (hW : W.Secluded S.id S.shown) (h : W.Sound F H) (hm : W.Moved V site s')
    (hs : W.scan? site = some s) (hid : s.dispatcher.id = S.id) (hon : s'.OnTrail S b' D') :
    V.Tracks S b' D' := by
  have hd := (scan?_eq_some_iff.1 hs).1
  refine ⟨hm.engine ▸ hon.trail, fun o d hd' hid' => ?_, fun o d w hd' hid' hw => ?_⟩ <;>
    rw [hm.dispatchers, Function.update_apply] at hd' <;> split at hd' <;> rename_i ho
  · exact Option.some.inj hd' ▸ hon.serves
  · exact absurd (h.floor.dispatchers _ _ _ _ hd' hd (hid'.trans hid.symm)) ho
  · exact absurd (Option.some.inj hd' ▸ hon.id) hid'
  · exact hW.others o d w hd' hid' hw

/-- A shift under the epoch of an execution keeps it on its trail. -/
lemma shift (hS : S.Lawful) (ht : W.Tracks S b D) (h : W.Sound F H)
    (hsh : W.Shift V S.shown site s s' M M')
    (he : V.engine.epoch S.id = W.engine.epoch S.id) :
    ∃ b' D', b ≤ b' ∧ V.Tracks S b' D' := by
  obtain ⟨N, -, hs⟩ := hsh.sound h
  obtain ⟨hd, -, heng⟩ := scan?_eq_some_iff.1 hsh.scan
  by_cases hid : s.dispatcher.id = S.id
  · rw [hsh.engine, heng] at he
    obtain ⟨b', D', hle, hon⟩ := Scan.Moves.onTrail hS hsh.moves hs (ht.onTrail hsh.scan hid) he
    exact ⟨b', D', hle, own ht.secluded h hsh.toMoved hsh.scan hid hon⟩
  · -- another scan works apart from the execution
    have hapart : s.Apart (N.map Lease.place) F S.id (fun _ => False) S.shown :=
      ⟨hid, fun w hw => ht.others _ _ w hd hid hw, fun p hp => hp.elim⟩
    obtain ⟨b', D', hle, hlen, htrail⟩ :=
      ht.trail.steps hS (heng ▸ Scan.Moves.steps hsh.moves hs hapart)
    have hid' : s'.dispatcher.id ≠ S.id := (Scan.Moves.sameSite hsh.moves).dispatcher ▸ hid
    refine ⟨b', D', hle, hsh.engine ▸ htrail, fun o d hd' hid₁ => ?_, fun o d w hd' hid₁ hw => ?_⟩ <;>
      rw [hsh.dispatchers, Function.update_apply] at hd' <;> split at hd'
    · exact absurd (Option.some.inj hd' ▸ hid₁) hid'
    · exact hlen ▸ ht.serves o d hd' hid₁
    · obtain rfl := Option.some.inj hd'
      exact Scan.Moves.leaves hsh.moves (fun w hw => ht.others _ _ w hd hid hw) w hw
    · exact ht.others o d w hd' hid₁ hw

/-- Whatever is done under the epoch of an execution keeps it on its trail. -/
lemma after (hS : S.Lawful) (ht : W.Tracks S b D) (h : W.Sound F H)
    (ha : W.Within S.id S.shown a) : ∃ b' D', b ≤ b' ∧ (W.after a).Tracks S b' D' := by
  cases hsite : W.site? a with
  | none =>
    have hV := byHand_after ha.permits hsite
    have hsteps : Engine.Steps S.id (fun _ => False) S.shown W.engine (W.after a).engine :=
      h.steps_byHand hV (ha.spares.byHand hsite) (fun _ _ _ hm => hm) fun _ _ hm => hm
    obtain ⟨b', D', hle, hlen, htrail⟩ := ht.trail.steps hS hsteps
    refine ⟨b', D', hle, htrail, fun o d hd hid => ?_, fun o d w hd hid hw => ?_⟩ <;>
      rcases hV.dispatcher? hd with hd' | hwork
    · exact hlen ▸ ht.serves o d hd' hid
    · exact .inl hwork
    · exact ht.others o d w hd' hid hw
    · exact absurd (hwork.symm.trans hw) (Option.some_ne_none w).symm
  | some site =>
    rcases h.shift_within ha ht.secluded hsite with hW | ⟨s, s', M, M', hshift⟩
    · rw [hW]
      exact ⟨b, D, Nat.le_refl b, ht⟩
    · exact ht.shift hS h hshift ha.epoch

end Tracks

end TableScan.Workshop
