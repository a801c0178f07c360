import TableScan.Proofs.Handiwork

/-!
# Upkeep

Main statement: every deed that is permitted keeps the workshop in order, be it done by hand or
at a site, so that every workshop that can be reached is in order.
-/

namespace TableScan.Workshop

variable {ω : Type} {W : Workshop ω} {F : List Lease} {H : List Place} {site : Site}
  {name : String} {a : Deed ω}

namespace Sound

/-! ## Deeds at a site -/

lemma after_errand (h : W.Sound F H) {f : Scan ω → Scan ω} (he : Errand a site f)
    (hp : W.Permits a) : ∃ F', (W.after a).Sound F' H := by
  rw [he.after]
  cases hs : W.scan? site with
  | none => exact ⟨F, h⟩
  | some s =>
    obtain ⟨F', hF', -⟩ := h.errand hs (he.available hp) (he.moves h hp (W.spares_unit a) hs [])
    exact ⟨F', hF'⟩

lemma after_turn (h : W.Sound F H) {f : Cursor → Scan ω → Cursor × Scan ω} (ht : Turn a name f) :
    ∃ F', (W.after a).Sound F' H := by
  cases hc : W.cursors.find? name with
  | none =>
    rw [ht.after_none hc]
    exact ⟨F, h⟩
  | some c =>
    obtain ⟨s, hs, hfit⟩ := h.fit name c hc
    have hs' := h.scan hs (h.leased_perm hc)
    rw [ht.after hc hs]
    obtain ⟨F', hF', -⟩ := h.turn hc hs
      (ht.moves (π := fun _ => ()) hfit.home (fun _ _ => leaves_unit _ _) [])
      (ht.fit hfit (M := []) (by rwa [List.append_nil]))
    exact ⟨F', hF'⟩

lemma after_opening (h : W.Sound F H) (hav : W.Available site) (hhome : W.AtHome site)
    (hc : W.cursors.find? name = none) : ∃ F', (W.after (.openOn site name)).Sound F' H := by
  cases hs : W.scan? site with
  | none =>
    rw [after_openOn_none hs]
    exact ⟨F, h⟩
  | some s =>
    have m : Scan.Moves (fun _ : ω => ()) (s, []) _ := Cursor.moves_openOn (h.home hhome hs)
    rw [after_openOn hc hs]
    rcases ho : Cursor.openOn s with ⟨stop | c, s'⟩ <;> rw [ho] at m
    · obtain ⟨F', hF', -⟩ := h.errand hs hav m
      exact ⟨F', hF'⟩
    · have m' : Scan.Moves (fun _ : ω => ()) (s, []) (s', c.leases) := by
        simpa [Cursor.leasesOf] using m
      obtain ⟨K, hK, -⟩ := hav.2
      have hfit : Fit s' ⟨site, c⟩ := by
        refine ⟨(Scan.Moves.sameSite m').home (h.home hhome hs),
          fun hcl => absurd hcl (Cursor.phase_openOn ho), fun p hp => ?_, fun p hp => ?_,
          fun p hp => ?_⟩ <;> exact absurd (hK.symm.trans hp) (by simp)
      obtain ⟨F', hF', -⟩ := h.opened (V := { W.putScan site s' with
          cursors := W.cursors.bind name ⟨site, c⟩ }) hs hc (fun _ _ => hav.site_ne) m' hfit rfl
        ((dispatcher?_congr rfl rfl).trans (dispatcher?_putScan hs s'))
        ((inbox?_congr rfl rfl).trans (inbox?_putScan hs s')) (order?_putScan s')
        (claims_putScan s') (leases_putScan s') rfl
      exact ⟨F', hF'⟩

/-- A deed at a site keeps the workshop in order. -/
lemma after_site (h : W.Sound F H) (hp : W.Permits a) (ha : W.site? a = some site) :
    ∃ F', (W.after a).Sound F' H := by
  cases a with
  | dispatch => exact h.after_errand .dispatch hp
  | steal => exact h.after_errand .steal hp
  | drain => exact h.after_errand .drain hp
  | rewind => exact h.after_errand .rewind hp
  | gather => exact h.after_errand .gather hp
  | execute plan inbox hub =>
    rw [after_execute]
    cases hpl : W.plans.find? plan with
    | none => exact ⟨F, h⟩
    | some p => exact h.after_errand .dispatch hp
  | openCursor plan name hub =>
    obtain ⟨hfree, hc, hhub⟩ := hp
    cases hpl : W.plans.find? plan with
    | none =>
      rw [after_openCursor_none hpl]
      exact ⟨F, h⟩
    | some p =>
      obtain ⟨F', hF', -⟩ := h.openCursor hfree hc hhub hpl
        ⟨fun _ => rfl, leaves_unit p.dispatcher.reducer p.filter⟩
      exact ⟨F', hF'⟩
  | openOn site name => exact h.after_opening hp.1 hp.2.1 hp.2.2
  | next => exact h.after_turn .next
  | rewindCursor => exact h.after_turn .rewind
  | close => exact h.after_turn .close
  | dropCursor name =>
    obtain ⟨c, hc, -⟩ := Option.map_eq_some_iff.1 ha
    obtain ⟨s, hs, hfit⟩ := h.fit name c hc
    obtain ⟨F', hF', -⟩ := h.dropCursor hc hs hfit
    exact ⟨F', hF'⟩
  | _ => cases ha

/-! ## All deeds -/

/-- Every deed that is permitted keeps the workshop in order. -/
lemma after (h : W.Sound F H) (hp : W.Permits a) :
    ∃ F', (W.after a).Sound F' (W.strays a ++ H) := by
  cases ha : W.site? a with
  | none => exact h.of_byHand (byHand_after hp ha)
  | some site =>
    rw [strays_of_site ha]
    exact h.after_site hp ha

end Sound

/-! ## Reachable workshops -/

/-- A new workshop has an engine with some hubs, and nothing else. -/
lemma made_of_hubs {world : ω} {settings : List Settings} {P : Engine ω → Prop}
    (h : Workshop.make? world settings = .ok W) (first : P { world })
    (hub : ∀ e s n e', P e → Engine.addHub? e s = .ok (n, e') → P e') :
    ∃ e, W = { engine := e } ∧ P e := by
  have fold : ∀ (e e' : Engine ω) (l : List Settings), P e →
      l.foldlM (fun e s => do s.layOut; return (← e.addHub? s).2) e = Except.ok e' → P e' := by
    intro e e' l
    induction l generalizing e with
    | nil =>
      intro he h
      exact Except.ok.inj h ▸ he
    | cons s l ih =>
      intro he h
      rw [List.foldlM_cons] at h
      cases hs : s.layOut with
      | error fault => simp [hs, bind, Except.bind] at h
      | ok u =>
        cases ha : e.addHub? s with
        | error fault => simp [hs, ha, bind, Except.bind] at h
        | ok p =>
          simp only [hs, ha, bind, Except.bind, pure, Except.pure] at h
          exact ih p.2 (hub e s p.1 p.2 he ha) h
  unfold Workshop.make? at h
  cases he : settings.foldlM (fun e s => do s.layOut; return (← e.addHub? s).2)
      ({ world } : Engine ω) with
  | error fault =>
    simp only [bind, Except.bind, pure, Except.pure] at h he
    rw [he] at h
    cases h
  | ok e =>
    have hP := fold _ e settings first he
    simp only [bind, Except.bind, pure, Except.pure] at h he
    rw [he] at h
    exact ⟨e, (Except.ok.inj h).symm, hP⟩

lemma sound_make {world : ω} {settings : List Settings}
    (h : Workshop.make? world settings = .ok W) : W.Sound [] [] := by
  obtain ⟨e, rfl, hs⟩ := made_of_hubs (P := fun e => e.Sound [] [] [] []) h
    (Engine.Sound.ofWorld world) fun _ _ _ _ he ha => he.addHub ha
  have hD : ∀ o, Workshop.dispatcher? ({ engine := e } : Workshop ω) o = none := by
    intro o
    cases o <;> rfl
  have hK : ∀ o, Workshop.inbox? ({ engine := e } : Workshop ω) o = none := by
    intro o
    cases o <;> rfl
  refine ⟨⟨hs, ?_, ?_, ?_, ?_, by simp⟩, Register.keyed_empty, Register.keyed_empty,
    Register.keyed_empty, ?_, ?_, ?_, ?_⟩ <;> intros <;> simp_all

/-- Every workshop that can be reached is in order. -/
lemma Reached.sound (h : W.Reached H) : ∃ F, W.Sound F H := by
  induction h with
  | make made => exact ⟨[], sound_make made⟩
  | deed _ permitted ih =>
    obtain ⟨F, h⟩ := ih
    exact h.after permitted

end TableScan.Workshop
