import TableScan.Proofs.Soundness

/-!
# Deeds at a site

A deed is done by hand, or it works at one site: there a scan makes some moves, and nothing else
in the workshop changes.  Main statement: every permitted deed at a site leaves the workshop as
it is, or shifts it in this way (`Workshop.Sound.shift`).
-/

namespace TableScan.Workshop

variable {ω σ : Type} {W V : Workshop ω} {F : List Lease} {H : List Place} {site : Site}
  {s s' : Scan ω} {name : String} {π : ω → σ} {a : Deed ω} {M M' : List Lease}

/-- The site at which a deed works; there is none for a deed by hand. -/
def site? (W : Workshop ω) : Deed ω → Option Site
  | .dispatch site _ _ _ | .steal site | .drain site | .rewind site | .gather site _
  | .openOn site _ => some site
  | .execute plan inbox _ => some ⟨.plan plan, .own inbox⟩
  | .openCursor plan _ _ => some (.ofPlan plan)
  | .next name | .rewindCursor name | .close name | .dropCursor name =>
      (W.cursors.find? name).map (·.site)
  | _ => none

lemma strays_of_site (h : W.site? a = some site) : W.strays a = [] := by
  cases a with
  | publishClaim | addInbox | addPlan => cases h
  | _ => rfl

/-- All leases that are out, by hand or with cursors. -/
def outstanding (W : Workshop ω) : List Lease :=
  W.leases.entries.map (·.2) ++ W.cursors.entries.flatMap (·.2.cursor.leases)

/-- The leases that are out by hand or with other cursors. -/
def outstandingBut (W : Workshop ω) (name : String) : List Lease :=
  W.leases.entries.map (·.2) ++ (W.cursors.erase name).entries.flatMap (·.2.cursor.leases)

lemma leased_eq (W : Workshop ω) : W.leased = W.outstanding.map Lease.place := by
  simp [leased, outstanding, List.map_flatMap]

lemma outstanding_perm (h : W.cursors.Keyed) {c : OpenCursor}
    (hc : W.cursors.find? name = some c) :
    W.outstanding.Perm (c.cursor.leases ++ W.outstandingBut name) := by
  refine (((h.perm hc).flatMap_right _).append_left _).trans ?_
  rw [List.flatMap_cons]
  exact List.perm_append_comm_assoc ..

/-- The parts of a workshop besides its cursors, after the scan of a site was put back. -/
structure Moved (W V : Workshop ω) (site : Site) (s' : Scan ω) : Prop where
  engine : V.engine = s'.engine
  dispatchers : V.dispatcher? = Function.update W.dispatcher? site.dispatcher (some s'.dispatcher)
  inboxes : V.inbox? = Function.update W.inbox? site.inbox (some s'.inbox)
  claims : V.claims = W.claims
  leases : V.leases = W.leases

/-- A shift of a workshop at a site.  The scan there makes some moves, with the leases `M` of the
site's cursor before and `M'` after them; nothing else changes. -/
structure Shift (W V : Workshop ω) (π : ω → σ) (site : Site) (s s' : Scan ω)
    (M M' : List Lease) : Prop extends Moved W V site s' where
  scan : W.scan? site = some s
  moves : Scan.Moves π (s, M) (s', M')
  held : ∃ N, W.outstanding.Perm (M ++ N) ∧ V.outstanding.Perm (M' ++ N)
  before : ∀ l ∈ M, ∃ n c, W.cursors.find? n = some c ∧ c.site = site ∧ l ∈ c.cursor.leases
  cursors : ∀ n c, V.cursors.find? n = some c →
    (W.cursors.find? n = some c ∧ c.site.dispatcher ≠ site.dispatcher ∧
      c.site.inbox ≠ site.inbox) ∨ (c.site = site ∧ c.cursor.leases = M')

lemma Moved.scan? (hm : W.Moved V site s') : V.scan? site = some s' := by
  refine scan?_eq_some_iff.2 ⟨?_, ?_, hm.engine⟩
  · rw [hm.dispatchers, Function.update_self]
  · rw [hm.inboxes, Function.update_self]

/-- The scan of a shift is sound, with the leases of the site's cursor at hand. -/
lemma Shift.sound (hsh : W.Shift V π site s s' M M') (h : W.Sound F H) :
    ∃ N, W.outstanding.Perm (M ++ N) ∧ s.Sound M W.claimed (N.map Lease.place) F H := by
  obtain ⟨N, hout, -⟩ := hsh.held
  refine ⟨N, hout, h.scan hsh.scan ?_⟩
  rw [leased_eq, ← List.map_append]
  exact hout.map _

/-- The leases of a cursor at another site are not at hand in a shift. -/
lemma Shift.mem_rest (hsh : W.Shift V π site s s' M M') (h : W.Sound F H) {N : List Lease}
    (hN : W.outstanding.Perm (M ++ N)) {c : OpenCursor} (hc : W.cursors.find? name = some c)
    (hne : c.site ≠ site) {l : Lease} (hl : l ∈ c.cursor.leases) : l ∈ N := by
  have hout := outstanding_perm h.cursors hc
  have hmem : l ∈ M ++ N := hN.mem_iff.1 (hout.mem_iff.2 (List.mem_append_left _ hl))
  refine (List.mem_append.1 hmem).resolve_left fun hM => ?_
  -- the cursor of the site would have the same lease
  obtain ⟨n, b, hb, rfl, hlb⟩ := hsh.before l hM
  have hn : n ≠ name := by
    rintro rfl
    exact hne (congrArg _ (Option.some.inj (hc.symm.trans hb)))
  have hbut : l.place ∈ leasedBut W name := by
    refine List.mem_append_right _ (List.mem_flatMap.2 ⟨(n, b), ?_, List.mem_map_of_mem hlb⟩)
    exact (h.cursors.erase name).mem_iff.2 ((Register.find?_erase_ne hn).trans hb)
  exact h.floor.engine.books.leased_disjoint (h.leased_perm hc) (List.mem_map_of_mem hl) hbut

lemma moved_putScan (hs : W.scan? site = some s) (s' : Scan ω) :
    W.Moved (W.putScan site s') site s' :=
  ⟨rfl, dispatcher?_putScan hs s', inbox?_putScan hs s', claims_putScan s', leases_putScan s'⟩

lemma Moved.withCursors (h : W.Moved V site s') (cursors : Register OpenCursor) :
    W.Moved { V with cursors } site s' :=
  ⟨h.engine, (dispatcher?_congr rfl rfl).trans h.dispatchers,
    (inbox?_congr rfl rfl).trans h.inboxes, h.claims, h.leases⟩

section Turn

variable {f : Cursor → Scan ω → Cursor × Scan ω} {c : OpenCursor}

lemma Turn.moved (ht : Turn a name f) (hc : W.cursors.find? name = some c)
    (hs : W.scan? c.site = some s) : W.Moved (W.after a) c.site (f c.cursor s).2 := by
  rw [ht.after hc hs]
  exact (moved_putScan hs _).withCursors _

lemma Turn.find?_after (ht : Turn a name f) (hc : W.cursors.find? name = some c)
    (hs : W.scan? c.site = some s) :
    (W.after a).cursors.find? name = some { c with cursor := (f c.cursor s).1 } := by
  rw [ht.after hc hs]
  exact Register.find?_bind_self

end Turn

lemma moved_putPlan {plan : String} {p : Plan ω} (s' : Scan ω) :
    W.Moved { W.putPlan plan (p.ofScan s') with engine := s'.engine } (.ofPlan plan) s' :=
  ⟨rfl, (dispatcher?_congr (W := W.putPlan plan (p.ofScan s')) rfl rfl).trans dispatcher?_putPlan,
    (inbox?_congr (W := W.putPlan plan (p.ofScan s')) rfl rfl).trans inbox?_putPlan, rfl, rfl⟩

/-- A shift at a site that no cursor has. -/
lemma Moved.unread (h : W.Moved V site s') (hs : W.scan? site = some s)
    (m : Scan.Moves π (s, []) (s', []))
    (hsite : ∀ n c, W.cursors.find? n = some c →
      c.site.dispatcher ≠ site.dispatcher ∧ c.site.inbox ≠ site.inbox)
    (hcur : V.cursors = W.cursors) : W.Shift V π site s s' [] [] := by
  refine ⟨h, hs, m, ⟨W.outstanding, .refl _, ?_⟩, nofun, fun n c hc => ?_⟩
  · rw [outstanding, h.leases, hcur]
    exact .refl _
  · rw [hcur] at hc
    exact .inl ⟨hc, hsite n c hc⟩

/-- A shift with which the site gets its cursor. -/
lemma Moved.opened (h : W.Moved V site s') (hs : W.scan? site = some s) {c : Cursor}
    (hc : W.cursors.find? name = none) (m : Scan.Moves π (s, []) (s', c.leases))
    (hsite : ∀ n c, W.cursors.find? n = some c →
      c.site.dispatcher ≠ site.dispatcher ∧ c.site.inbox ≠ site.inbox)
    (hcur : V.cursors = W.cursors.bind name ⟨site, c⟩) : W.Shift V π site s s' [] c.leases := by
  refine ⟨h, hs, m, ⟨W.outstanding, .refl _, ?_⟩, nofun, fun n b hb => ?_⟩
  · rw [outstanding, h.leases, hcur, outstanding, Register.bind, Register.erase_of_find?_none hc,
      List.flatMap_cons]
    exact List.perm_append_comm_assoc ..
  · rw [hcur, Register.find?_bind] at hb
    split at hb
    · obtain rfl := Option.some.inj hb
      exact .inr ⟨rfl, rfl⟩
    · exact .inl ⟨hb, hsite n b hb⟩

namespace Sound

/-- Two cursors differ in both parts of their sites. -/
lemma site_ne (h : W.Sound F H) {n : String} {b c : OpenCursor}
    (hb : W.cursors.find? n = some b) (hc : W.cursors.find? name = some c) (hne : n ≠ name) :
    b.site.dispatcher ≠ c.site.dispatcher ∧ b.site.inbox ≠ c.site.inbox :=
  ⟨fun hd => hne (h.sites n name b c hb hc (.inl hd)),
    fun hk => hne (h.sites n name b c hb hc (.inr hk))⟩

/-- A shift by the cursor of the site. -/
lemma shift_turn (h : W.Sound F H) {c : OpenCursor} {c' : Cursor}
    (hc : W.cursors.find? name = some c) (hs : W.scan? c.site = some s)
    (m : Scan.Moves π (s, c.cursor.leases) (s', c'.leases)) :
    W.Shift { W.putScan c.site s' with
      cursors := W.cursors.bind name { c with cursor := c' } } π c.site s s'
      c.cursor.leases c'.leases := by
  have hmoved := (moved_putScan hs s').withCursors (W.cursors.bind name { c with cursor := c' })
  refine ⟨hmoved, hs, m, ⟨W.outstandingBut name, outstanding_perm h.cursors hc, ?_⟩,
    fun l hl => ⟨name, c, hc, rfl, hl⟩, fun n b hb => ?_⟩
  · simp only [outstanding, leases_putScan, Register.bind, List.flatMap_cons, outstandingBut]
    exact List.perm_append_comm_assoc ..
  · rw [Register.find?_bind] at hb
    split at hb
    · obtain rfl := Option.some.inj hb
      exact .inr ⟨rfl, rfl⟩
    · rename_i hne
      exact .inl ⟨hb, h.site_ne hb hc hne⟩

/-- A shift with which the cursor of the site is let go of. -/
lemma shift_drop (h : W.Sound F H) {c : OpenCursor} (hc : W.cursors.find? name = some c)
    (hs : W.scan? c.site = some s) (m : Scan.Moves π (s, c.cursor.leases) (s', [])) :
    W.Shift (Workshop.putScan { W with cursors := W.cursors.erase name } c.site s') π c.site s s'
      c.cursor.leases [] := by
  have hs' : Workshop.scan? { W with cursors := W.cursors.erase name } c.site = some s := hs
  refine ⟨⟨rfl, dispatcher?_putScan hs' s', inbox?_putScan hs' s', claims_putScan s',
    leases_putScan s'⟩, hs, m, ⟨W.outstandingBut name, outstanding_perm h.cursors hc, ?_⟩,
    fun l hl => ⟨name, c, hc, rfl, hl⟩, fun n b hb => ?_⟩
  · rw [outstanding, leases_putScan, cursors_putScan]
    exact .refl _
  · rw [cursors_putScan, Register.find?_erase] at hb
    split at hb
    · cases hb
    · rename_i hne
      exact .inl ⟨hb, h.site_ne hb hc hne⟩

/-- The moves by which a cursor is closed and let go of. -/
lemma moves_close {c : OpenCursor} (hfit : Fit s c) :
    Scan.Moves π (s, c.cursor.leases) ((c.cursor.close s).2.2, []) := by
  by_cases hcl : c.cursor.phase = .closed
  · have hclose : c.cursor.close s = (.ok (), c.cursor, s) := by simp only [Cursor.close, hcl]
    rw [hclose, hfit.closed hcl]
  · have m : Scan.Moves π (s, c.cursor.leases ++ []) _ := Cursor.moves_close
    rw [List.append_nil, List.append_nil, Cursor.leases_close hcl] at m
    exact m

/-- A shift by a deed on the scan of a site. -/
lemma shift_errand (h : W.Sound F H) {f : Scan ω → Scan ω} (he : Errand a site f)
    (hp : W.Permits a) (hsp : W.Spares π a) :
    W.after a = W ∨ ∃ s s' M M', W.Shift (W.after a) π site s s' M M' := by
  rw [he.after]
  cases hs : W.scan? site with
  | none => exact .inl rfl
  | some s =>
    exact .inr ⟨s, f s, [], [], (moved_putScan hs _).unread hs (he.moves h hp hsp hs [])
      (fun _ _ => (he.available hp).site_ne) (cursors_putScan _)⟩

/-- A shift by what a cursor does. -/
lemma shift_ofTurn (h : W.Sound F H) {f : Cursor → Scan ω → Cursor × Scan ω} (ht : Turn a name f)
    (hname : (W.cursors.find? name).map (·.site) = some site)
    (hm : ∀ (c : Cursor) s, s.Home → W.scan? site = some s →
      Scan.Moves π (s, c.leases ++ []) ((f c s).2, (f c s).1.leases ++ [])) :
    W.after a = W ∨ ∃ s s' M M', W.Shift (W.after a) π site s s' M M' := by
  obtain ⟨c, hc, rfl⟩ := Option.map_eq_some_iff.1 hname
  obtain ⟨s, hs, hfit⟩ := h.fit name c hc
  have m := hm c.cursor s hfit.home hs
  rw [List.append_nil, List.append_nil] at m
  rw [ht.after hc hs]
  exact .inr ⟨_, _, _, _, h.shift_turn hc hs m⟩

/-- A shift by which a plan gets its cursor, unless it fails. -/
lemma shift_openCursor (h : W.Sound F H) {plan : String} {hub : Nat}
    (hp : W.Permits (.openCursor plan name hub)) (hsp : W.Spares π (.openCursor plan name hub)) :
    W.after (.openCursor plan name hub) = W ∨ ∃ s s' M M',
      W.Shift (W.after (.openCursor plan name hub)) π (.ofPlan plan) s s' M M' := by
  obtain ⟨hfree, hc, hhub⟩ := hp
  cases hpl : W.plans.find? plan with
  | none => exact .inl (after_openCursor_none hpl hub)
  | some p =>
    obtain ⟨s, r, s', hs, hsite, ho, m, -⟩ := h.moves_openCursor hfree hc hhub hpl (hsp p hpl)
    rw [after_openCursor hpl hc, ho]
    cases r with
    | error stop => exact .inr ⟨s, s', [], [], (moved_putPlan s').unread hs m hsite rfl⟩
    | ok c =>
      exact .inr ⟨s, s', [], c.leases, ((moved_putPlan s').withCursors _).opened hs hc m hsite rfl⟩

/-- A shift by which a site gets its cursor, unless it fails. -/
lemma shift_openOn (h : W.Sound F H) (hp : W.Permits (.openOn site name)) :
    W.after (.openOn site name) = W ∨ ∃ s s' M M',
      W.Shift (W.after (.openOn site name)) π site s s' M M' := by
  obtain ⟨hav, hhome, hc⟩ := hp
  cases hs : W.scan? site with
  | none => exact .inl (after_openOn_none hs)
  | some s =>
    have m : Scan.Moves π (s, []) _ := Cursor.moves_openOn (h.home hhome hs)
    rw [List.append_nil] at m
    rw [after_openOn hc hs]
    rcases ho : Cursor.openOn s with ⟨stop | c, s'⟩ <;> rw [ho] at m
    · exact .inr ⟨s, s', [], [], (moved_putScan hs s').unread hs m (fun _ _ => hav.site_ne)
        (cursors_putScan s')⟩
    · exact .inr ⟨s, s', [], c.leases,
        ((moved_putScan hs s').withCursors _).opened hs hc m (fun _ _ => hav.site_ne) rfl⟩

/-- A deed at a site leaves the workshop as it is, or shifts it. -/
lemma shift (h : W.Sound F H) (hp : W.Permits a) (hsp : W.Spares π a)
    (ha : W.site? a = some site)
    (hl : ∀ n s, a = .rewindCursor n → W.scan? site = some s →
      ∀ w, s.dispatcher.work = some w → w.reducer.Leaves w.filter π) :
    W.after a = W ∨ ∃ s s' M M', W.Shift (W.after a) π site s s' M M' := by
  cases a with
  | dispatch =>
    obtain rfl := Option.some.inj ha
    exact h.shift_errand .dispatch hp hsp
  | steal =>
    obtain rfl := Option.some.inj ha
    exact h.shift_errand .steal hp hsp
  | drain =>
    obtain rfl := Option.some.inj ha
    exact h.shift_errand .drain hp hsp
  | rewind =>
    obtain rfl := Option.some.inj ha
    exact h.shift_errand .rewind hp hsp
  | gather =>
    obtain rfl := Option.some.inj ha
    exact h.shift_errand .gather hp hsp
  | execute plan inbox hub =>
    obtain rfl := Option.some.inj ha
    rw [after_execute]
    cases hpl : W.plans.find? plan with
    | none => exact .inl rfl
    | some p => exact h.shift_errand .dispatch hp (hsp.dispatch hpl)
  | openCursor =>
    obtain rfl := Option.some.inj ha
    exact h.shift_openCursor hp hsp
  | openOn =>
    obtain rfl := Option.some.inj ha
    exact h.shift_openOn hp
  | next => exact h.shift_ofTurn .next ha fun c s hhome _ => Cursor.moves_next hhome
  | rewindCursor =>
    exact h.shift_ofTurn .rewind ha fun c s hhome hs => Cursor.moves_rewind hhome (hl _ s rfl hs)
  | close => exact h.shift_ofTurn .close ha fun c s _ _ => Cursor.moves_close
  | dropCursor name =>
    obtain ⟨c, hc, rfl⟩ := Option.map_eq_some_iff.1 ha
    obtain ⟨s, hs, hfit⟩ := h.fit name c hc
    rw [after_dropCursor hc hs]
    exact .inr ⟨s, _, _, [], h.shift_drop hc hs (moves_close hfit)⟩
  | _ => cases ha

/-- Without a view of the world, every deed spares it. -/
lemma shift_unit (h : W.Sound F H) (hp : W.Permits a) (ha : W.site? a = some site) :
    W.after a = W ∨ ∃ s s' M M', W.Shift (W.after a) (fun _ => ()) site s s' M M' :=
  h.shift hp (spares_unit W a) ha fun _ _ _ _ _ _ => leaves_unit ..

end Sound

end TableScan.Workshop
