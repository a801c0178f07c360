import TableScan.Proofs.Observers

/-!
# Tenants

A cursor is the tenant of its site.  Main statements: deeds of others leave a tenant's cursor,
dispatcher and inbox as they are (`Tenant.after`), and what they do to the engine is a sequence of
steps apart from it (`Tenant.steps`).
-/

namespace TableScan.Workshop

variable {ω σ : Type} {W V : Workshop ω} {F : List Lease} {H : List Place} {n name : String}
  {c : OpenCursor} {d : Dispatcher ω} {k : Inbox} {π : ω → σ} {a : Deed ω} {site : Site}
  {s s' : Scan ω} {M M' : List Lease}

/-! ## Cursors by name -/

lemma Permits.opens?_ne (hp : W.Permits a) (hc : W.cursors.find? n = some c) :
    a.opens? ≠ some n := by
  intro hn
  rcases Deed.opens?_cases hn with ⟨plan, hub, rfl⟩ | ⟨site, rfl⟩
  · exact absurd (hc.symm.trans hp.2.1) (Option.some_ne_none _)
  · exact absurd (hc.symm.trans hp.2.2) (Option.some_ne_none _)

lemma Errand.cursors {f : Scan ω → Scan ω} (he : Errand a site f) :
    (W.after a).cursors = W.cursors := by
  rw [he.after]
  cases W.scan? site with
  | none => rfl
  | some s => exact cursors_putScan _

/-- A deed that neither opens a cursor nor works on it leaves it alone, or leaves it unopened. -/
lemma find?_after (h : W.Sound F H) (hp : W.Permits a) (hme : a.cursor? ≠ some n)
    (hnew : a.opens? ≠ some n) : (W.after a).cursors.find? n = W.cursors.find? n := by
  have turn : ∀ {m f}, Turn a m f → n ≠ m →
      (W.after a).cursors.find? n = W.cursors.find? n := by
    intro m f ht hne
    cases hm : W.cursors.find? m with
    | none => rw [ht.after_none hm]
    | some b =>
      obtain ⟨s, hs, -⟩ := h.fit m b hm
      rw [ht.after hm hs]
      exact Register.find?_bind_ne hne
  cases ha : W.site? a with
  | none => rw [(byHand_after hp ha).cursors]
  | some site =>
    cases a with
    | dispatch => rw [Errand.dispatch.cursors]
    | steal => rw [Errand.steal.cursors]
    | drain => rw [Errand.drain.cursors]
    | rewind => rw [Errand.rewind.cursors]
    | gather => rw [Errand.gather.cursors]
    | execute plan inbox hub =>
      rw [after_execute]
      cases W.plans.find? plan with
      | none => rfl
      | some p => exact congrArg (·.find? n) Errand.dispatch.cursors
    | openCursor plan name hub =>
      have hne : n ≠ name := fun hn => hnew (hn ▸ rfl)
      cases hpl : W.plans.find? plan with
      | none => rw [after_openCursor_none hpl]
      | some p =>
        rw [after_openCursor hpl hp.2.1]
        rcases p.openCursor hub W.engine with ⟨stop | b, p', e⟩
        · rfl
        · exact Register.find?_bind_ne hne
    | openOn site name =>
      have hne : n ≠ name := fun hn => hnew (hn ▸ rfl)
      cases hs : W.scan? site with
      | none => rw [after_openOn_none hs]
      | some s =>
        rw [after_openOn hp.2.2 hs]
        rcases Cursor.openOn s with ⟨stop | b, s'⟩
        · rw [cursors_putScan]
        · exact Register.find?_bind_ne hne
    | next name => exact turn .next fun hn => hme (hn ▸ rfl)
    | rewindCursor name => exact turn .rewind fun hn => hme (hn ▸ rfl)
    | close name => exact turn .close fun hn => hme (hn ▸ rfl)
    | dropCursor name =>
      have hne : n ≠ name := fun hn => hme (hn ▸ rfl)
      obtain ⟨b, hb, -⟩ := Option.map_eq_some_iff.1 ha
      obtain ⟨s, hs, -⟩ := h.fit name b hb
      rw [after_dropCursor hb hs, cursors_putScan]
      exact Register.find?_erase_ne hne
    | _ => cases ha

/-- A cursor that was just opened was opened on the scan of its site, as that was there or after a
plan was dispatched. -/
lemma opened_cases (hp : W.Permits a) (hnew : a.opens? = some n)
    (hc : (W.after a).cursors.find? n = some c) :
    ∃ s s', Cursor.openOn s = (.ok c.cursor, s') ∧ (W.after a).scan? c.site = some s' ∧
      ((a = .openOn c.site n ∧ W.scan? c.site = some s) ∨
        ∃ plan p hub, a = .openCursor plan n hub ∧ c.site = .ofPlan plan ∧
          W.plans.find? plan = some p ∧
          (p.scan W.engine).dispatch p.source hub p.filter = (.ok (), s)) := by
  rcases Deed.opens?_cases hnew with ⟨plan, hub, rfl⟩ | ⟨site, rfl⟩
  · obtain ⟨hfree, hn, hhub⟩ := hp
    cases hpl : W.plans.find? plan with
    | none =>
      rw [after_openCursor_none hpl, hn] at hc
      cases hc
    | some p =>
      have hW := after_openCursor hpl hn hub
      rw [Plan.openCursor_eq] at hW
      rcases hdis : (p.scan W.engine).dispatch p.source hub p.filter with ⟨stop | u, s⟩ <;>
        rw [hdis] at hW <;> dsimp only at hW
      · rw [hW] at hc
        exact absurd (hn.symm.trans hc) (Option.some_ne_none _).symm
      · rcases ho : Cursor.openOn s with ⟨stop | b, s'⟩ <;> rw [ho] at hW <;> dsimp only at hW
        · rw [hW] at hc
          exact absurd (hn.symm.trans hc) (Option.some_ne_none _).symm
        · rw [hW] at hc
          obtain rfl := Option.some.inj (hc.symm.trans Register.find?_bind_self)
          refine ⟨s, s', ho, ?_, .inr ⟨plan, p, hub, rfl, rfl, hpl, hdis⟩⟩
          rw [hW]
          exact ((moved_putPlan s').withCursors _).scan?
  · obtain ⟨-, -, hn⟩ := hp
    cases hs : W.scan? site with
    | none =>
      rw [after_openOn_none hs, hn] at hc
      cases hc
    | some s =>
      have hW := after_openOn hn hs
      rcases ho : Cursor.openOn s with ⟨stop | b, s'⟩ <;> rw [ho] at hW <;> dsimp only at hW
      · rw [hW, cursors_putScan, hn] at hc
        cases hc
      · rw [hW] at hc
        obtain rfl := Option.some.inj (hc.symm.trans Register.find?_bind_self)
        refine ⟨s, s', ho, ?_, .inl ⟨rfl, hs⟩⟩
        rw [hW]
        exact ((moved_putScan hs s').withCursors _).scan?

/-- A deed that does not open a cursor leaves it unopened. -/
lemma find?_after_none (h : W.Sound F H) (hp : W.Permits a) (hn : W.cursors.find? n = none)
    (hnew : a.opens? ≠ some n) : (W.after a).cursors.find? n = none := by
  by_cases hme : a.cursor? = some n
  · have hW : W.after a = W := by
      rcases Deed.cursor?_cases hme with rfl | rfl | rfl | rfl
      · exact Turn.next.after_none hn
      · exact Turn.rewind.after_none hn
      · exact Turn.close.after_none hn
      · exact after_dropCursor_none hn
    rw [hW, hn]
  · rw [find?_after h hp hme hnew, hn]

/-- A cursor stays at its site. -/
lemma site_after (h : W.Sound F H) (hp : W.Permits a) {c' : OpenCursor}
    (hc : W.cursors.find? n = some c) (hc' : (W.after a).cursors.find? n = some c') :
    c'.site = c.site := by
  obtain ⟨s, hs, -⟩ := h.fit n c hc
  have turn : ∀ {f}, Turn a n f → c'.site = c.site := fun ht =>
    Option.some.inj (hc'.symm.trans (ht.find?_after hc hs)) ▸ rfl
  by_cases hme : a.cursor? = some n
  · rcases Deed.cursor?_cases hme with rfl | rfl | rfl | rfl
    · exact turn .next
    · exact turn .rewind
    · exact turn .close
    · rw [after_dropCursor hc hs, cursors_putScan] at hc'
      exact absurd (hc'.symm.trans Register.find?_erase_self) (Option.some_ne_none _)
  · rw [find?_after h hp hme (hp.opens?_ne hc), hc] at hc'
    exact Option.some.inj hc' ▸ rfl

/-! ## Tenants of sites -/

/-- The tenant of a site: its cursor by name, its dispatcher and its inbox.  The work of all others
leaves alone what `π` shows. -/
structure Tenant (W : Workshop ω) (n : String) (c : OpenCursor) (d : Dispatcher ω) (k : Inbox)
    (π : ω → σ) : Prop where
  cursor : W.cursors.find? n = some c
  dispatcher : W.dispatcher? c.site.dispatcher = some d
  inbox : W.inbox? c.site.inbox = some k
  others : ∀ o d' w, W.dispatcher? o = some d' → d'.id ≠ d.id → d'.work = some w →
    w.reducer.Leaves w.filter π

namespace Tenant

lemma scan (ht : W.Tenant n c d k π) : W.scan? c.site = some ⟨d, k, W.engine⟩ :=
  scan?_eq_some_iff.2 ⟨ht.dispatcher, ht.inbox, rfl⟩

/-- The places of a tenant: those of its cursor's leases, and those in flight to its inbox. -/
def Places (c : OpenCursor) (k : Inbox) (p : Place) : Prop :=
  p ∈ c.cursor.leases.map Lease.place ∨ p ∈ k.flights.map Lease.place

lemma observer (h : W.Sound F H) (ht : W.Tenant n c d k π) :
    W.Observer F (some n) d.id k.id (Places c k) π := by
  refine ⟨fun o d' hd hid => ⟨n, c, rfl, ht.cursor, ?_⟩, fun o k' hk hid => ⟨n, c, rfl, ht.cursor, ?_⟩,
    fun p hp => ?_, ht.others⟩
  · exact h.floor.dispatchers _ _ d d' ht.dispatcher hd hid.symm
  · exact h.floor.inboxes _ _ k k' ht.inbox hk hid.symm
  · rcases hp with hp | hp
    · exact .inr ⟨n, c, rfl, ht.cursor, hp⟩
    · obtain ⟨l, hl, hlp⟩ := List.mem_map.1 hp
      rw [← (h.floor.fed _ k ht.inbox).flights, List.mem_filter, beq_iff_eq] at hl
      exact .inl ⟨l, hl.1, hl.2, hlp⟩

/-- What others do to the engine is a sequence of steps apart from the tenant. -/
lemma steps (h : W.Sound F H) (ht : W.Tenant n c d k π) (hp : W.Permits a) (hsp : W.Spares π a)
    (hme : a.cursor? ≠ some n) :
    Engine.Steps d.id (Places c k) π W.engine (W.after a).engine :=
  (ht.observer h).steps h hp hsp fun _ hm hn => hme (hm.trans hn.symm)

/-! ## Deeds of others -/

lemma congr (ht : W.Tenant n c d k π) (hcur : V.cursors.find? n = W.cursors.find? n)
    (hD : V.dispatcher? = W.dispatcher?)
    (hK : V.inbox? c.site.inbox = W.inbox? c.site.inbox) : V.Tenant n c d k π :=
  ⟨hcur.trans ht.cursor, hD ▸ ht.dispatcher, hK.trans ht.inbox, hD ▸ ht.others⟩

/-- The dispatcher of another owner changes. -/
lemma update (ht : W.Tenant n c d k π) {o : Owner} {d' : Dispatcher ω}
    (hcur : V.cursors.find? n = W.cursors.find? n) (hne : c.site.dispatcher ≠ o)
    (hD : V.dispatcher? = Function.update W.dispatcher? o (some d'))
    (hK : V.inbox? c.site.inbox = W.inbox? c.site.inbox)
    (hw : d'.id ≠ d.id → ∀ w, d'.work = some w → w.reducer.Leaves w.filter π) :
    V.Tenant n c d k π := by
  refine ⟨hcur.trans ht.cursor, ?_, hK.trans ht.inbox, fun o' d₁ w hd hid hd₁ => ?_⟩
  · rw [hD, Function.update_of_ne hne, ht.dispatcher]
  · rw [hD, Function.update_apply] at hd
    split at hd
    · obtain rfl := Option.some.inj hd
      exact hw hid w hd₁
    · exact ht.others o' d₁ w hd hid hd₁

/-- The scan of another site moves. -/
lemma shift (ht : W.Tenant n c d k π) (hsh : W.Shift V π site s s' M M')
    (hcur : V.cursors.find? n = W.cursors.find? n)
    (hsite : c.site.dispatcher ≠ site.dispatcher ∧ c.site.inbox ≠ site.inbox) :
    V.Tenant n c d k π := by
  refine ht.update hcur hsite.1 hsh.dispatchers ?_ fun hid => ?_
  · rw [hsh.inboxes, Function.update_of_ne hsite.2]
  · have hid' : s.dispatcher.id ≠ d.id := (Scan.Moves.sameSite hsh.moves).dispatcher ▸ hid
    exact Scan.Moves.leaves hsh.moves fun w hw =>
      ht.others _ _ w (scan?_eq_some_iff.1 hsh.scan).1 hid' hw

/-- Something is done by hand. -/
lemma byHand (h : W.Sound F H) (ht : W.Tenant n c d k π) (hV : W.ByHand a V) :
    V.Tenant n c d k π := by
  have hcur : V.cursors.find? n = W.cursors.find? n := by rw [hV.cursors]
  cases hV with
  | addInbox free | nextLease free =>
    exact ht.congr hcur (dispatcher?_congr rfl rfl)
      ((congrFun (inbox?_bind (by rfl) (by rfl)) _).trans
        (Function.update_of_ne (free n c ht.cursor) ..))
  | addDispatcher free =>
    exact ht.update hcur (free n c ht.cursor) (dispatcher?_bind rfl rfl) rfl
      fun _ w hw => nomatch hw
  | clear free found =>
    exact ht.update hcur (free n c ht.cursor) (dispatcher?_putDispatcher found)
      (by rw [inbox?_putDispatcher]) fun _ w hw => nomatch hw
  | @addPlan name _ _ free =>
    obtain ⟨s, -, hfit⟩ := h.fit n c ht.cursor
    refine ht.update hcur (free n c ht.cursor) dispatcher?_putPlan ?_ fun _ w hw => nomatch hw
    rw [inbox?_putPlan, Function.update_of_ne fun hk => free n c ht.cursor (hfit.plan name hk)]
    rfl
  | _ => exact ht.congr hcur (dispatcher?_congr rfl rfl) (congrFun (inbox?_congr rfl rfl) _)

/-- A deed of others leaves the tenant's cursor, dispatcher and inbox as they are. -/
lemma after (h : W.Sound F H) (ht : W.Tenant n c d k π) (hp : W.Permits a) (hsp : W.Spares π a)
    (hme : a.cursor? ≠ some n) : (W.after a).Tenant n c d k π := by
  cases ha : W.site? a with
  | none => exact ht.byHand h (byHand_after hp ha)
  | some site =>
    have hsite := h.site_ne_of_others hp ha ht.cursor hme
    -- the site has another dispatcher
    have hl : ∀ s, W.scan? site = some s → ∀ w, s.dispatcher.work = some w →
        w.reducer.Leaves w.filter π := by
      intro s hs w hw
      have hd := (scan?_eq_some_iff.1 hs).1
      refine ht.others _ _ w hd (fun hid => ?_) hw
      exact hsite.1 (h.floor.dispatchers _ _ d _ ht.dispatcher hd hid.symm)
    rcases h.shift hp hsp ha fun _ s _ => hl s with hW | ⟨s, s', M, M', hsh⟩
    · rw [hW]
      exact ht
    · exact ht.shift hsh (find?_after h hp hme (hp.opens?_ne ht.cursor)) hsite

end Tenant

lemma tenant_unit (hc : W.cursors.find? n = some c) (hs : W.scan? c.site = some s) :
    W.Tenant n c s.dispatcher s.inbox fun _ => () :=
  ⟨hc, (scan?_eq_some_iff.1 hs).1, (scan?_eq_some_iff.1 hs).2.1,
    fun _ _ _ _ _ _ => leaves_unit ..⟩

/-- A cursor that is there after a deed was opened by it, has made a turn, or was left alone. -/
lemma cursor_cases (h : W.Sound F H) (hp : W.Permits a)
    (hc : (W.after a).cursors.find? n = some c) :
    a.opens? = some n ∨
      (∃ b s f, Turn a n f ∧ W.cursors.find? n = some b ∧ W.scan? b.site = some s ∧
        { b with cursor := (f b.cursor s).1 } = c ∧
        (W.after a).scan? c.site = some (f b.cursor s).2) ∨
      (a.cursor? ≠ some n ∧ W.cursors.find? n = some c ∧ ∃ s, W.scan? c.site = some s ∧
        (W.after a).scan? c.site = some { s with engine := (W.after a).engine }) := by
  by_cases hnew : a.opens? = some n
  · exact .inl hnew
  cases hb : W.cursors.find? n with
  | none =>
    rw [find?_after_none h hp hb hnew] at hc
    cases hc
  | some b =>
    obtain ⟨s, hs, -⟩ := h.fit n b hb
    refine .inr ?_
    by_cases hme : a.cursor? = some n
    · have turned : ∀ {f}, Turn a n f → ∃ b' s f, Turn a n f ∧ some b = some b' ∧
          W.scan? b'.site = some s ∧ { b' with cursor := (f b'.cursor s).1 } = c ∧
          (W.after a).scan? c.site = some (f b'.cursor s).2 := by
        intro f ht
        obtain rfl := Option.some.inj ((ht.find?_after hb hs).symm.trans hc)
        exact ⟨b, s, f, ht, rfl, hs, rfl, (ht.moved hb hs).scan?⟩
      rcases Deed.cursor?_cases hme with rfl | rfl | rfl | rfl
      · exact .inl (turned .next)
      · exact .inl (turned .rewind)
      · exact .inl (turned .close)
      · rw [after_dropCursor hb hs, cursors_putScan, Register.find?_erase_self] at hc
        cases hc
    · rw [find?_after h hp hme hnew, hb] at hc
      obtain rfl := Option.some.inj hc
      have ht := (tenant_unit hb hs).after h hp (spares_unit W a) hme
      exact .inr ⟨hme, rfl, s, hs, ht.scan⟩

end TableScan.Workshop
