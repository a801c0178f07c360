import TableScan.Proofs.Replay
import TableScan.Proofs.Tallies

/-!
# Scans given up

A scan may be given up at any point: its cursor is closed or let go of, or could not be opened.
Main statement: every slot that it had is free again, and every slot that others have is still
theirs (`Workshop.scan_returns_everything`).
-/

namespace TableScan

variable {ω σ : Type}

namespace Ring

variable {r : Ring ω}

lemma Step.capacity {r' : Ring ω} (h : r.Step r') : r'.capacity = r.capacity := by
  cases h with
  | claim free =>
    unfold Ring.claim
    rw [free]
    exact capacity_setStage
  | write => exact capacity_modifyTask
  | publish | lease => exact capacity_setStage
  | drop | reduce | giveBack => exact capacity_setStage.trans capacity_modifyTask

lemma Run.capacity {r' : Ring ω} (h : r.Run r') : r'.capacity = r.capacity := by
  induction h with
  | refl => rfl
  | tail _ h ih => exact h.capacity.trans ih

end Ring

namespace Engine

variable {e e' e'' : Engine ω} {C L P : List Place} {i k : Nat} {p : Place} {r : Ring ω}

/-! ## Whose places are whose -/

lemma nodup_of_slotsOn {l : List Place} (h : ∀ i, (slotsOn i l).Nodup) : l.Nodup := by
  induction l with
  | nil => exact .nil
  | cons p l ih =>
    refine List.nodup_cons.2 ⟨fun hp => ?_, ih fun i => ?_⟩
    · have := h p.1
      rw [Books.slotsOn_eq_of_perm_cons p.1 rfl] at this
      exact (List.nodup_cons.1 this).1 (mem_slotsOn.2 hp)
    · by_cases hi : p.1 = i
      · have := h i
        rw [Books.slotsOn_eq_of_perm_cons i hi] at this
        exact (List.nodup_cons.1 this).2
      · have := h i
        rwa [slotsOn_cons_ne hi] at this

/-- No place occurs twice in the books. -/
lemma Books.nodup (h : e.Books C L P) : (C ++ (L ++ P)).Nodup := by
  refine nodup_of_slotsOn fun i => ?_
  cases hr : e.rings[i]? with
  | none =>
    rw [slotsOn_eq_nil fun p hp hpi => ?_]
    · exact .nil
    · obtain ⟨r, hr'⟩ := exists_ring (h.there p hp)
      rw [hpi, hr] at hr'
      cases hr'
  | some r =>
    rw [slotsOn_append, slotsOn_append]
    exact (List.nodup_append'.1 ((h.rings i r hr).perm_range.nodup_iff.2 List.nodup_range)).2.1

/-- Every place in the books is of a slot that is not free. -/
lemma Books.not_free (h : e.Books C L P) (hp : p ∈ C ++ (L ++ P)) :
    ∃ r, e.rings[p.1]? = some r ∧ r.stage? p.2 ≠ some .free := by
  obtain ⟨i, k⟩ := p
  rcases List.mem_append.1 hp with hp | hp
  · obtain ⟨r, hr, hs, -⟩ := h.claimed hp
    exact ⟨r, hr, by simp [hs]⟩
  · rcases List.mem_append.1 hp with hp | hp
    · obtain ⟨r, hr, hs, -⟩ := h.leased hp
      exact ⟨r, hr, by simp [hs]⟩
    · obtain ⟨r, hr, hs⟩ := h.flown hp
      exact ⟨r, hr, by rcases hs with hs | hs <;> simp [hs]⟩

/-- Every slot that is not free has its place in the books. -/
lemma Books.mem_of_stage (h : e.Books C L P) (hr : e.rings[i]? = some r) (hk : k < r.capacity)
    (hs : r.stage k ≠ .free) : (i, k) ∈ C ++ (L ++ P) := by
  have ha := h.rings i r hr
  simp only [List.mem_append, ← mem_slotsOn, ha.claimed.2, ha.leased.2, ha.flown.2,
    Ring.stage?_eq_some_iff]
  cases hs' : r.stage k <;> simp_all

end Engine

namespace Scan

variable {s s' : Scan ω} {M M' : List Lease} {C L H : List Place} {F F' : List Lease}
  {π : ω → σ} {p : Place} {i k : Nat} {r : Ring ω}

/-- The places that a scan has: those of the leases at hand, and those in flight to its inbox. -/
def places (s : Scan ω) (M : List Lease) : List Place := (M ++ s.inbox.flights).map Lease.place

/-- The places that others have: those claimed and leased, in flight to other inboxes, and the
strays. -/
def Others (s : Scan ω) (C L : List Place) (F : List Lease) (H : List Place) : List Place :=
  C ++ (L ++ ((F.filter (·.inbox != s.inbox.id)).map Lease.place ++ H))

/-- The places in the books are those of the scan and those of others. -/
lemma Sound.perm_others (hs : s.Sound M C L F H) :
    (C ++ ((M.map Lease.place ++ L) ++ (F.map Lease.place ++ H))).Perm
      (s.places M ++ s.Others C L F H) := by
  have hF : (F.map Lease.place).Perm (s.inbox.flights.map Lease.place ++
      (F.filter (·.inbox != s.inbox.id)).map Lease.place) := by
    rw [← hs.fed.flights, ← List.map_append]
    exact ((List.filter_append_perm (·.inbox == s.inbox.id) F).map _).symm
  refine (((hF.append_right H).append_left _).append_left C).trans ?_
  -- only the order of five lists differs
  rw [List.perm_iff_count]
  intro q
  simp only [places, Others, List.map_append, List.count_append]
  omega

/-- A place of the scan is not one of the others'. -/
lemma Sound.ne_others (hs : s.Sound M C L F H) {q : Place} (hq : q ∈ s.places M)
    (hp : p ∈ s.Others C L F H) : p ≠ q := by
  rintro rfl
  exact (List.nodup_append'.1 (hs.perm_others.nodup_iff.1 hs.engine.books.nodup)).2.2 hq hp

lemma Sound.not_free (hs : s.Sound M C L F H) (hp : p ∈ s.Others C L F H) :
    ∃ r, s.engine.rings[p.1]? = some r ∧ r.stage? p.2 ≠ some .free :=
  hs.engine.books.not_free (hs.perm_others.mem_iff.2 (List.mem_append_right _ hp))

/-- A move keeps the places of others. -/
lemma Move.kept (m : Move π (s, M) (s', M')) (hs : s.Sound M C L F H)
    (hp : p ∈ s.Others C L F H) : s.engine.Kept s'.engine p := by
  obtain ⟨r, hr, hfree⟩ := hs.not_free hp
  cases m with
  | publish home done =>
    obtain ⟨ring, work, frame, slot, e, -, -, -, hclaim, rfl⟩ := publishOne?_cases done
    obtain ⟨r₀, rest, hr₀, hf, rfl⟩ := Engine.claim?_cases hclaim
    -- the slot was free, which that of the others is not
    have hne : p ≠ (ring, slot) := by
      rintro rfl
      obtain rfl := Option.some.inj (hr.symm.trans hr₀)
      exact hfree (((hs.engine.books.rings ring r hr).free.2 slot).1 (hf ▸ List.mem_cons_self ..))
    have hclaimed : s.engine.Kept (s.engine.modifyRing ring Ring.claim) p :=
      Engine.kept_modifyRing hr hne fun t ht => by
        obtain rfl := Option.some.inj (hr₀.symm.trans ht)
        exact Ring.agreeOff_claim hf
    obtain ⟨r₁, hr₁⟩ := hclaimed.there
    have hwritten := hclaimed.trans (Engine.kept_modifyRing hr₁ hne
      (f := (·.modifyTask slot fun _ => .ask work (s.engine.epoch s.dispatcher.id) frame
        (s.dispatcher.directory.rowCount frame)))
      fun t _ => Ring.agreeOff_modifyTask t slot _)
    obtain ⟨r₂, hr₂⟩ := hwritten.there
    exact hwritten.trans (Engine.kept_modifyRing hr₂ hne
      fun t _ => Ring.agreeOff_setStage t slot .published)
  | reduce =>
    rcases s.reduceOne_snd with hred | ⟨i, -, hred⟩ <;> rw [hred]
    · exact Engine.kept_of_rings hr rfl
    · rcases hred' : s.engine.reduceOldest i with ⟨b, e'⟩
      rcases hs.engine.books.reduceOldest_cases hred' with
        ⟨-, rfl, -⟩ | ⟨-, r₀, k, rest, t, x, w, hr₀, hpend, hrun, he, -⟩
      · exact Engine.kept_of_rings hr rfl
      · have hk : r₀.stage? k = some .published :=
          ((hs.engine.books.rings i r₀ hr₀).pending.2 k).1 (hpend ▸ List.mem_cons_self ..)
        exact (Engine.kept_reduceTo hr hr₀ hk hrun).congr he
  | lease done =>
    obtain ⟨ring, slot, rest, r₀, hring, hflight, -, -, rfl, rfl⟩ := next?_cases done
    have hmem : (ring, slot) ∈ s.places M := by
      refine List.mem_map.2 ⟨⟨ring, slot, s.inbox.id⟩, List.mem_append_right _ ?_, rfl⟩
      simp [Inbox.flights, hflight, Inbox.home, hring]
    have hk : s.engine.Kept (s.engine.modifyRing ring (·.lease slot)) p :=
      Engine.kept_modifyRing hr (hs.ne_others hmem hp) fun t _ => Ring.agreeOff_setStage t slot .leased
    exact hk.congr rfl
  | giveBack =>
    rename_i l
    have hmem : (l.ring, l.slot) ∈ s.places (l :: M') :=
      List.mem_map.2 ⟨l, List.mem_append_left _ (List.mem_cons_self ..), rfl⟩
    have hk : s.engine.Kept (s.engine.putBack l.ring l.slot) p :=
      Engine.kept_modifyRing hr (hs.ne_others hmem hp) fun t _ => Ring.agreeOff_putBack t l.slot
    exact hk.congr rfl
  | epoch | begin | restart | adjust => exact Engine.kept_of_rings hr rfl
  | alike alike => exact Engine.kept_of_rings hr alike.rings

/-- Moves keep the places of others, and these stay theirs. -/
lemma Moves.kept {a b : Scan ω × List Lease} (m : Moves π a b) (hs : a.1.Sound a.2 C L F H)
    (hp : p ∈ a.1.Others C L F H) : a.1.engine.Kept b.1.engine p := by
  suffices hind : ∃ F', b.1.Sound b.2 C L F' H ∧ p ∈ b.1.Others C L F' H ∧
      a.1.engine.Kept b.1.engine p by
    obtain ⟨-, -, -, hk⟩ := hind
    exact hk
  induction m with
  | refl =>
    obtain ⟨r, hr, -⟩ := hs.not_free hp
    exact ⟨F, hs, hp, Engine.kept_of_rings hr rfl⟩
  | tail m' m ih =>
    obtain ⟨F₁, hs₁, hp₁, hk⟩ := ih
    obtain ⟨F₂, hs₂, hF⟩ := Move.sound m hs₁
    refine ⟨F₂, hs₂, ?_, hk.trans (Move.kept m hs₁ hp₁)⟩
    rw [Others, (Move.sameSite m).inbox, hF]
    exact hp₁

/-- When a scan has nothing left, its slots are free, and no others. -/
lemma Moves.free_perm (m : Moves (fun _ : ω => ()) (s, M) (s', [])) (hs : s.Sound M C L F H)
    (hf : s'.inbox.inFlight = []) (hr : s.engine.rings[i]? = some r) :
    ∃ r', s'.engine.rings[i]? = some r' ∧ r'.free.Perm (r.free ++ slotsOn i (s.places M)) := by
  obtain ⟨F', hs', hF⟩ := Moves.sound m hs
  have hapart : s.Apart L F (s.dispatcher.id + 1) (fun _ => False) fun _ => () :=
    ⟨Nat.ne_of_lt (Nat.lt_succ_self _), fun _ _ => Workshop.leaves_unit _ _, fun _ => False.elim⟩
  have hsteps := Moves.steps m hs hapart
  obtain ⟨r', hr', hrun⟩ := hsteps.run hr
  refine ⟨r', hr', ?_⟩
  have hothers : s'.Others C L F' H = s.Others C L F H := by
    rw [Others, (Moves.sameSite m).inbox, hF, Others]
  have hnone : s'.places [] = [] := by simp [places, Inbox.flights, hf]
  have ha := (hs.engine.books.rings i r hr).perm_range
  have ha' := (hs'.engine.books.rings i r' hr').perm_range
  rw [← slotsOn_append, ← slotsOn_append] at ha ha'
  have hall := ((slotsOn_perm hs.perm_others).append_left _).symm.trans ha
  have hall' := ((slotsOn_perm hs'.perm_others).append_left _).symm.trans ha'
  rw [hnone, List.nil_append, hothers, hrun.capacity] at hall'
  rw [slotsOn_append, ← List.append_assoc] at hall
  exact (List.perm_append_right_iff _).1 (hall'.trans hall.symm)

end Scan
/-- A dispatcher without an execution. -/
def Dispatcher.Cleared (d : Dispatcher ω) : Prop := d.isActive = false ∧ d.frameCount = 0

namespace Cursor

variable {c : Cursor} {s s' : Scan ω} {M : List Lease} {C L H : List Place} {F : List Lease}

lemma close_of_closed (h : c.phase = .closed) (s : Scan ω) : c.close s = (.ok (), c, s) := by
  unfold close
  rw [h]

/-- A cursor that closes clears its scan. -/
lemma cleared_close (hok : (c.close s).1 = .ok ()) (hc : c.phase ≠ .closed) :
    (c.close s).2.2.dispatcher.Cleared := by
  unfold close at hok ⊢
  split at hok
  · contradiction
  all_goals
    split at hok
    · cases hok
    · exact ⟨rfl, rfl⟩

/-- A cursor that cannot be opened clears its scan. -/
lemma cleared_openOn (hs : s.Sound M C L F H) (hm : s.Moored) {stop : Stop}
    (ho : openOn s = (.error stop, s')) : s'.dispatcher.Cleared := by
  have m : Scan.Moves (fun _ : ω => ()) (s, M) _ :=
    moves_advance (c := start s.dispatcher) hm.home rfl
  have hp : ((start s.dispatcher).advance s).2.1.phase ≠ .closed :=
    phase_advance Phase.noConfusion
  unfold openOn at ho
  rcases ha : (start s.dispatcher).advance s with ⟨_ | b, c, s₁⟩ <;> rw [ha] at hp m ho
  · obtain ⟨F', hs', -⟩ := Scan.Moves.sound m hs
    obtain ⟨s₂, hcl, -⟩ := close_ok hs' ((Scan.Moves.sameSite m).moored hm) hp
    have hclear := cleared_close (congrArg Prod.fst hcl) hp
    simp only [hcl] at ho hclear
    obtain ⟨-, rfl⟩ := Prod.mk.inj ho
    exact hclear
  · cases (Prod.mk.inj ho).1

end Cursor

/-- A plan whose cursor cannot be opened has no execution left, if one was begun. -/
lemma Plan.cleared_openCursor {p q : Plan ω} {e e' : Engine ω} {M : List Lease}
    {C L H : List Place} {F : List Lease} {hub : Nat} {stop : Stop}
    (hs : (p.scan e).Sound M C L F H) (hf : p.inbox.inFlight = []) (hh : (p.scan e).HasHub hub)
    (ho : p.openCursor hub e = (.error stop, q, e'))
    (hd : ((p.scan e).dispatch p.source hub p.filter).1 = .ok ()) : q.dispatcher.Cleared := by
  have m : Scan.Moves (fun _ : ω => ()) (p.scan e, M)
      (((p.scan e).dispatch p.source hub p.filter).2, M) :=
    Scan.moves_dispatch hh (fun _ => rfl) (Workshop.leaves_unit p.dispatcher.reducer p.filter)
  rw [Plan.openCursor_eq] at ho
  rcases Scan.dispatch_cases (s := p.scan e) hf p.source hub p.filter with
    ⟨s, hdisp, hm⟩ | ⟨stop', s, hdisp, -⟩ <;> rw [hdisp] at m hd ho
  · obtain ⟨F', hs', -⟩ := Scan.Moves.sound m hs
    rcases hop : Cursor.openOn s with ⟨r, s'⟩
    simp only [hop, Prod.mk.injEq] at ho
    obtain ⟨rfl, rfl, rfl⟩ := ho
    exact Cursor.cleared_openOn hs' hm hop
  · cases hd

namespace Workshop

variable {W V : Workshop ω} {F F' : List Lease} {H H' : List Place} {s s' : Scan ω}
  {name plan : String} {a : Deed ω} {M : List Lease} {c : OpenCursor} {k : Inbox}

/-! ## Closed cursors -/

/-- The plan of that name has no execution. -/
def Idle (W : Workshop ω) (plan : String) : Prop :=
  ∃ d, W.dispatcher? (.plan plan) = some d ∧ d.Cleared

/-- The plan of a closed cursor has no execution. -/
def Retired (W : Workshop ω) : Prop :=
  ∀ n c plan, W.cursors.find? n = some c → c.site = .ofPlan plan → c.cursor.phase = .closed →
    W.Idle plan

lemma idle_putScan {plan : String} (hs : W.scan? (.ofPlan plan) = some s)
    (h : s'.dispatcher.Cleared) {cursors : Register OpenCursor} :
    Idle { W.putScan (.ofPlan plan) s' with cursors } plan := by
  refine ⟨s'.dispatcher, ?_, h⟩
  have hD := dispatcher?_putScan hs s'
  exact (congrFun ((dispatcher?_congr rfl rfl).trans hD) _).trans (Function.update_self ..)

/-- A cursor of a plan can be closed: its scan is cleared, and nothing is in flight to it. -/
lemma Sound.close (h : W.Sound F H) (hc : W.cursors.find? name = some c)
    (hsite : c.site = .ofPlan plan) (hret : W.Retired) :
    ∃ s c', W.scan? c.site = some s ∧ Fit s c ∧
      c.cursor.close s = (.ok (), c', (c.cursor.close s).2.2) ∧ c'.leases = [] ∧
      (c.cursor.close s).2.2.inbox.inFlight = [] ∧
      (c.cursor.close s).2.2.dispatcher.Cleared := by
  obtain ⟨s, hs, hfit⟩ := h.fit name c hc
  have hplan : c.site.inbox = .plan plan := congrArg Site.inbox hsite
  by_cases hcl : c.cursor.phase = .closed
  · obtain ⟨d, hd, hclear⟩ := hret name c plan hc hsite hcl
    have hd' : W.dispatcher? (.plan plan) = some s.dispatcher := by
      have := (scan?_eq_some_iff.1 hs).1
      rwa [hsite] at this
    obtain rfl := Option.some.inj (hd.symm.trans hd')
    have hclose := Cursor.close_of_closed hcl s
    exact ⟨s, c.cursor, hs, hfit, by rw [hclose], hfit.closed hcl,
      by rw [hclose]; exact hfit.settled plan hplan hcl, by rw [hclose]; exact hclear⟩
  · have hs' : s.Sound (c.cursor.leases ++ []) W.claimed (leasedBut W name) F H := by
      rw [List.append_nil]
      exact h.scan hs (h.leased_perm hc)
    obtain ⟨s', hclose, hf⟩ := Cursor.close_ok hs' (hfit.moored plan hplan hcl) hcl
    have hclear := Cursor.cleared_close (congrArg Prod.fst hclose) hcl
    exact ⟨s, _, hs, hfit, by rw [hclose], rfl, by rw [hclose]; exact hf, hclear⟩

/-- A closed cursor stays as it is, and so does its scan. -/
lemma turn_of_closed {f : Cursor → Scan ω → Cursor × Scan ω} (h : Turn a name f) {c : Cursor}
    (hc : c.phase = .closed) (s : Scan ω) : f c s = (c, s) := by
  cases h with
  | next => exact congrArg Prod.snd (Cursor.next_of_ended (.inr hc) s)
  | rewind => exact congrArg Prod.snd (Cursor.rewind_of_still (by simp [hc]) s)
  | close => exact congrArg Prod.snd (Cursor.close_of_closed hc s)

lemma agrees_of_closed {f : Cursor → Scan ω → Cursor × Scan ω} (h : Turn a name f)
    (hc : W.cursors.find? name = some c) (hs : W.scan? c.site = some s)
    (hcl : c.cursor.phase = .closed) : W.Agrees (W.after a) := by
  rw [h.after hc hs, turn_of_closed h hcl]
  have hput := agrees_putScan hs
  exact { hput with cursors := (Register.find?_bind_again hc) }

lemma Agrees.dispatcher? (h : W.Agrees V) : V.dispatcher? = W.dispatcher? := by
  funext o
  cases o with
  | own name => exact congrFun h.dispatchers name
  | plan name => exact congrArg (Option.map _) (congrFun h.plans name)

lemma Idle.congr (h : W.Idle plan)
    (hD : V.dispatcher? (.plan plan) = W.dispatcher? (.plan plan)) : V.Idle plan := by
  obtain ⟨d, hd, hclear⟩ := h
  exact ⟨d, hD.trans hd, hclear⟩

lemma Retired.after (h : W.Sound F H) (hret : W.Retired) (hp : W.Permits a) :
    (W.after a).Retired := by
  intro n c' plan hc' hsite hcl
  rcases cursor_cases h hp hc' with
    hnew | ⟨c, s, f, ht, hc, hs, rfl, -⟩ | ⟨hme, hc, s, hs, hs'⟩
  · -- a cursor that was opened is not closed
    obtain ⟨t, t', ho, -⟩ := opened_cases hp hnew hc'
    exact absurd hcl (Cursor.phase_openOn ho)
  · -- a cursor that only moved was closed before, and nothing became of its scan
    have still : (c.cursor.phase ≠ .closed → (f c.cursor s).1.phase ≠ .closed) →
        (W.after a).Idle plan := fun hback =>
      have hclosed := not_imp_not.1 hback hcl
      (hret n c plan hc hsite hclosed).congr
        (congrFun (agrees_of_closed ht hc hs hclosed).dispatcher? _)
    cases ht with
    | next => exact still Cursor.phase_next
    | rewind => exact still Cursor.phase_rewind
    | close =>
      have hsite : c.site = .ofPlan plan := hsite
      obtain ⟨s', c₁, hs', -, hclose, -, -, hclear⟩ := h.close hc hsite hret
      obtain rfl := Option.some.inj (hs.symm.trans hs')
      rw [Turn.close.after hc hs, hsite]
      exact idle_putScan (hsite ▸ hs) hclear
  · have hd' := (scan?_eq_some_iff.1 hs').1
    rw [← (scan?_eq_some_iff.1 hs).1, hsite] at hd'
    exact (hret n c' plan hc hsite hcl).congr hd'

lemma Reached.retired (hW : W.Reached H) : W.Retired := by
  induction hW with
  | make made =>
    obtain ⟨e, rfl, -⟩ := made_of_hubs (P := fun _ => True) made trivial fun _ _ _ _ _ _ => trivial
    exact fun n c plan hc => nomatch hc
  | deed reached permitted ih =>
    obtain ⟨F, h⟩ := reached.sound
    exact ih.after h permitted

/-! ## Scans that return everything -/

/-- The scan of a plan has returned everything: `held` are the places that it had.  Nothing is in
flight to it, its tallies are even, its slots are free, and what others have is still theirs. -/
structure Returned (W V : Workshop ω) (name plan : String) (held : List Place) : Prop where
  landed : ∃ k k', W.inbox? (.plan plan) = some k ∧ V.inbox? (.plan plan) = some k' ∧
    k'.id = k.id ∧ k'.inFlight = [] ∧
    (V.engine.tally k.id).claimed = (V.engine.tally k.id).released
  free : ∀ (i : Nat) (r : Ring ω), W.engine.rings[i]? = some r →
    ∃ r', V.engine.rings[i]? = some r' ∧ r'.free.Perm (r.free ++ slotsOn i held)
  kept : ∀ (i : Nat) (r : Ring ω), W.engine.rings[i]? = some r → ∀ k, k < r.capacity →
    r.stage k ≠ .free → (i, k) ∉ held → W.engine.Kept V.engine (i, k)
  claims : V.claims = W.claims
  leases : V.leases = W.leases
  inboxes : ∀ o, o ≠ .plan plan → V.inbox? o = W.inbox? o
  cursors : ∀ n, n ≠ name → V.cursors.find? n = W.cursors.find? n

lemma Sound.returned (h : W.Sound F H) (hV : V.Sound F' H') (hb : V.Balanced)
    (hsh : W.Shift V (fun _ => ()) (.ofPlan plan) s s' M []) (hf : s'.inbox.inFlight = [])
    (hcur : ∀ n, n ≠ name → V.cursors.find? n = W.cursors.find? n) :
    W.Returned V name plan (s.places M) := by
  obtain ⟨-, hk, he⟩ := scan?_eq_some_iff.1 hsh.scan
  have hsame := Scan.Moves.sameSite hsh.moves
  have hk' : V.inbox? (.plan plan) = some s'.inbox :=
    (congrFun hsh.inboxes _).trans (Function.update_self ..)
  obtain ⟨N, hN, -⟩ := hsh.held
  have hs : s.Sound M W.claimed (N.map Lease.place) F H := h.scan hsh.scan <| by
    rw [leased_eq, ← List.map_append]
    exact hN.map _
  refine ⟨⟨s.inbox, s'.inbox, hk, hk', hsame.inbox, hf, ?_⟩, fun i r hr => ?_,
    fun i r hr k hlt hst hno => ?_, hsh.claims, hsh.leases, fun o ho => ?_, hcur⟩
  · rw [← hsame.inbox]
    refine tally_settled hV hb hk' fun n c hc hsite => ?_
    rcases hsh.cursors n c hc with ⟨-, -, hne⟩ | ⟨-, hnone⟩
    · exact absurd hsite hne
    · exact hnone
  · rw [hsh.engine]
    exact Scan.Moves.free_perm hsh.moves hs hf (he ▸ hr)
  · rw [he] at hr ⊢
    rw [hsh.engine]
    refine Scan.Moves.kept hsh.moves hs ?_
    have hmem := hs.perm_others.mem_iff.1 (hs.engine.books.mem_of_stage hr hlt hst)
    exact (List.mem_append.1 hmem).resolve_left hno
  · rw [hsh.inboxes]
    exact Function.update_of_ne ho ..

/-- Calls on a closed cursor: there is no next row, and nothing changes. -/
structure Inert (W : Workshop ω) (name : String) : Prop where
  next : ((Session.next name).on W).1 = .ok false ∧ W.Agrees (W.after (.next name))
  rewind : ((Session.rewindCursor name).on W).1 = .ok () ∧ W.Agrees (W.after (.rewindCursor name))
  close : ((Session.close name).on W).1 = .ok () ∧ W.Agrees (W.after (.close name))

lemma inert_of_closed (hc : W.cursors.find? name = some c) (hs : W.scan? c.site = some s)
    (hcl : c.cursor.phase = .closed) : W.Inert name := by
  refine ⟨⟨?_, agrees_of_closed .next hc hs hcl⟩, ⟨?_, agrees_of_closed .rewind hc hs hcl⟩, ?_,
    agrees_of_closed .close hc hs hcl⟩
  · rw [Session.next, Session.on_onCursor hc hs, Cursor.next_of_ended (.inr hcl)]
  · rw [Session.rewindCursor, Session.on_onCursor hc hs, Cursor.rewind_of_still (by simp [hcl])]
  · rw [Session.close, Session.on_onCursor hc hs, Cursor.close_of_closed hcl]

/-! ## Ends of a scan -/

/-- A scan has ended: it has returned all its places, and its plan has no execution. -/
structure Ended (W V : Workshop ω) (name plan : String) (held : List Place) : Prop where
  returned : W.Returned V name plan held
  idle : V.Idle plan

section Ends

variable (hW : W.Reached H)

include hW

/-- The cursor of a plan is closed. -/
lemma ended_close (hc : W.cursors.find? name = some c) (hsite : c.site = .ofPlan plan)
    (hk : W.inbox? (.plan plan) = some k) :
    ((Session.close name).on W).1 = .ok () ∧
      W.Ended (W.after (.close name)) name plan ((c.cursor.leases ++ k.flights).map Lease.place) ∧
      ∃ c', (W.after (.close name)).cursors.find? name = some c' ∧ c'.site = c.site ∧
        c'.cursor.phase = .closed := by
  obtain ⟨F, h⟩ := hW.sound
  have hV := hW.deed (a := .close name) trivial
  obtain ⟨F', hV'⟩ := hV.sound
  obtain ⟨s, c', hs, hfit, hclose, hnone, hf, hclear⟩ := h.close hc hsite hW.retired
  have hs₁ : W.scan? (.ofPlan plan) = some s := hsite ▸ hs
  obtain rfl : k = s.inbox := Option.some.inj (hk.symm.trans (scan?_eq_some_iff.1 hs₁).2.1)
  have hafter := Turn.close.after hc hs
  have m : Scan.Moves (fun _ : ω => ()) (s, c.cursor.leases) _ := Sound.moves_close hfit
  have m' : Scan.Moves (fun _ : ω => ()) (s, c.cursor.leases)
      ((c.cursor.close s).2.2, (c.cursor.close s).2.1.leases) := by
    rw [congrArg (·.2.1) hclose, hnone]
    exact m
  have hsh := h.shift_turn hc hs m'
  rw [← hafter, hsite, congrArg (·.2.1) hclose, hnone] at hsh
  refine ⟨?_, ⟨h.returned hV' hV.balanced hsh hf fun n hn => ?_, ?_⟩, ?_⟩
  · rw [Session.close, Session.on_onCursor hc hs, hclose]
  · rw [hafter]
    exact Register.find?_bind_ne hn
  · rw [hafter]
    simp only [hsite]
    exact idle_putScan hs₁ hclear
  · rw [hafter]
    exact ⟨_, Register.find?_bind_self, rfl, Cursor.phase_close (congrArg Prod.fst hclose)⟩

/-- The cursor of a plan is let go of. -/
lemma ended_dropCursor (hc : W.cursors.find? name = some c) (hsite : c.site = .ofPlan plan)
    (hk : W.inbox? (.plan plan) = some k) :
    ((Session.dropCursor name).on W).1 = .ok () ∧
      W.Ended (W.after (.dropCursor name)) name plan
        ((c.cursor.leases ++ k.flights).map Lease.place) := by
  obtain ⟨F, h⟩ := hW.sound
  have hV := hW.deed (a := .dropCursor name) trivial
  obtain ⟨F', hV'⟩ := hV.sound
  obtain ⟨s, c', hs, hfit, hclose, -, hf, hclear⟩ := h.close hc hsite hW.retired
  have hs₁ : W.scan? (.ofPlan plan) = some s := hsite ▸ hs
  obtain rfl : k = s.inbox := Option.some.inj (hk.symm.trans (scan?_eq_some_iff.1 hs₁).2.1)
  have hafter := after_dropCursor hc hs
  have m : Scan.Moves (fun _ : ω => ()) (s, c.cursor.leases) _ := Sound.moves_close hfit
  have hsh := h.shift_drop hc hs m
  rw [← hafter, hsite] at hsh
  refine ⟨?_, h.returned hV' hV.balanced hsh hf fun n hn => ?_, ?_⟩
  · rw [Session.on_dropCursor hc hs, hclose]
  · rw [hafter, cursors_putScan]
    exact Register.find?_erase_ne hn
  · rw [hafter, hsite]
    have hs₂ : Workshop.scan? { W with cursors := W.cursors.erase name } (.ofPlan plan) = some s :=
      hs₁
    have hidle : Idle { Workshop.putScan { W with cursors := W.cursors.erase name } (.ofPlan plan)
        (c.cursor.close s).2.2 with cursors := W.cursors.erase name } plan :=
      idle_putScan hs₂ hclear
    exact hidle.congr (congrFun (dispatcher?_congr rfl rfl) _)

/-- The cursor of a plan could not be opened. -/
lemma returned_openCursor {hub : Nat} {p : Plan ω} {stop : Stop}
    (hp : W.Permits (.openCursor plan name hub)) (hpl : W.plans.find? plan = some p)
    (hstop : ((Session.openCursor plan name hub).on W).1 = .error stop) :
    W.Returned (W.after (.openCursor plan name hub)) name plan [] ∧
      (((p.scan W.engine).dispatch p.source hub p.filter).1 = .ok () →
        (W.after (.openCursor plan name hub)).Idle plan) := by
  obtain ⟨F, h⟩ := hW.sound
  have hV := hW.deed hp
  obtain ⟨F', hV'⟩ := hV.sound
  obtain ⟨hfree, hn, hhub⟩ := hp
  obtain ⟨s, r, s', hs, hsites, ho, m, -, rfl, -, herr⟩ :=
    h.moves_openCursor (π := fun _ => ()) hfree hn hhub hpl
      ⟨fun _ => rfl, leaves_unit p.dispatcher.reducer p.filter⟩
  rw [Session.fst_openCursor hpl hn, ho] at hstop
  obtain ⟨stop, rfl⟩ : ∃ stop, r = .error stop := by
    cases r with
    | error stop => exact ⟨stop, rfl⟩
    | ok c => cases hstop
  have hafter : W.after (.openCursor plan name hub) =
      { W.putPlan plan (p.ofScan s') with engine := s'.engine } := by
    rw [after_openCursor hpl hn, ho]
  have hmoved : W.Moved (W.after (.openCursor plan name hub)) (.ofPlan plan) s' := by
    rw [hafter]
    exact moved_putPlan s'
  have hsh := hmoved.unread hs m hsites (by rw [hafter]; rfl)
  obtain ⟨-, -, hidle⟩ := h.vacant hfree hpl
  -- nothing was leased, and nothing was in flight
  have hplaces : (p.scan W.engine).places [] = [] := by
    simp [Scan.places, Inbox.flights, Plan.scan, hidle]
  refine ⟨?_, fun hd => ?_⟩
  · rw [← hplaces]
    refine h.returned hV' hV.balanced hsh (herr stop rfl) fun n _ => ?_
    rw [hafter]
    rfl
  · have hclear := Plan.cleared_openCursor (h.scan (M := []) hs (.refl _)) hidle
      (h.hasHub hs hhub) ho hd
    exact ⟨s'.dispatcher, (congrFun hsh.dispatchers _).trans (Function.update_self ..), hclear⟩

end Ends

/-- A scan can be given up at any point.  Its inbox has a slot out while its cursor holds one, and
no other.  When the cursor is closed or let go of, and when it could not be opened, the scan has
returned everything, and it has no execution unless none could begin.  A closed cursor does
nothing any more. -/
theorem scan_returns_everything (hW : W.Reached H) :
    (∀ name plan c k, W.cursors.find? name = some c → c.site = .ofPlan plan →
      W.inbox? (.plan plan) = some k →
        (W.engine.tally k.id).claimed =
          (W.engine.tally k.id).released + (if c.cursor.lease.isSome then 1 else 0) ∧
        (((Session.close name).on W).1 = .ok () ∧
          W.Ended (W.after (.close name)) name plan
            ((c.cursor.leases ++ k.flights).map Lease.place) ∧
          ∃ c', (W.after (.close name)).cursors.find? name = some c' ∧ c'.site = c.site ∧
            c'.cursor.phase = .closed) ∧
        (((Session.dropCursor name).on W).1 = .ok () ∧
          W.Ended (W.after (.dropCursor name)) name plan
            ((c.cursor.leases ++ k.flights).map Lease.place)) ∧
        (c.cursor.phase = .closed → W.Inert name)) ∧
    ∀ plan name hub p stop, W.Permits (.openCursor plan name hub) → W.plans.find? plan = some p →
      ((Session.openCursor plan name hub).on W).1 = .error stop →
        W.Returned (W.after (.openCursor plan name hub)) name plan [] ∧
        (((p.scan W.engine).dispatch p.source hub p.filter).1 = .ok () →
          (W.after (.openCursor plan name hub)).Idle plan) := by
  obtain ⟨F, h⟩ := hW.sound
  refine ⟨fun name plan c k hc hsite hk => ?_, fun plan name hub p stop hp hpl hstop => ?_⟩
  · obtain ⟨s, hs, -⟩ := h.fit name c hc
    refine ⟨?_, ended_close hW hc hsite hk, ended_dropCursor hW hc hsite hk, inert_of_closed hc hs⟩
    rw [tally_cursor h hW.balanced hk hc (congrArg Site.inbox hsite), Cursor.leases]
    cases c.cursor.lease <;> rfl
  · exact returned_openCursor hW hp hpl hstop

/-- The cursor gives its slot back, and the slot published by hand stays pending; there is no free
slot for the cursor of another plan. -/
theorem scan_returns_everything_shared :
    shared.Ended (shared.after (.close "c")) "c" "p" [(0, 1)] ∧
      shared.Ended (shared.after (.dropCursor "c")) "c" "p" [(0, 1)] ∧
      (shared.after (.close "c")).Inert "c" ∧
      (shared.after (.addPlan "q" (plainSource [1]) keepAll)).Returned
        ((shared.after (.addPlan "q" (plainSource [1]) keepAll)).after (.openCursor "q" "d" 0))
        "d" "q" [] := by
  obtain ⟨F, h⟩ := reached_shared.sound
  obtain ⟨c, hc⟩ : ∃ c, shared.cursors.find? "c" = some c :=
    Option.isSome_iff_exists.1 (by decide +kernel)
  obtain ⟨s, hs, -⟩ := h.fit "c" c hc
  have hsite : c.site = .ofPlan "p" := site_eq_of_find? (by decide +kernel) hc
  obtain ⟨-, hk, -⟩ := scan?_eq_some_iff.1 hs
  rw [hsite] at hk
  have hheld : (c.cursor.leases ++ s.inbox.flights).map Lease.place = [(0, 1)] := by
    have hplaces : (shared.cursors.find? "c").bind (fun c => (shared.inbox? (.plan "p")).map fun k =>
        (c.cursor.leases ++ k.flights).map Lease.place) = some [(0, 1)] := by decide +kernel
    have hk' : shared.inbox? (.plan "p") = some s.inbox := hk
    rw [hc, hk'] at hplaces
    exact Option.some.inj hplaces
  obtain ⟨-, ⟨-, hclosed, c', hc', hsite', hphase⟩, ⟨-, hdropped⟩, -⟩ :=
    (scan_returns_everything reached_shared).1 "c" "p" c s.inbox hc hsite hk
  rw [hheld] at hclosed hdropped
  have hreached := reached_shared.deed (a := .close "c") trivial
  obtain ⟨k', hk'⟩ : ∃ k, (shared.after (.close "c")).inbox? (.plan "p") = some k :=
    Option.isSome_iff_exists.1 (by decide +kernel)
  have hinert := ((scan_returns_everything hreached).1 "c" "p" c' k' hc' (hsite'.trans hsite)
    hk').2.2.2 hphase
  have hfree : ∀ W : Workshop Unit, (∀ e ∈ W.cursors.entries, e.2.site = .ofPlan "p") →
      W.Free (.plan "q") := fun W hW => free_of_sites hW (by decide)
  have hadded := reached_shared.deed (a := .addPlan "q" (plainSource [1]) keepAll)
    (hfree _ (by decide +kernel))
  refine ⟨hclosed, hdropped, hinert, ((scan_returns_everything hadded).2 "q" "d" 0 _
    (.failed (.saturated 0 0)) ⟨hfree _ (by decide +kernel), by decide +kernel, by decide +kernel⟩
    Register.find?_bind_self (by decide +kernel)).1⟩

/-- A dispatcher of another ring may take away the slot of a frame: the cursor, when it is closed,
then gives back a slot that is in flight to another inbox. -/
theorem takes_away_crossing :
    (∃ H, furnished.Reached H) ∧ ∃ as V,
      Run (fun V a => V.Tolerates a ∧ a ≠ .dropCursor "c") (attended "f") as V ∧
        (V.cursors.find? "c").map (·.site) = some (.ofPlan "f") ∧ V.InFlight (.own "l") 1 1 ∧
        ((V.inbox? (.plan "f")).map fun k => k.flights.map Lease.place) = some [(1, 1)] ∧
        ¬ V.engine.Kept (V.after (.close "c")).engine (1, 1) := by
  refine ⟨reached_furnished, crossing ++ [.dispatch ⟨.own "q", .own "l"⟩ (plainSource [1, 1]) 0
    keepAll, .reduce 1], _, tolerates_crossing (.inl rfl) (.cons ⟨?_, nofun⟩
      (.cons ⟨trivial, nofun⟩ .nil)), ?_, ?_, ?_, ?_⟩
  · exact ⟨available_of_sites (s := .ofPlan "f") (by decide +kernel) nofun nofun,
      by decide +kernel⟩
  · decide +kernel
  · exact ⟨{ id := 3, ring := some 1, inFlight := [1] }, by decide +kernel, rfl, by decide⟩
  · decide +kernel
  · intro hkept
    have hstages := hkept.stage?
    revert hstages
    decide +kernel

end Workshop

end TableScan
