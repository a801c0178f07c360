import TableScan.Proofs.Delivery
import TableScan.Proofs.Tracking

/-!
# Passes in a workshop

A pass in a workshop where other things are done: its execution stays on the trail, and the cursor
there has collected what is there so far.  Main statement: whatever is done under its epoch, a pass
goes on (`Workshop.Pursues.run`).
-/

namespace TableScan.Workshop

open Scan Cursor

variable {ω σ : Type} {W V : Workshop ω} {F : List Lease} {H : List Place} {n : String}
  {a : Deed ω} {as : List (Deed ω)} {P : Pass ω} {ring b : Nat} {D : List Nat}
  {π : ω → σ × List RowView} {g : Filter σ} {x : σ × List RowView}
  {R : String → List RowView} {rows : List RowView} {start : ω}

/-- The rows that a cursor has delivered after a deed, with those that it had delivered before; a
cursor that is opened has delivered none. -/
def receives (W : Workshop ω) (n : String) (rows : List RowView) (a : Deed ω) : List RowView :=
  if a.opens? = some n then [] else W.tally n rows a

/-- The rows that a cursor has delivered after a run since it was opened or last started over,
with those that it had delivered before. -/
def received (n : String) : Workshop ω → List RowView → List (Deed ω) → List RowView
  | _, rows, [] => rows
  | W, rows, a :: as => received n (W.after a) (W.receives n rows a) as

/-- Two cursors have different dispatchers. -/
lemma Sound.cursor_unique (h : W.Sound F H) {n' : String} {c c' : OpenCursor} {s s' : Scan ω}
    (hc : W.cursors.find? n = some c) (hs : W.scan? c.site = some s)
    (hc' : W.cursors.find? n' = some c') (hs' : W.scan? c'.site = some s')
    (hid : s.dispatcher.id = s'.dispatcher.id) : n = n' :=
  h.sites n n' c c' hc hc' (.inl (h.floor.dispatchers _ _ _ _ (scan?_eq_some_iff.1 hs).1
    (scan?_eq_some_iff.1 hs').1 hid))

/-- A pass in a workshop.  Its execution is tracked, and any cursor on it has collected what is
there so far; `R` are the rows that each cursor has delivered. -/
structure Pursues (W : Workshop ω) (P : Pass ω) (ring : Nat) (π : ω → σ × List RowView)
    (g : Filter σ) (x : σ × List RowView) (b : Nat) (D : List Nat) (R : String → List RowView) :
    Prop extends W.Tracks (P.course ring π g x) b D where
  collects : ∀ n c s, W.cursors.find? n = some c → W.scan? c.site = some s →
    s.dispatcher.id = P.dispatcher → s.dispatcher.work ≠ none → c.cursor.IsOpen →
      c.cursor.Collects s P g x b (R n)

/-- A pass goes on with a scan that was put back, and the cursor there. -/
lemma Pursues.put {site : Site} {s s' : Scan ω} {c : Cursor} {F' : List Lease} {H' : List Place}
    (hW : W.Secluded P.dispatcher π) (h : W.Sound F H) (hV : V.Sound F' H')
    (hm : W.Moved V site s') (hs : W.scan? site = some s)
    (hid : s.dispatcher.id = P.dispatcher) (hon : s'.OnTrail (P.course ring π g x) b D)
    (hc : V.cursors.find? n = some ⟨site, c⟩)
    (hcollects : s'.dispatcher.work ≠ none → c.IsOpen → c.Collects s' P g x b (R n)) :
    V.Pursues P ring π g x b D R := by
  refine ⟨Tracks.own hW h hm hs hid hon, fun n' c' s₁ hc' hs₁ hid' hwork hopen => ?_⟩
  have hs' := hm.scan?
  obtain rfl := hV.cursor_unique hc hs' hc' hs₁ (hon.id.trans hid'.symm)
  obtain rfl := Option.some.inj (hc.symm.trans hc')
  obtain rfl := Option.some.inj (hs'.symm.trans hs₁)
  exact hcollects hwork hopen

/-- An open cursor that could not be closed has no rows at hand. -/
lemma Sound.rest_of_close (h : W.Sound F H) {c : OpenCursor} {s : Scan ω} {rows : List RowView}
    (hc : W.cursors.find? n = some c) (hs : W.scan? c.site = some s)
    (hcollects : c.cursor.Collects s P g x b rows) (hopen : c.cursor.IsOpen)
    (hfails : (c.cursor.close s).1 ≠ .ok ()) : c.cursor.rest = [] := by
  by_contra hrest
  have hclosed : c.cursor.phase ≠ .closed := by
    rcases hopen with hp | hp <;> exact fun hcl => Phase.noConfusion (hcl.symm.trans hp)
  obtain ⟨s₁, hok, -⟩ := close_ok (M := []) (by
    rw [List.append_nil]
    exact h.scan hs (h.leased_perm hc)) (hcollects.moored hrest) hclosed
  exact hfails (congrArg Prod.fst hok)

namespace Pursues

/-- The scan of a cursor on a pass is tracked. -/
lemma tracked (hW : W.Reached H) (hp : W.Tracks (P.course ring π g x) b D) {c : OpenCursor}
    {s : Scan ω} (hc : W.cursors.find? n = some c) (hs : W.scan? c.site = some s)
    (hid : s.dispatcher.id = P.dispatcher) (hwork : s.dispatcher.work ≠ none) :
    s.Tracked (P.course ring π g x) b D c.cursor.leases W.claimed (leasedBut W n) H := by
  obtain ⟨F, h⟩ := hW.sound
  obtain ⟨s', hs', hfit⟩ := h.fit n c hc
  obtain rfl := Option.some.inj (hs.symm.trans hs')
  obtain ⟨-, hk, he⟩ := scan?_eq_some_iff.1 hs
  exact ⟨hp.onTrail hs hid, hwork, hfit.home, he ▸ hW.laden hk, F, h.scan hs (h.leased_perm hc)⟩

/-- The cursor of a pass moves to its next row. -/
lemma next (hg : P.filter.Shows g.recording π) (hW : W.Reached H)
    (hp : W.Pursues P ring π g x b D R) {c : OpenCursor} {s : Scan ω}
    (hc : W.cursors.find? n = some c) (hs : W.scan? c.site = some s)
    (hid : s.dispatcher.id = P.dispatcher) (hwork : s.dispatcher.work ≠ none)
    (hopen : c.cursor.IsOpen) :
    ∃ b' D', b ≤ b' ∧ (W.after (.next n)).Pursues P ring π g x b' D'
      fun m => W.receives m (R m) (.next n) := by
  obtain ⟨F, h⟩ := hW.sound
  obtain ⟨F', hV⟩ := (hW.deed (a := .next n) trivial).sound
  obtain ⟨b', D', hle, ht, hcollects, -⟩ := (hp.collects n c s hc hs hid hwork hopen).next hg
    (tracked hW hp.toTracks hc hs hid hwork) hopen
  refine ⟨b', D', hle, .put (n := n) (c := (c.cursor.next s).2.1) hp.secluded h hV
    (Turn.next.moved hc hs) hs hid ht.onTrail (Turn.next.find?_after hc hs) fun _ _ => ?_⟩
  have hreceives : W.receives n (R n) (.next n) =
      R n ++ (Cursor.answer (c.cursor.next s)).2.toList := by
    rw [receives, if_neg nofun, tally, if_pos rfl, answer_eq hc hs]
  rw [hreceives]
  exact hcollects

/-- A cursor is opened on a pass. -/
lemma openOn (hg : P.filter.Shows g.recording π) (hW : W.Reached H)
    (hp : W.Pursues P ring π g x b D R) {site : Site} (hpermits : W.Permits (.openOn site n))
    {c : Cursor} {s s' : Scan ω} (hs : W.scan? site = some s) (ho : Cursor.openOn s = (.ok c, s'))
    (hid : s.dispatcher.id = P.dispatcher) (hwork : s.dispatcher.work ≠ none) :
    ∃ b' D', b ≤ b' ∧ (W.after (.openOn site n)).Pursues P ring π g x b' D'
      fun m => W.receives m (R m) (.openOn site n) := by
  obtain ⟨F, h⟩ := hW.sound
  obtain ⟨F', hV⟩ := (hW.deed hpermits).sound
  obtain ⟨-, hhome, hn⟩ := hpermits
  obtain ⟨-, hk, he⟩ := scan?_eq_some_iff.1 hs
  have ht : s.Tracked (P.course ring π g x) b D [] W.claimed W.leased H :=
    ⟨hp.onTrail hs hid, hwork, h.home hhome hs, he ▸ hW.laden hk, F, h.scan hs (.refl _)⟩
  obtain ⟨b', D', hle, ht', hcollects⟩ := Collects.opened hg ht ho
  have hafter := after_openOn hn hs
  rw [ho] at hafter
  dsimp only at hafter
  have hmoved := (moved_putScan hs s').withCursors (W.cursors.bind n ⟨site, c⟩)
  rw [← hafter] at hmoved
  refine ⟨b', D', hle, .put (n := n) (c := c) hp.secluded h hV hmoved hs hid
    ht'.onTrail ?_ fun _ _ => ?_⟩
  · rw [hafter]
    exact Register.find?_bind_self
  · have hreceives : W.receives n (R n) (.openOn site n) = [] := if_pos rfl
    rw [hreceives]
    exact hcollects

/-- What neither moves nor opens the cursor of a pass leaves what it has collected. -/
lemma still (hg : P.filter.Shows g.recording π) (hW : W.Reached H)
    (hp : W.Pursues P ring π g x b D R) (ha : W.Within P.dispatcher π a)
    (hnext : ∀ n c s, a = .next n → W.cursors.find? n = some c → W.scan? c.site = some s →
      s.dispatcher.id = P.dispatcher → s.dispatcher.work ≠ none → ¬ c.cursor.IsOpen)
    (hopens : ∀ n c s', a.opens? = some n → (W.after a).cursors.find? n = some c →
      (W.after a).scan? c.site = some s' → s'.dispatcher.id = P.dispatcher →
        s'.dispatcher.work = none) :
    ∃ b' D', b ≤ b' ∧ (W.after a).Pursues P ring π g x b' D' fun m => W.receives m (R m) a := by
  obtain ⟨F, h⟩ := hW.sound
  obtain ⟨b', D', hle, ht⟩ := hp.toTracks.after (Pass.lawful hg) h ha
  refine ⟨b', D', hle, ht, fun n c' s' hc' hs' hid hwork hopen => ?_⟩
  have hnew : a.opens? ≠ some n := fun hnew => hwork (hopens n c' s' hnew hc' hs' hid)
  show c'.cursor.Collects s' P g x b' (W.receives n (R n) a)
  rw [receives, if_neg hnew]
  rcases cursor_cases h ha.permits hc' with
    hnew' | ⟨c, s, f, hturn, hc, hs, rfl, hs₁⟩ | ⟨hme, hc, s, hs, hs₁⟩
  · exact absurd hnew' hnew
  · -- the cursor itself: it has come to its end, or stays where it is
    obtain rfl := Option.some.inj (hs'.symm.trans hs₁)
    obtain ⟨t, ht, hfit⟩ := h.fit n c hc
    obtain rfl := Option.some.inj (hs.symm.trans ht)
    have m := hturn.moves (π := fun _ => ()) (c := c.cursor) hfit.home (fun _ _ => leaves_unit ..) []
    have hid' : s.dispatcher.id = P.dispatcher := (Moves.sameSite m).dispatcher ▸ hid
    cases hturn with
    | next =>
      have hended := hnext n c s rfl hc hs hid' ((samePass_next c.cursor s).work ▸ hwork)
      dsimp only at hopen
      rw [next_of_ended (ended_of_not_open hended)] at hopen
      exact absurd hopen hended
    | rewind =>
      by_cases hphase : c.cursor.phase = .iterating ∨ c.cursor.phase = .exhausted
      · have hnone := (h.rewind_within hc hs (hid' ▸ ha.epoch)).resolve_left fun hn => hn hphase
        exact absurd ((Cursor.work_rewind c.cursor s).trans hnone) hwork
      · dsimp only at hwork hopen ⊢
        rw [rewind_of_still hphase] at hwork hopen ⊢
        have hmoved : ¬ (n = n ∧ W.hasMoved n) := fun hm => hphase ((hasMoved_iff hc).1 hm.2)
        rw [tally, if_neg hmoved]
        exact (hp.collects n c s hc hs hid' hwork hopen).mono hle id
    | close =>
      rcases close_cases c.cursor s with hclosed | ⟨hfails, hemptied, hsame⟩
      · rcases hopen with hopen | hopen <;> cases hclosed.symm.trans hopen
      · dsimp only at hopen ⊢
        rw [hemptied] at hopen ⊢
        have hcollects := hp.collects n c s hc hs hid' (hsame.work ▸ hwork) hopen
        have hrest := h.rest_of_close hc hs hcollects hopen hfails
        exact (hcollects.idle hrest hle).emptied hrest
  · -- a deed of others
    obtain rfl := Option.some.inj (hs'.symm.trans hs₁)
    rw [tally_of_ne hme]
    exact (hp.collects n c' s hc hs hid hwork hopen).mono hle id

/-- Whatever is done under the epoch of a pass, the pass goes on. -/
lemma after (hg : P.filter.Shows g.recording π) (hW : W.Reached H)
    (hp : W.Pursues P ring π g x b D R) (ha : W.Within P.dispatcher π a) :
    ∃ b' D', b ≤ b' ∧ (W.after a).Pursues P ring π g x b' D' fun m => W.receives m (R m) a := by
  obtain ⟨F, h⟩ := hW.sound
  by_cases hnext : ∃ n c s, a = .next n ∧ W.cursors.find? n = some c ∧ W.scan? c.site = some s ∧
      s.dispatcher.id = P.dispatcher ∧ s.dispatcher.work ≠ none ∧ c.cursor.IsOpen
  · obtain ⟨n, c, s, rfl, hc, hs, hid, hwork, hopen⟩ := hnext
    exact hp.next hg hW hc hs hid hwork hopen
  by_cases hopens : ∃ n c s', a.opens? = some n ∧ (W.after a).cursors.find? n = some c ∧
      (W.after a).scan? c.site = some s' ∧ s'.dispatcher.id = P.dispatcher ∧
        s'.dispatcher.work ≠ none
  · obtain ⟨n, c, s', hnew, hc, hs', hid, hwork⟩ := hopens
    obtain ⟨s, s₁, ho, hs₁, hcases⟩ := opened_cases ha.permits hnew hc
    obtain rfl := Option.some.inj (hs'.symm.trans hs₁)
    have hsame := samePass_openOn ho
    rcases hcases with ⟨rfl, hs⟩ | ⟨plan, p, hub, rfl, hsite, hpl, hd⟩
    · have m : Moves (fun _ : ω => ()) (s, []) _ :=
        Cursor.moves_openOn (h.home ha.permits.2.1 hs)
      rw [ho] at m
      exact hp.openOn hg hW ha.permits hs ho ((Moves.sameSite m).dispatcher ▸ hid)
        (hsame.work ▸ hwork)
    · -- a plan that is executed would begin an epoch
      obtain ⟨hs, -, hidle⟩ := h.vacant ha.permits.1 hpl
      have m : Moves (fun _ : ω => ()) (p.scan W.engine, [])
          (((p.scan W.engine).dispatch p.source hub p.filter).2, []) :=
        moves_dispatch (h.hasHub hs ha.permits.2.2) (fun _ => rfl) (leaves_unit ..)
      have hhome : s.Home := by
        rcases dispatch_cases (s := p.scan W.engine) hidle p.source hub p.filter with
          ⟨s₂, hd₂, hm⟩ | ⟨stop, s₂, hd₂, -⟩ <;> rw [hd] at hd₂
        · exact (Prod.mk.inj hd₂).2 ▸ hm.home
        · cases hd₂
      rw [hd] at m
      have m' := m.trans (Cursor.moves_openOn hhome)
      rw [ho] at m'
      have hid' : s'.dispatcher.id = (p.scan W.engine).dispatcher.id :=
        (Moves.sameSite m').dispatcher
      have he := ha.epoch
      rw [epoch_openCursor hpl ha.permits.2.1, ← hid, hid'] at he
      rcases h.dispatch_or hs hub p.filter (ha.spares p hpl).1 with ⟨stop, t, hd', -⟩ | hlt
      · rw [hd] at hd'
        cases hd'
      · exact absurd he hlt.ne'
  · exact hp.still hg hW ha (fun n c s hn hc hs hid hwork hopen =>
      hnext ⟨n, c, s, hn, hc, hs, hid, hwork, hopen⟩) fun n c s' hn hc hs' hid =>
        by_contra fun hwork => hopens ⟨n, c, s', hn, hc, hs', hid, hwork⟩

/-- A pass goes on through any run under its epoch. -/
lemma run (hg : P.filter.Shows g.recording π) (hW : W.Reached H)
    (hp : W.Pursues P ring π g x b D R) (hrun : Run (Within P.dispatcher π) W as V) :
    ∃ b' D', b ≤ b' ∧ V.Pursues P ring π g x b' D' fun m => received m W (R m) as := by
  induction hrun generalizing b D R H with
  | nil => exact ⟨b, D, Nat.le_refl b, hp⟩
  | cons here _ ih =>
    obtain ⟨b₁, D₁, hle₁, hp₁⟩ := hp.after hg hW here
    obtain ⟨b₂, D₂, hle₂, hp₂⟩ := ih (hW.deed here.permits) hp₁
    exact ⟨b₂, D₂, Nat.le_trans hle₁ hle₂, hp₂⟩

end Pursues

/-! ## The beginning of a pass -/

namespace Pursues

/-- A pass begins at a site that no cursor has. -/
lemma unread {site : Site} {s s' : Scan ω} {F' : List Lease} {H' : List Place}
    (hsec : W.Secluded P.dispatcher π) (h : W.Sound F H) (hV : V.Sound F' H')
    (hm : W.Moved V site s') (hs : W.scan? site = some s)
    (hid : s.dispatcher.id = P.dispatcher) (hon : s'.OnTrail (P.course ring π g x) b D)
    (hcur : V.cursors = W.cursors) (hfree : W.Free site.dispatcher) :
    V.Pursues P ring π g x b D R := by
  refine ⟨Tracks.own hsec h hm hs hid hon, fun n c s₁ hc hs₁ hid' => ?_⟩
  have hsame := hV.floor.dispatchers _ _ _ _ (scan?_eq_some_iff.1 hs₁).1
    (scan?_eq_some_iff.1 hm.scan?).1 (hid'.trans hon.id.symm)
  exact absurd hsame (hfree n c (hcur ▸ hc))

lemma dispatch {site : Site} {s : Scan ω} {source : Source ω} {hub : Nat} {filter : Filter ω}
    {o : Order} {frames : List Frame} {F' : List Lease} {H' : List Place}
    (hsec : W.Secluded s.dispatcher.id π) (hg : filter.Shows g.recording π) (h : W.Sound F H)
    (hV : (W.putScan site (s.dispatch source hub filter).2).Sound F' H')
    (hs : W.scan? site = some s) (hfree : W.Free site.dispatcher)
    (hhub : hub < W.engine.hubs.size) (hw : ∀ w, π (source.supply w).2 = π w)
    (hred : s.dispatcher.reducer = .filtering o) (hsettled : s.replace.1 = .ok ())
    (hsupplied : source.supply s.replace.2.engine.world = (.ok frames, start)) :
    ∃ ring b D, (W.putScan site (s.dispatch source hub filter).2).Pursues
      (source.pass s.dispatcher.id o filter frames) ring π g (π start) b D R := by
  let t : Scan ω := { s.replace.2 with engine := s.replace.2.engine.withWorld start }
  have m : Moves π (s, []) (t, []) := by
    have m : Moves π (s, []) (s.replace.2, []) := moves_replace
    refine m.tail (.alike ⟨rfl, rfl, rfl, rfl, ?_⟩)
    rw [← hw s.replace.2.engine.world, hsupplied]
    rfl
  have hscan := h.scan hs (M := []) (.refl _)
  obtain ⟨F₁, ht, -⟩ := Moves.sound m hscan
  have hsame : s.SameSite t := Moves.sameSite m
  have hidle : s.replace.2.inbox.inFlight = [] := inFlight_replace (Prod.ext hsettled rfl)
  have htame := Moves.tame m hscan ((scan?_eq_some_iff.1 hs).2.2 ▸ hsec.tame)
  rw [← hsame.dispatcher] at htame
  obtain ⟨b, D, hon, -⟩ := onTrail_launch hub frames
    (P := source.pass s.dispatcher.id o filter frames) hg ht hidle
    ((h.hasHub hs hhub).of_sameSize hsame.size) htame (hsame.reducer.trans hred) rfl
    (by rw [← hsame.dispatcher])
  rw [← dispatch_eq_launch hub filter hsettled hsupplied] at hon
  exact ⟨_, b, D, .unread hsec h hV (moved_putScan hs _) hs rfl hon (cursors_putScan _) hfree⟩

lemma rewind {site : Site} {s : Scan ω} {work : Work ω} {o : Order}
    (hsec : W.Secluded s.dispatcher.id π) (hg : work.filter.Shows g.recording π)
    (hW : W.Reached H) (hp : W.Permits (.rewind site)) (hs : W.scan? site = some s)
    (hwork : s.dispatcher.work = some work) (hred : work.reducer = .filtering o) :
    ∃ ring b D, (W.after (.rewind site)).Pursues (s.dispatcher.pass work o) ring π g
      (π W.engine.world) b D R := by
  obtain ⟨F, h⟩ := hW.sound
  obtain ⟨F', hV⟩ := (hW.deed hp).sound
  obtain ⟨⟨hfree, -⟩, hhome⟩ := hp
  obtain ⟨hd, hk, he⟩ := scan?_eq_some_iff.1 hs
  obtain ⟨ring, hring⟩ := Option.ne_none_iff_exists'.1 (hW.engaged hd work hwork).1
  obtain ⟨b, D, ht⟩ := tracked_rewind (P := s.dispatcher.pass work o) (x := π W.engine.world) hg rfl
    (h.scan hs (M := []) (.refl _)) (h.home hhome hs) (he ▸ hW.laden hk) (he ▸ hsec.tame) hwork hred
    hring (by rw [he])
  have herrand : Errand (.rewind site) site (Scan.rewind (ω := ω)) := .rewind
  have hafter := herrand.after (W := W)
  rw [hs] at hafter
  dsimp only at hafter
  rw [hafter] at hV ⊢
  exact ⟨ring, b, D, .unread hsec h hV (moved_putScan hs _) hs rfl ht.onTrail (cursors_putScan _)
    hfree⟩

lemma rewindCursor {c : OpenCursor} {s : Scan ω} {work : Work ω} {o : Order}
    (hsec : W.Secluded s.dispatcher.id π) (hg : work.filter.Shows g.recording π)
    (hW : W.Reached H) (hc : W.cursors.find? n = some c) (hs : W.scan? c.site = some s)
    (hphase : c.cursor.phase = .iterating ∨ c.cursor.phase = .exhausted)
    (hwork : s.dispatcher.work = some work) (hred : work.reducer = .filtering o) :
    ∃ ring b D, (W.after (.rewindCursor n)).Pursues (s.dispatcher.pass work o) ring π g
      (π (work.filter.rewind W.engine.world)) b D fun m => W.receives m (R m) (.rewindCursor n) := by
  obtain ⟨F, h⟩ := hW.sound
  obtain ⟨F', hV⟩ := (hW.deed (a := .rewindCursor n) trivial).sound
  obtain ⟨s', hs', hfit⟩ := h.fit n c hc
  obtain rfl := Option.some.inj (hs.symm.trans hs')
  obtain ⟨hd, hk, he⟩ := scan?_eq_some_iff.1 hs
  obtain ⟨ring, hring⟩ := Option.ne_none_iff_exists'.1 (hW.engaged hd work hwork).1
  obtain ⟨b, D, ht, hcollects⟩ := Collects.rewound (P := s.dispatcher.pass work o) hg
    ⟨F, h.scan hs (h.leased_perm hc)⟩ hfit.home (he ▸ hW.laden hk) (he ▸ hsec.tame)
    (hW.views hc hd) hphase hwork hred hring rfl (congrArg (fun e => π (work.filter.rewind e.world)) he.symm)
  refine ⟨ring, b, D, .put (n := n) (c := (c.cursor.rewind s).2.1) hsec h hV
    (Turn.rewind.moved hc hs) hs rfl ht.onTrail (Turn.rewind.find?_after hc hs) fun _ _ => ?_⟩
  have hreceives : W.receives n (R n) (.rewindCursor n) = [] := by
    rw [receives, if_neg nofun]
    exact if_pos ⟨rfl, (hasMoved_iff hc).2 hphase⟩
  rw [hreceives]
  exact hcollects

lemma openCursor {plan : String} {hub : Nat} {p : Plan ω} {frames : List Frame}
    (hsec : W.Secluded p.dispatcher.id π) (hg : p.filter.Shows g.recording π)
    (hW : W.Reached H) (hp : W.Permits (.openCursor plan n hub))
    (hpl : W.plans.find? plan = some p) (hw : ∀ w, π (p.source.supply w).2 = π w)
    (hsupplied : p.source.supply W.engine.world = (.ok frames, start)) :
    ∃ ring b D, (W.after (.openCursor plan n hub)).Pursues
      (p.source.pass p.dispatcher.id p.source.order p.filter frames) ring π g (π start) b D
        fun m => W.receives m (R m) (.openCursor plan n hub) := by
  obtain ⟨F, h⟩ := hW.sound
  obtain ⟨F', hV⟩ := (hW.deed hp).sound
  obtain ⟨hfree, hn, hhub⟩ := hp
  obtain ⟨hs, hsite, hidle⟩ := h.vacant hfree hpl
  let t : Scan ω := p.scan (W.engine.withWorld start)
  -- to the filter the world is as it was before the supply
  have m : Moves π (p.scan W.engine, []) (t, []) := by
    have hshown := hw W.engine.world
    rw [hsupplied] at hshown
    exact .single (.alike ⟨rfl, rfl, rfl, rfl, hshown⟩)
  obtain ⟨F₁, ht, -⟩ := Moves.sound m (h.scan hs (.refl _))
  have hlawful : ((p.source.pass p.dispatcher.id p.source.order p.filter frames).course
      (t.nextRing hub) π g (π start)).Lawful := Pass.lawful hg
  obtain ⟨b, D, hon, htracked⟩ := onTrail_launch hub frames
    (P := p.source.pass p.dispatcher.id p.source.order p.filter frames) (x := π start) hg ht hidle
    ((h.hasHub hs hhub).of_sameSize (Moves.sameSite m).size) hsec.tame (h.reducer_eq hpl) rfl rfl
  have hafter := after_openCursor hpl hn hub
  rw [Plan.openCursor_eq, Plan.dispatch_eq hidle hsupplied] at hafter
  rcases hl : t.launch p.source hub p.filter frames with ⟨stop | u, s₁⟩ <;>
    rw [hl] at hafter hon htracked <;> dsimp only at hafter
  · rw [hafter] at hV ⊢
    exact ⟨_, b, D, .unread hsec h hV (moved_putPlan s₁) hs rfl hon rfl hfree⟩
  · have ht₁ := htracked rfl
    rcases ho : Cursor.openOn s₁ with ⟨stop | c, s'⟩ <;> rw [ho] at hafter <;>
      dsimp only at hafter
    · -- a cursor that could not be opened leaves the execution on its trail
      have m' : Moves π (s₁, []) _ := Cursor.moves_openOn ht₁.home
      have hepoch := Cursor.epoch_openOn s₁
      rw [ho] at m' hepoch
      obtain ⟨F₂, hs₁⟩ := ht₁.sound
      obtain ⟨b', D', -, hon'⟩ := Moves.onTrail hlawful m' hs₁ hon (congrFun hepoch _)
      rw [hafter] at hV ⊢
      exact ⟨_, b', D', .unread hsec h hV (moved_putPlan s') hs rfl hon' rfl hfree⟩
    · obtain ⟨b', D', -, ht', hcollects⟩ := Collects.opened hg ht₁ ho
      have hput : W.Moved { W.putPlan plan (p.ofScan s') with engine := s'.engine }
          (.ofPlan plan) s' := moved_putPlan s'
      have hmoved := hput.withCursors (W.cursors.bind n ⟨.ofPlan plan, c⟩)
      rw [hafter] at hV ⊢
      refine ⟨_, b', D', .put (n := n) (c := c) hsec h hV hmoved hs rfl ht'.onTrail
        Register.find?_bind_self fun _ _ => ?_⟩
      have hreceives : W.receives n (R n) (.openCursor plan n hub) = [] := if_pos rfl
      rw [hreceives]
      exact hcollects

end Pursues

end TableScan.Workshop
