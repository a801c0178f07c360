import TableScan.Proofs.Pursuits

/-!
# Evaluations

The rows that a stateful filter is asked about under one epoch of its dispatcher.  Main statement:
they are the rows of the first frames in the order of the scan, and a cursor that comes to the end
of a pass without a failure has delivered what one loop over all rows keeps
(`Workshop.evaluates_in_order`).
-/

namespace TableScan.Workshop

open Scan Cursor

variable {ω σ : Type} {W V : Workshop ω} {F : List Lease} {H : List Place} {n : String} {a : Deed ω}
  {as : List (Deed ω)} {P : Pass ω} {π : ω → σ × List RowView} {g : Filter σ}
  {R : String → List RowView} {start : ω}

/-! ## The beginning of a pass -/

/-- A deed that begins a pass, with the world at its start: an execution over frames that were
opened, or another pass of an active dispatcher. -/
inductive Begins (W : Workshop ω) : Deed ω → Pass ω → ω → Prop
  | dispatch {site : Site} {source : Source ω} {hub : Nat} {filter : Filter ω} {s : Scan ω}
      {o : Order} {frames : List Frame} {start : ω} (scan : W.scan? site = some s)
      (reducer : s.dispatcher.reducer = .filtering o) (settled : s.replace.1 = .ok ())
      (supplied : source.supply s.replace.2.engine.world = (.ok frames, start)) :
      Begins W (.dispatch site source hub filter)
        (source.pass s.dispatcher.id o filter frames) start
  | execute {plan inbox : String} {hub : Nat} {p : Plan ω} {P : Pass ω} {start : ω}
      (plan_eq : W.plans.find? plan = some p)
      (begins : Begins W (.dispatch ⟨.plan plan, .own inbox⟩ p.source hub p.filter) P start) :
      Begins W (.execute plan inbox hub) P start
  | openCursor {plan n : String} {hub : Nat} {p : Plan ω} {frames : List Frame} {start : ω}
      (plan_eq : W.plans.find? plan = some p)
      (supplied : p.source.supply W.engine.world = (.ok frames, start)) :
      Begins W (.openCursor plan n hub)
        (p.source.pass p.dispatcher.id p.source.order p.filter frames) start
  | rewind {site : Site} {s : Scan ω} {work : Work ω} {o : Order}
      (scan : W.scan? site = some s) (work_eq : s.dispatcher.work = some work)
      (reducer : work.reducer = .filtering o) :
      Begins W (.rewind site) (s.dispatcher.pass work o) W.engine.world
  | rewindCursor {n : String} {c : OpenCursor} {s : Scan ω} {work : Work ω} {o : Order}
      (cursor : W.cursors.find? n = some c) (scan : W.scan? c.site = some s)
      (moved : c.cursor.phase = .iterating ∨ c.cursor.phase = .exhausted)
      (work_eq : s.dispatcher.work = some work) (reducer : work.reducer = .filtering o) :
      Begins W (.rewindCursor n) (s.dispatcher.pass work o) (work.filter.rewind W.engine.world)

/-- A deed that begins a pass puts its execution on the trail. -/
lemma Pursues.begin (hg : P.filter.Shows g.recording π) (hW : W.Reached H) (hp : W.Permits a)
    (hsec : W.Secluded P.dispatcher π) (hsp : W.SparesBut P.dispatcher π a)
    (hbegin : W.Begins a P start) :
    ∃ ring b D, (W.after a).Pursues P ring π g (π start) b D fun m => W.receives m (R m) a := by
  obtain ⟨F, h⟩ := hW.sound
  obtain ⟨F', hV⟩ := (hW.deed hp).sound
  cases hbegin with
  | dispatch hs hred hsettled hsupplied =>
    rw [after_dispatch hs] at hV ⊢
    exact Pursues.dispatch hsec hg h hV hs hp.1.1 hp.2 hsp.1 hred hsettled hsupplied
  | @execute plan inbox hub p P start hpl hbegin =>
    cases hbegin with
    | dispatch hs hred hsettled hsupplied =>
      have hafter := after_execute (W := W) plan inbox hub
      rw [hpl] at hafter
      rw [hafter.trans (after_dispatch hs ..)] at hV ⊢
      exact Pursues.dispatch hsec hg h hV hs hp.1.1 hp.2 (hsp _ hpl).1 hred hsettled hsupplied
  | openCursor hpl hsupplied => exact Pursues.openCursor hsec hg hW hp hpl (hsp _ hpl).1 hsupplied
  | rewind hs hwork hred => exact Pursues.rewind hsec hg hW hp hs hwork hred
  | rewindCursor hc hs hphase hwork hred => exact Pursues.rewindCursor hsec hg hW hc hs hphase hwork hred

/-! ## Passes in their order -/

/-- As far as a trail goes, the filter was asked in the order of the pass. -/
lemma asked_of_trail {e : Engine ω} {ring b : Nat} {D : List Nat} {x : σ × List RowView}
    (ht : Trail (P.course ring π g x) e b D) :
    ∃ j ≤ P.count, π e.world = g.record (P.visits.take j) x ∧
      (g.through (P.visits.take j) x.1).1.Nodup := by
  refine ⟨b, Nat.le_trans (Nat.le_add_right ..) ht.bound, ht.world, ?_⟩
  exact (P.nodup_visits.sublist (List.take_sublist b P.visits).flatten).sublist
    (g.through_sublist _ _)

/-- At the end of a pass, an open cursor has brought in all of its frames. -/
lemma Pursues.ended {ring b : Nat} {D : List Nat} {x : σ × List RowView} {c : OpenCursor}
    {s : Scan ω} (hv : V.Pursues P ring π g x b D R) (hg : P.filter.Shows g.recording π)
    (hV : V.Reached H) (hc : V.cursors.find? n = some c) (hs : V.scan? c.site = some s)
    (hid : s.dispatcher.id = P.dispatcher) (hwork : s.dispatcher.work ≠ none)
    (hopen : c.cursor.IsOpen) (hlast : (Cursor.answer (c.cursor.next s)).1 = .ok false) :
    π (V.after (.next n)).engine.world = g.record P.visits x ∧
      P.Brings g x P.count (R n) := by
  obtain ⟨b', D', -, ht, hcollects, hnothing⟩ := (hv.collects n c s hc hs hid hwork hopen).next hg
    (Pursues.tracked hV hv.toTracks hc hs hid hwork) hopen
  obtain ⟨hposition, hrest⟩ := hnothing hlast
  have hreached := hcollects.reached
  rw [hposition] at hreached
  obtain rfl : b' = P.count := Nat.le_antisymm ht.bound hreached
  have hworld : π (c.cursor.next s).2.2.engine.world = g.record (P.visits.take P.count) x :=
    ht.onTrail.trail.world
  have hbrings := hcollects.brings
  have hnone : (Cursor.answer (c.cursor.next s)).2 = none := by
    have hlast' : (c.cursor.next s).1 = .ok false := hlast
    simp only [Cursor.answer, hlast']
  rw [hposition, hrest, hnone] at hbrings
  rw [← P.length_visits, List.take_length] at hworld
  refine ⟨?_, by simpa using hbrings⟩
  rw [Turn.next.after hc hs]
  exact hworld

/-- Under the epoch of a pass, its filter was asked about the rows of the first frames in their
order, about no row twice; each frame's rows come in the order of the reducer, up to the first one
that the filter does not answer.  That is so however the deeds of the scan and of others come in
turn, and also after a dispatch has settled what was left of the pass.  When an open cursor comes
to the end of the pass, the filter was asked about every row, and the cursor has delivered the rows
that one loop over all of them keeps. -/
theorem evaluates_in_order (hW : W.Reached H) (hp : W.Permits a) (hbegin : W.Begins a P start)
    (hg : P.filter.Shows g.recording π) (hsec : W.Secluded P.dispatcher π)
    (hsp : W.SparesBut P.dispatcher π a)
    (hrun : Run (Within P.dispatcher π) (W.after a) as V) :
    (∃ j ≤ P.count, π V.engine.world = g.record (P.visits.take j) (π start) ∧
      (g.through (P.visits.take j) (π start).1).1.Nodup) ∧
    (∀ site s, V.scan? site = some s → s.dispatcher.id = P.dispatcher →
      ∃ j ≤ P.count, π s.replace.2.engine.world = g.record (P.visits.take j) (π start) ∧
        (g.through (P.visits.take j) (π start).1).1.Nodup) ∧
    ∀ n c d, V.cursors.find? n = some c → V.dispatcher? c.site.dispatcher = some d →
      d.id = P.dispatcher → d.work ≠ none → c.cursor.IsOpen → (V.answer n).1 = .ok false →
        π (V.after (.next n)).engine.world = g.record P.visits (π start) ∧
        (g.through P.visits (π start).1).1 = P.visits.flatten ∧
        ∀ rows, received n W rows (a :: as) = g.keeps P.visits.flatten (π start).1 := by
  have begun : ∀ rows : List RowView, ∃ ring b D, V.Pursues P ring π g (π start) b D
      fun m => received m W rows (a :: as) := by
    intro rows
    obtain ⟨ring, b, D, hpursues⟩ := Pursues.begin (R := fun _ => rows) hg hW hp hsec hsp hbegin
    obtain ⟨b', D', -, hpursues'⟩ := hpursues.run hg (hW.deed hp) hrun
    exact ⟨ring, b', D', hpursues'⟩
  obtain ⟨HV, hV⟩ := hrun.reached (fun _ _ ha => ha.permits) (hW.deed hp)
  obtain ⟨F, h⟩ := hV.sound
  obtain ⟨ring, b, D, hpursues⟩ := begun []
  refine ⟨asked_of_trail hpursues.trail, fun site s hs hid => ?_,
    fun n c d hc hd hid hwork hopen hlast => ?_⟩
  · have m : Moves π (s, []) (s.replace.2, []) := moves_replace
    obtain ⟨b', D', -, hon⟩ := Moves.onTrail (Pass.lawful hg) m (h.scan hs (.refl _))
      (hpursues.onTrail hs hid) (congrFun (samePass_replace s).epoch P.dispatcher)
    exact asked_of_trail hon.trail
  · obtain ⟨s, hs, -⟩ := h.fit n c hc
    obtain rfl := Option.some.inj (hd.symm.trans (scan?_eq_some_iff.1 hs).1)
    rw [answer_eq hc hs] at hlast
    have hall : P.visits.take P.count = P.visits := by
      rw [← P.length_visits, List.take_length]
    obtain ⟨hworld, hbrings⟩ := hpursues.ended hg hV hc hs hid hwork hopen hlast
    have hasked := hbrings.asked
    rw [hall] at hasked
    refine ⟨hworld, hasked, fun rows => ?_⟩
    obtain ⟨ring, b, D, hpursues'⟩ := begun rows
    have hkeeps := (hpursues'.ended hg hV hc hs hid hwork hopen hlast).2.keeps []
    rw [hall] at hkeeps
    simpa [Filter.keeps] using hkeeps.symm

/-- The filter that keeps every other row it is asked about. -/
def alternating : Filter Nat where
  judge _ n := (if n % 2 = 0 then .keep else .skip, n + 1)

/-- A plan of that filter, with a record, on three frames, one of which has no rows. -/
def counted : Plan (Nat × List RowView) where
  source := { schema := { columns := #[] }, supply := fun w => (.ok (plainFrames [1, 0, 2]), w) }
  filter := alternating.recording
  dispatcher := { id := 1, reducer := .filtering .ascending }
  inbox := { id := 0 }

/-- The pass of an execution of that plan. -/
def counts : Pass (Nat × List RowView) :=
  counted.source.pass 1 .ascending counted.filter (plainFrames [1, 0, 2])

/-- A workshop with that plan and a ring of two slots. -/
def counting : Workshop (Nat × List RowView) :=
  Workshop.after
    { engine :=
        { rings := #[.ofCapacity 0 2]
          hubs := #[{ firstRing := 0, shards := 1, patience := 0 }]
          world := (0, []) } }
    (.addPlan "p" counted.source counted.filter)

lemma reached_counting : counting.Reached [] := by
  have made : Workshop.make? (0, [])
      [{ ringsPerHub := some 1, ringCapacity := some 2, patience := some 0 }] = .ok
        { engine :=
            { rings := #[.ofCapacity 0 2]
              hubs := #[{ firstRing := 0, shards := 1, patience := 0 }]
              world := ((0, []) : Nat × List RowView) } } := by
    with_unfolding_all rfl
  exact (Reached.make made).deed (a := .addPlan "p" _ _) fun _ _ hc => nomatch hc

lemma find?_counting : counting.plans.find? "p" = some counted := rfl

/-- Nothing has work yet. -/
lemma secluded_counting : counting.Secluded 1 id := by
  refine ⟨fun o d w hd hid hw => ?_, fun i slot w hw => ?_⟩
  · cases o with
    | own name => cases hd
    | plan name =>
      obtain ⟨p, hp, rfl⟩ := Option.map_eq_some_iff.1 hd
      obtain ⟨l₁, l₂, hl, -⟩ := List.lookup_eq_some_iff.1 hp
      have hentries : [("p", counted)] = l₁ ++ (name, p) :: l₂ := hl
      have hmem : (name, p) ∈ [("p", counted)] := by
        rw [hentries]
        exact List.mem_append_right _ List.mem_cons_self
      obtain ⟨rfl, rfl⟩ := Prod.mk.inj (List.mem_singleton.1 hmem)
      cases hw
  · have hnone : counting.engine.task i slot = {} := by
      rcases i with - | i
      · exact Ring.task_ofCapacity
      · rfl
    rw [hnone] at hw
    cases hw

/-- The workshop when a slot was reduced by hand and the cursor has come to the end. -/
def countedOut : Workshop (Nat × List RowView) :=
  (((counting.after (.openCursor "p" "c" 0)).after (.reduce 0)).after (.next "c")).after (.next "c")

/-- With a ring of two slots every row is judged once, be it by a bare reduction or by the cursor,
and every other row is delivered. -/
theorem evaluates_in_order_counting :
    Run (Within 1 id) (counting.after (.openCursor "p" "c" 0))
        [.reduce 0, .next "c", .next "c"] countedOut ∧
      (countedOut.answer "c").1 = .ok false ∧
      ((countedOut.after (.next "c")).engine.world.2.map fun v => (v.frame, v.row)) =
        [(0, 0), (2, 0), (2, 1)] ∧
      received "c" counting [] [.openCursor "p" "c" 0, .reduce 0, .next "c", .next "c"] =
        alternating.keeps counts.visits.flatten 0 := by
  have hbegin : counting.Begins (.openCursor "p" "c" 0) counts (0, []) :=
    .openCursor find?_counting rfl
  have hpermits : counting.Permits (.openCursor "p" "c" 0) :=
    ⟨fun _ _ hc => (nomatch hc), rfl, by decide +kernel⟩
  have hspares : counting.SparesBut 1 id (.openCursor "p" "c" 0) := by
    intro p hp
    obtain rfl := Option.some.inj (find?_counting.symm.trans hp)
    exact ⟨fun _ => rfl, fun hid => absurd rfl hid⟩
  have hrun : Run (Within 1 id) (counting.after (.openCursor "p" "c" 0))
      [.reduce 0, .next "c", .next "c"] countedOut :=
    .cons ⟨trivial, trivial, by decide +kernel⟩ (.cons ⟨trivial, trivial, by decide +kernel⟩
      (.cons ⟨trivial, trivial, by decide +kernel⟩ .nil))
  have hlast : (countedOut.answer "c").1 = .ok false := by with_unfolding_all rfl
  obtain ⟨-, -, hends⟩ := evaluates_in_order (g := alternating) (π := id) reached_counting hpermits
    hbegin (fun _ _ => ⟨rfl, rfl⟩) secluded_counting hspares hrun
  obtain ⟨c, hc⟩ : ∃ c, countedOut.cursors.find? "c" = some c :=
    Option.isSome_iff_exists.1 (by decide +kernel)
  have hsite : c.site = .ofPlan "p" := site_eq_of_find? (by decide +kernel) hc
  obtain ⟨d, hd⟩ : ∃ d, countedOut.dispatcher? (.plan "p") = some d :=
    Option.isSome_iff_exists.1 (by decide +kernel)
  have hdispatcher : (countedOut.dispatcher? (.plan "p")).map
      (fun d => (d.id, d.work.isSome)) = some (1, true) := by decide +kernel
  have hphase : (countedOut.cursors.find? "c").map (·.cursor.phase) = some .iterating := by
    decide +kernel
  rw [hd] at hdispatcher
  rw [hc] at hphase
  obtain ⟨hid, hwork⟩ := Prod.mk.inj (Option.some.inj hdispatcher)
  obtain ⟨-, -, hreceived⟩ := hends "c" c d hc (by rw [hsite]; exact hd) hid
    (Option.isSome_iff_ne_none.1 hwork) (.inr (Option.some.inj hphase)) hlast
  exact ⟨hrun, hlast, by decide +kernel, hreceived []⟩

end TableScan.Workshop
